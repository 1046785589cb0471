import Devnet.Proofs.Json.Records
import Devnet.Proofs.Json.Shuffles
import Mathlib

namespace Devnet

namespace Codec

variable {α : Type}

def Follows (c : Codec α) (R : RawJson → RawJson → Prop) : Prop :=
  ∀ room raw other value, R raw other → c.decode room raw = .ok value →
    ∃ value', c.decode room other = .ok value'

/-- Equal values, or two that are read from related documents. -/
def Twin (c : Codec α) (room : Nat) (R : RawJson → RawJson → Prop) (value other : α) : Prop :=
  other = value ∨ ∃ raw raw', R raw raw' ∧ c.decode room raw = .ok value ∧
    c.decode room raw' = .ok other

end Codec

namespace Fields

variable {τ : Type} {R : String → RawJson → RawJson → Prop} {room : Nat}

def Follows (R : String → RawJson → RawJson → Prop) : {τ : Type} → Fields τ → Prop
  | _, .nil => True
  | _, .cons name codec rest => codec.Follows (R name) ∧ rest.Follows R

def Twins (R : String → RawJson → RawJson → Prop) (room : Nat) :
    {τ : Type} → Fields τ → (values others : τ) → Prop
  | _, .nil, _, _ => True
  | _, .cons name codec rest, (value, values), (other, others) =>
    codec.Twin room (R name) value other ∧ rest.Twins R room values others

def SlotTwins (R : String → RawJson → RawJson → Prop) (room : Nat) :
    {τ : Type} → (fields : Fields τ) → (slots others : fields.Slots) → Prop
  | _, .nil => fun _ _ => True
  | _, .cons (α := α) name codec rest => fun (slots others : Option α × rest.Slots) =>
    Option.Rel (codec.Twin room (R name)) slots.1 others.1 ∧ rest.SlotTwins R room slots.2 others.2

theorem twins_refl (fields : Fields τ) (values : τ) : fields.Twins R room values values := by
  induction fields with
  | nil => trivial
  | cons name codec rest ih => exact ⟨Or.inl rfl, ih values.2⟩

theorem slotTwins_empty (fields : Fields τ) :
    fields.SlotTwins R room fields.empty fields.empty := by
  induction fields with
  | nil => trivial
  | cons name codec rest ih => exact ⟨.none, ih⟩

theorem fill_eq_none {key : String} {raw : RawJson} (fields : Fields τ) {slots : fields.Slots} :
    fields.fill room key raw slots = none ↔ key ∉ fields.names := by
  induction fields with
  | nil => simp [fill, names]
  | cons name codec rest ih =>
      rw [fill_cons, names, List.mem_cons, not_or]
      split
      · rename_i same
        simp [same]
      · rename_i other
        rw [Option.map_eq_none_iff, ih]
        simp [other]

theorem exists_fill {key : String} {raw other : RawJson} (related : R key raw other)
    (fields : Fields τ) (follows : fields.Follows R) {slots slots' after : fields.Slots}
    (twins : fields.SlotTwins R room slots slots')
    (filled : fields.fill room key raw slots = some (.ok after)) :
    ∃ after', fields.fill room key other slots' = some (.ok after') ∧
      fields.SlotTwins R room after after' := by
  induction fields with
  | nil => cases filled
  | cons name codec rest ih =>
      obtain ⟨slot, others⟩ := slots
      obtain ⟨slot', others'⟩ := slots'
      obtain ⟨first, later⟩ := twins
      rw [fill_cons] at filled
      rw [fill_cons]
      split at filled
      · rename_i same
        subst same
        have outcome := Option.some.inj filled
        cases first with
        | some _ => cases outcome
        | none =>
            obtain ⟨value, read, rfl⟩ := map_eq_ok.mp outcome
            obtain ⟨value', read'⟩ := follows.1 room raw other value related read
            refine ⟨(some value', others'), ?_, .some (Or.inr ⟨raw, other, related, read, read'⟩), later⟩
            rw [if_pos rfl, read']
            rfl
      · rename_i different
        obtain ⟨inner, taken, outcome⟩ := Option.map_eq_some_iff.mp filled
        obtain ⟨passed, rfl, rfl⟩ := map_eq_ok.mp outcome
        obtain ⟨after', taken', twins'⟩ := ih follows.2 later taken
        refine ⟨(slot', after'), ?_, first, twins'⟩
        rw [if_neg different, taken']
        rfl

theorem exists_fillAll (formed : ∀ name raw other, R name raw other → raw.isWellFormed = true →
      other.isWellFormed = true) (fields : Fields τ) (follows : fields.Follows R)
    {members others : List (String × RawJson)} (each : Table.Keyed R members others)
    {slots slots' after : fields.Slots} (twins : fields.SlotTwins R room slots slots')
    (filled : fields.fillAll room (members.map fun member => (some member.1, member.2)) slots =
      .ok after) :
    ∃ after', fields.fillAll room (others.map fun member => (some member.1, member.2)) slots' =
      .ok after' ∧ fields.SlotTwins R room after after' := by
  induction each generalizing slots slots' with
  | nil =>
      cases filled
      exact ⟨slots', rfl, twins⟩
  | @cons member other members others first _ ih =>
      obtain ⟨name, raw⟩ := member
      obtain ⟨name', raw'⟩ := other
      obtain ⟨rfl, related⟩ := first
      rw [List.map_cons, fillAll] at filled
      rw [List.map_cons, fillAll]
      split at filled
      · cases filled
      · rename_i between taken
        obtain ⟨between', taken', twins'⟩ := exists_fill related fields follows twins taken
        rw [taken']
        exact ih twins' filled
      · rename_i unknown
        split at filled
        · rename_i grammar
          rw [fields.fill_eq_none.mpr (fields.fill_eq_none.mp unknown)]
          simp only [formed _ _ _ related grammar, if_true]
          exact ih twins filled
        · cases filled

theorem exists_finish (fields : Fields τ) {slots slots' : fields.Slots} {values : τ}
    (twins : fields.SlotTwins R room slots slots') (finished : fields.finish slots = .ok values) :
    ∃ values', fields.finish slots' = .ok values' ∧ fields.Twins R room values values' := by
  induction fields with
  | nil => exact ⟨(), rfl, trivial⟩
  | cons name codec rest ih =>
      obtain ⟨slot, others⟩ := slots
      obtain ⟨slot', others'⟩ := slots'
      obtain ⟨first, later⟩ := twins
      simp only [finish] at finished ⊢
      split at finished
      · cases finished
      · rename_i value chosen
        obtain ⟨rest, passed, rfl⟩ := map_eq_ok.mp finished
        obtain ⟨rest', passed', twins'⟩ := ih later passed
        cases first with
        | none =>
            rw [Option.none_or] at chosen ⊢
            refine ⟨(value, rest'), ?_, Or.inl rfl, twins'⟩
            rw [chosen, passed']
            rfl
        | @some _ value' twin =>
            rw [Option.some_or] at chosen
            cases chosen
            refine ⟨(value', rest'), ?_, twin, twins'⟩
            rw [passed']
            rfl

theorem exists_decodeItems {wanted : String} (fields : Fields τ) (follows : fields.Follows R)
    {index : Nat} {items others left : List RawJson} (aligned : Aligned R fields.names items others)
    {values : τ} (read : fields.decodeItems room wanted index items = .ok (values, left)) :
    ∃ values', fields.decodeItems room wanted index others = .ok (values', left) ∧
      fields.Twins R room values values' := by
  induction fields generalizing index items others with
  | nil =>
      cases aligned with
      | short => exact ⟨(), read, trivial⟩
      | rest => exact ⟨(), read, trivial⟩
  | cons name codec rest ih =>
      cases aligned with
      | short => cases read
      | @cons _ _ item other items others related later =>
          simp only [decodeItems, bind_eq_ok, pure_eq_ok] at read
          obtain ⟨value, taken, ⟨values, left⟩, passed, same⟩ := read
          cases same
          obtain ⟨value', taken'⟩ := follows.1 room item other value related taken
          obtain ⟨values', passed', twins⟩ := ih follows.2 later passed
          refine ⟨(value', values'), ?_, Or.inr ⟨item, other, related, taken, taken'⟩, twins⟩
          simp only [decodeItems, bind_eq_ok, pure_eq_ok]
          exact ⟨value', taken', (values', left), passed', rfl⟩

theorem exists_decode (formed : ∀ name raw other, R name raw other → raw.isWellFormed = true →
      other.isWellFormed = true) {fields : Fields τ} (follows : fields.Follows R) {name : String}
    {raw other : RawJson} (rearranged : RawJson.Rearranged R fields.names raw other) {values : τ}
    (read : fields.decode name room raw = .ok values) :
    ∃ room' values', fields.decode name room other = .ok values' ∧
      fields.Twins R room' values values' := by
  cases rearranged with
  | same => exact ⟨0, values, read, fields.twins_refl values⟩
  | object each =>
      cases room with
      | zero => cases read
      | succ room =>
          obtain ⟨slots, filled, finished⟩ := bind_eq_ok.mp read
          obtain ⟨slots', filled', twins⟩ :=
            fields.exists_fillAll formed follows each fields.slotTwins_empty filled
          obtain ⟨values', finished', twins'⟩ := fields.exists_finish twins finished
          exact ⟨room, values', bind_eq_ok.mpr ⟨slots', filled', finished'⟩, twins'⟩
  | array each =>
      cases room with
      | zero => cases read
      | succ room =>
          simp only [decode, bind_eq_ok] at read ⊢
          obtain ⟨⟨found, left⟩, taken, finished⟩ := read
          obtain ⟨values', taken', twins⟩ := fields.exists_decodeItems follows each taken
          split at finished
          · rename_i none
            rw [pure_eq_ok] at finished
            cases finished
            refine ⟨room, values', ⟨(values', left), taken', ?_⟩, twins⟩
            rw [if_pos none]
            rfl
          · exact absurd finished throw_ne_ok

end Fields

theorem Codec.exists_record {α τ : Type} {name : String} {fields : Fields τ} {values : α → τ}
    {build : τ → α} {lists : List String} {room : Nat} {raw other : RawJson} {value : α}
    (read : (Codec.record name fields values build).decode room raw = .ok value)
    (rearranged : RawJson.Rearranged (Loose RawJson.array lists) fields.names raw other)
    (follows : fields.Follows (Loose RawJson.array lists)) :
    ∃ room' tuple tuple', value = build tuple ∧
      (Codec.record name fields values build).decode room other = .ok (build tuple') ∧
      fields.Twins (Loose RawJson.array lists) room' tuple tuple' := by
  obtain ⟨tuple, taken, rfl⟩ := map_eq_ok.mp read
  obtain ⟨room', tuple', taken', twins⟩ :=
    Fields.exists_decode (fun _ _ _ => RawJson.isWellFormed_loose) follows rearranged taken
  exact ⟨room', tuple, tuple', rfl, map_eq_ok.mpr ⟨tuple', taken', rfl⟩, twins⟩

namespace Codec

variable {α : Type} {lists : List String} {name : String}

theorem follows_of_not_mem (c : Codec α) (fixed : name ∉ lists) :
    c.Follows (Loose RawJson.array lists name) := by
  intro room raw other value loose read
  rcases loose with rfl | ⟨listed, -⟩
  · exact ⟨value, read⟩
  · exact absurd listed fixed

theorem Twin.eq_of_not_mem {c : Codec α} {room : Nat} {value other : α} (fixed : name ∉ lists)
    (twin : c.Twin room (Loose RawJson.array lists name) value other) : other = value := by
  rcases twin with same | ⟨raw, raw', loose, read, read'⟩
  · exact same
  · rcases loose with rfl | ⟨listed, -⟩
    · exact Except.ok.inj (read'.symm.trans read)
    · exact absurd listed fixed

theorem exists_shuffled {c : Codec α} {room : Nat} {raw other : RawJson} {values : List α}
    (loose : Loose RawJson.array lists name raw other) (read : (list c).decode room raw = .ok values) :
    ∃ values', (list c).decode room other = .ok values' ∧ values'.Perm values := by
  rcases loose with rfl | ⟨-, items, items', rfl, rfl, perm⟩
  · exact ⟨values, read, List.Perm.refl values⟩
  · cases room with
    | zero => cases read
    | succ room =>
        have each : List.Forall₂ (fun item value => c.decode room item = .ok value) items values :=
          decodeItems_eq_ok.mp read
        obtain ⟨values', each', perm'⟩ := List.perm_comp_forall₂ perm each
        exact ⟨values', decodeItems_eq_ok.mpr each', perm'⟩

theorem follows_list (c : Codec α) : (list c).Follows (Loose RawJson.array lists name) := by
  intro room raw other values loose read
  obtain ⟨values', read', -⟩ := exists_shuffled loose read
  exact ⟨values', read'⟩

theorem Twin.perm {c : Codec α} {room : Nat} {values others : List α}
    (twin : (list c).Twin room (Loose RawJson.array lists name) values others) :
    others.Perm values := by
  rcases twin with same | ⟨raw, raw', loose, read, read'⟩
  · exact List.Perm.of_eq same
  · obtain ⟨found, taken, perm⟩ := exists_shuffled loose read
    obtain rfl := Except.ok.inj (read'.symm.trans taken)
    exact perm

end Codec
end Devnet
