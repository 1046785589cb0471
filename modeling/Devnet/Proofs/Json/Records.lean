import Devnet.Json.Record
import Devnet.Proofs.Json.Exact
import Devnet.Proofs.Json.Values
import Mathlib

/-! Records give back what they wrote, whatever order their members have come into. Filling the slots
is described by what each slot holds before and after, which does not mention an order. Of any document
it is known that the values of a record come from its parts. -/

namespace Devnet

namespace Fields

variable {τ : Type}

/-- Every slot whose name is among the members was empty and takes its value; the others stay. -/
def Takes (room : Nat) (members : List (String × RawJson)) :
    {τ : Type} → (fields : Fields τ) → (before after : fields.Slots) → Prop
  | _, .nil => fun _ _ => True
  | _, .cons (α := α) name codec rest => fun (before after : Option α × rest.Slots) =>
    ((∀ raw, (name, raw) ∈ members →
        before.1 = none ∧ ∃ value, codec.decode room raw = .ok value ∧ after.1 = some value) ∧
      ((∀ raw, (name, raw) ∉ members) → after.1 = before.1)) ∧
    rest.Takes room members before.2 after.2

theorem takes_fields {α : Type} {room : Nat} {members : List (String × RawJson)} {name : String}
    {codec : Codec α} {rest : Fields τ} {before after : Option α × rest.Slots} :
    (Fields.cons name codec rest).Takes room members before after ↔
      ((∀ raw, (name, raw) ∈ members →
          before.1 = none ∧ ∃ value, codec.decode room raw = .ok value ∧ after.1 = some value) ∧
        ((∀ raw, (name, raw) ∉ members) → after.1 = before.1)) ∧
      rest.Takes room members before.2 after.2 := Iff.rfl

theorem takes_of_not_mem {room : Nat} {members : List (String × RawJson)} (fields : Fields τ)
    (before after : fields.Slots) (others : ∀ name ∈ fields.names, ∀ raw, (name, raw) ∉ members) :
    fields.Takes room members before after ↔ after = before := by
  induction fields with
  | nil => exact ⟨fun _ => rfl, fun _ => trivial⟩
  | cons name codec rest ih =>
      have absent := others name List.mem_cons_self
      have same := ih before.2 after.2 fun other member => others other (List.mem_cons_of_mem _ member)
      constructor
      · intro given
        rcases given with ⟨⟨-, kept⟩, restTakes⟩
        exact Prod.ext (kept absent) (same.mp restTakes)
      · rintro rfl
        exact ⟨⟨fun raw member => absurd member (absent raw), fun _ => rfl⟩, same.mpr rfl⟩

theorem mem_pair {key name : String} {raw other : RawJson} :
    (name, other) ∈ [(key, raw)] ↔ name = key ∧ other = raw := by
  simp [Prod.ext_iff]

theorem fill_cons {α : Type} (room : Nat) (key : String) (raw : RawJson) (name : String)
    (codec : Codec α) (rest : Fields τ) (slots : Option α × rest.Slots) :
    (Fields.cons name codec rest).fill room key raw slots =
      if key = name then
        some <|
          if slots.1.isSome then .error (.duplicateField name)
          else (codec.decode room raw).map fun value => (some value, slots.2)
      else
        (rest.fill room key raw slots.2).map fun filled => filled.map fun others => (slots.1, others) :=
  rfl

theorem fill_eq_ok (room : Nat) {key : String} (raw : RawJson) (fields : Fields τ)
    (slots : fields.Slots) (distinct : fields.names.Nodup) (known : key ∈ fields.names) :
    ∃ outcome, fields.fill room key raw slots = some outcome ∧
      ∀ after, outcome = .ok after ↔ fields.Takes room [(key, raw)] slots after := by
  induction fields with
  | nil => cases known
  | cons name codec rest ih =>
      obtain ⟨fresh, distinctRest⟩ := List.nodup_cons.mp distinct
      rw [fill_cons]
      by_cases here : key = name
      · subst here
        have others : ∀ other ∈ rest.names, ∀ raw', (other, raw') ∉ [(key, raw)] := by
          intro other member raw' inside
          rw [(mem_pair.mp inside).1] at member
          exact fresh member
        refine ⟨_, if_pos rfl, fun after => ?_⟩
        rw [takes_fields, takes_of_not_mem rest _ _ others]
        cases empty : slots.1 with
        | some old =>
            constructor
            · intro refused
              cases refused
            · intro given
              rcases given with ⟨⟨taken, -⟩, -⟩
              cases (taken raw (mem_pair.mpr ⟨rfl, rfl⟩)).1
        | none =>
            simp only [Option.isSome_none, Bool.false_eq_true, if_false, map_eq_ok]
            constructor
            · intro given
              rcases given with ⟨value, read, rfl⟩
              refine ⟨⟨?_, fun absent => absurd (mem_pair.mpr ⟨rfl, rfl⟩) (absent raw)⟩, rfl⟩
              intro raw' member
              rw [(mem_pair.mp member).2]
              exact ⟨trivial, value, read, rfl⟩
            · intro given
              rcases given with ⟨⟨taken, -⟩, kept⟩
              obtain ⟨-, value, read, held⟩ := taken raw (mem_pair.mpr ⟨rfl, rfl⟩)
              exact ⟨value, read, Prod.ext held.symm kept.symm⟩
      · have knownRest : key ∈ rest.names := (List.mem_cons.mp known).resolve_left here
        have absent : ∀ raw', (name, raw') ∉ [(key, raw)] := fun raw' member =>
          here (mem_pair.mp member).1.symm
        obtain ⟨outcome, filled, taken⟩ := ih slots.2 distinctRest knownRest
        refine ⟨outcome.map fun others => (slots.1, others), ?_, fun after => ?_⟩
        · rw [if_neg here, filled]
          rfl
        · rw [takes_fields, map_eq_ok]
          constructor
          · intro given
            rcases given with ⟨others, passed, rfl⟩
            exact ⟨⟨fun raw' member => absurd member (absent raw'), fun _ => rfl⟩,
              (taken others).mp passed⟩
          · intro given
            rcases given with ⟨⟨-, kept⟩, restTakes⟩
            exact ⟨after.2, (taken after.2).mpr restTakes, Prod.ext (kept absent).symm rfl⟩

theorem takes_cons {room : Nat} {key : String} {raw : RawJson} {members : List (String × RawJson)}
    (new : ∀ other, (key, other) ∉ members) (fields : Fields τ) (before after : fields.Slots) :
    fields.Takes room ((key, raw) :: members) before after ↔
      ∃ between, fields.Takes room [(key, raw)] before between ∧
        fields.Takes room members between after := by
  induction fields with
  | nil => exact ⟨fun _ => ⟨(), trivial, trivial⟩, fun _ => trivial⟩
  | cons name codec rest ih =>
      have inner := ih before.2 after.2
      by_cases here : name = key
      · subst here
        constructor
        · -- the first slot takes its value at once, and keeps it while the others are filled
          intro given
          rcases given with ⟨⟨taken, -⟩, restTakes⟩
          obtain ⟨between, first, others⟩ := inner.mp restTakes
          obtain ⟨empty, value, read, held⟩ := taken raw List.mem_cons_self
          refine ⟨(after.1, between), ⟨⟨?_, ?_⟩, first⟩, ⟨⟨?_, fun _ => rfl⟩, others⟩⟩
          · intro raw' member
            rw [(mem_pair.mp member).2]
            exact ⟨empty, value, read, held⟩
          · intro absent
            exact absurd (mem_pair.mpr ⟨rfl, rfl⟩) (absent raw)
          · intro raw' member
            exact absurd member (new raw')
        · intro given
          rcases given with ⟨between, ⟨⟨taken, -⟩, first⟩, ⟨-, kept⟩, others⟩
          obtain ⟨empty, value, read, held⟩ := taken raw (mem_pair.mpr ⟨rfl, rfl⟩)
          refine ⟨⟨?_, ?_⟩, inner.mpr ⟨between.2, first, others⟩⟩
          · intro raw' member
            rcases List.mem_cons.mp member with same | later
            · rw [(Prod.mk.inj same).2, kept new]
              exact ⟨empty, value, read, held⟩
            · exact absurd later (new raw')
          · intro absent
            exact absurd List.mem_cons_self (absent raw)
      · have skip : ∀ raw', (name, raw') ∉ [(key, raw)] := fun raw' member =>
          here (mem_pair.mp member).1
        have inTail : ∀ raw', (name, raw') ∈ (key, raw) :: members ↔ (name, raw') ∈ members := by
          intro raw'
          simp [here]
        simp only [takes_fields, inTail]
        constructor
        · intro given
          rcases given with ⟨head, restTakes⟩
          obtain ⟨between, first, others⟩ := inner.mp restTakes
          exact ⟨(before.1, between), ⟨⟨fun raw' member => absurd member (skip raw'), fun _ => rfl⟩,
            first⟩, head, others⟩
        · intro given
          rcases given with ⟨between, ⟨⟨-, kept⟩, first⟩, head, others⟩
          rw [kept skip] at head
          exact ⟨head, inner.mpr ⟨between.2, first, others⟩⟩

theorem takes_nil {room : Nat} (fields : Fields τ) (before after : fields.Slots) :
    fields.Takes room [] before after ↔ after = before :=
  takes_of_not_mem fields before after fun _ _ _ member => by cases member

theorem fillAll_eq_ok {room : Nat} (fields : Fields τ) (distinct : fields.names.Nodup)
    (members : List (String × RawJson)) (keys : (members.map Prod.fst).Nodup)
    (known : ∀ member ∈ members, member.1 ∈ fields.names) (before after : fields.Slots) :
    fields.fillAll room (members.map fun member => (some member.1, member.2)) before = .ok after ↔
      fields.Takes room members before after := by
  induction members generalizing before with
  | nil =>
      rw [takes_nil, List.map_nil, fillAll, Except.ok.injEq]
      exact eq_comm
  | cons member members ih =>
      obtain ⟨key, raw⟩ := member
      obtain ⟨fresh, keysRest⟩ := List.nodup_cons.mp keys
      have new : ∀ other, (key, other) ∉ members := fun other inside =>
        fresh (List.mem_map.mpr ⟨_, inside, rfl⟩)
      obtain ⟨outcome, filled, taken⟩ :=
        fill_eq_ok room raw fields before distinct (known _ List.mem_cons_self)
      have later := fun between => ih keysRest
        (fun other inside => known other (List.mem_cons_of_mem _ inside)) between
      rw [List.map_cons, fillAll, filled, takes_cons new]
      cases outcome with
      | error fault =>
          constructor
          · intro refused
            cases refused
          · intro given
            rcases given with ⟨between, first, -⟩
            cases (taken between).mpr first
      | ok between =>
          simp only
          rw [later between]
          constructor
          · intro others
            exact ⟨between, (taken between).mp rfl, others⟩
          · intro given
            rcases given with ⟨between', first, others⟩
            cases (taken between').mpr first
            exact others

def Echo (become : Json → RawJson) (room : Nat) : {τ : Type} → Fields τ → (values found : τ) → Prop
  | _, .nil, _, _ => True
  | _, .cons _ codec rest, (value, values), (other, found) =>
    codec.decode room (become (codec.encode value)) = .ok other ∧ rest.Echo become room values found

theorem takes_encode {become : Json → RawJson} {room : Nat} (fields : Fields τ) (values found : τ)
    (members : List (String × RawJson))
    (stands : ∀ name json, (name, json) ∈ fields.encode values →
      ∀ raw, (name, raw) ∈ members ↔ raw = become json) :
    (∃ after, fields.Takes room members fields.empty after ∧ fields.finish after = .ok found) ↔
      fields.Echo become room values found := by
  induction fields with
  | nil => exact ⟨fun _ => trivial, fun _ => ⟨(), trivial, rfl⟩⟩
  | cons name codec rest ih =>
      obtain ⟨value, values⟩ := values
      obtain ⟨other, found⟩ := found
      have here := stands name (codec.encode value) List.mem_cons_self
      have inner := ih values found fun name json member =>
        stands name json (List.mem_cons_of_mem _ member)
      rw [Echo, ← inner]
      constructor
      · intro given
        rcases given with ⟨after, ⟨⟨taken, -⟩, restTakes⟩, finished⟩
        obtain ⟨-, read, decoded, held⟩ := taken _ ((here _).mpr rfl)
        simp only [finish] at finished
        rw [held] at finished
        obtain ⟨others, restFinished, same⟩ := map_eq_ok.mp finished
        cases same
        exact ⟨decoded, after.2, restTakes, restFinished⟩
      · intro given
        rcases given with ⟨decoded, after, restTakes, restFinished⟩
        refine ⟨(some other, after), ⟨⟨?_, ?_⟩, restTakes⟩, ?_⟩
        · intro raw member
          rw [(here raw).mp member]
          exact ⟨rfl, other, decoded, rfl⟩
        · intro absent
          exact absurd ((here _).mpr rfl) (absent _)
        · change (rest.finish after).map _ = _
          rw [restFinished]
          rfl

theorem map_fst_encode (fields : Fields τ) (values : τ) :
    (fields.encode values).map Prod.fst = fields.names := by
  induction fields with
  | nil => rfl
  | cons name codec rest ih =>
      obtain ⟨value, values⟩ := values
      rw [encode, List.map_cons, ih, names]

/-- Reading a record in any order of its members reads every field from its own. -/
theorem decode_members (become : Json → RawJson) (room : Nat) {fields : Fields τ}
    (distinct : fields.names.Nodup) (name : String) (values found : τ)
    {members : List (String × RawJson)}
    (perm : members.Perm ((fields.encode values).map fun member => (member.1, become member.2))) :
    fields.decode name (room + 1) (.object (members.map fun member => (some member.1, member.2))) =
      .ok found ↔ fields.Echo become room values found := by
  have names : (members.map Prod.fst).Perm fields.names := by
    have renamed := perm.map Prod.fst
    rw [List.map_map] at renamed
    exact renamed.trans (List.Perm.of_eq (fields.map_fst_encode values))
  have keys : (members.map Prod.fst).Nodup := names.nodup_iff.mpr distinct
  have known : ∀ member ∈ members, member.1 ∈ fields.names := fun member inside =>
    names.mem_iff.mp (List.mem_map_of_mem inside)
  have stands : ∀ name json, (name, json) ∈ fields.encode values → ∀ raw,
      (name, raw) ∈ members ↔ raw = become json := by
    intro name json member raw
    have there : (name, become json) ∈ members :=
      perm.mem_iff.mpr (List.mem_map.mpr ⟨(name, json), member, rfl⟩)
    constructor
    · intro inside
      exact congrArg Prod.snd (List.inj_on_of_nodup_map keys inside there rfl)
    · rintro rfl
      exact there
  rw [← takes_encode fields values found _ stands, decode, bind_eq_ok]
  simp only [fillAll_eq_ok fields distinct _ keys known]

end Fields

def Codec.Finds {α : Type} (c : Codec α) (room : Nat) (parts : List RawJson) (value : α) : Prop :=
  value ∈ c.absent ∨ ∃ raw ∈ parts, c.decode room raw = .ok value

namespace Fields

variable {τ : Type}

def From (room : Nat) (parts : List RawJson) : {τ : Type} → Fields τ → τ → Prop
  | _, .nil, _ => True
  | _, .cons _ codec rest, (value, values) =>
    codec.Finds room parts value ∧ rest.From room parts values

def Holds (room : Nat) (parts : List RawJson) : {τ : Type} → (fields : Fields τ) → fields.Slots → Prop
  | _, .nil => fun _ => True
  | _, .cons (α := α) _ codec rest => fun (slots : Option α × rest.Slots) =>
    (∀ value ∈ slots.1, ∃ raw ∈ parts, codec.decode room raw = .ok value) ∧
      rest.Holds room parts slots.2

theorem holds_empty (room : Nat) (parts : List RawJson) (fields : Fields τ) :
    fields.Holds room parts fields.empty := by
  induction fields with
  | nil => trivial
  | cons name codec rest ih =>
      refine ⟨?_, ih⟩
      intro value member
      cases member

theorem holds_fill {room : Nat} {parts : List RawJson} {key : String} {raw : RawJson}
    (part : raw ∈ parts) (fields : Fields τ) {before after : fields.Slots}
    (held : fields.Holds room parts before)
    (filled : fields.fill room key raw before = some (.ok after)) :
    fields.Holds room parts after := by
  induction fields with
  | nil => cases filled
  | cons name codec rest ih =>
      rw [fill_cons] at filled
      split at filled
      · obtain outcome := Option.some.inj filled
        split at outcome
        · cases outcome
        · obtain ⟨value, read, rfl⟩ := map_eq_ok.mp outcome
          refine ⟨?_, held.2⟩
          rintro _ ⟨⟩
          exact ⟨raw, part, read⟩
      · obtain ⟨inner, taken, outcome⟩ := Option.map_eq_some_iff.mp filled
        obtain ⟨others, passed, rfl⟩ := map_eq_ok.mp outcome
        rw [passed] at taken
        exact ⟨held.1, ih held.2 taken⟩

theorem holds_fillAll {room : Nat} {parts : List RawJson} (fields : Fields τ)
    {members : List (Option String × RawJson)} (inside : ∀ member ∈ members, member.2 ∈ parts)
    {before after : fields.Slots} (held : fields.Holds room parts before)
    (filled : fields.fillAll room members before = .ok after) : fields.Holds room parts after := by
  induction members generalizing before with
  | nil =>
      rw [fillAll, Except.ok.injEq] at filled
      exact filled ▸ held
  | cons member members ih =>
      obtain ⟨key, raw⟩ := member
      obtain ⟨first, others⟩ := List.forall_mem_cons.mp inside
      cases key with
      | none => cases filled
      | some key =>
          rw [fillAll] at filled
          split at filled
          · cases filled
          · rename_i between taken
            exact ih others (holds_fill first fields held taken) filled
          · split at filled
            · exact ih others held filled
            · cases filled

theorem from_finish {room : Nat} {parts : List RawJson} (fields : Fields τ) {slots : fields.Slots}
    {values : τ} (held : fields.Holds room parts slots) (finished : fields.finish slots = .ok values) :
    fields.From room parts values := by
  induction fields with
  | nil => trivial
  | cons name codec rest ih =>
      simp only [finish] at finished
      split at finished
      · cases finished
      · rename_i value chosen
        obtain ⟨others, passed, rfl⟩ := map_eq_ok.mp finished
        refine ⟨?_, ih held.2 passed⟩
        rcases Option.or_eq_some_iff.mp chosen with present | ⟨-, absent⟩
        · exact Or.inr (held.1 value present)
        · exact Or.inl absent

theorem from_decodeItems {room : Nat} {parts : List RawJson} {wanted : String} (fields : Fields τ)
    {index : Nat} {items : List RawJson} (inside : ∀ item ∈ items, item ∈ parts) {values : τ}
    {left : List RawJson} (read : fields.decodeItems room wanted index items = .ok (values, left)) :
    fields.From room parts values := by
  induction fields generalizing index items with
  | nil => trivial
  | cons name codec rest ih =>
      cases items with
      | nil => cases read
      | cons item items =>
          obtain ⟨first, others⟩ := List.forall_mem_cons.mp inside
          simp only [decodeItems, bind_eq_ok, pure_eq_ok] at read
          obtain ⟨value, taken, ⟨values, left⟩, passed, same⟩ := read
          cases same
          exact ⟨Or.inr ⟨item, first, taken⟩, ih others passed⟩

theorem from_decode {room : Nat} {raw : RawJson} {fields : Fields τ} {name : String} {values : τ}
    (read : fields.decode name room raw = .ok values) :
    ∃ room', room = room' + 1 ∧ fields.From room' raw.parts values := by
  unfold decode at read
  split at read
  · cases read
  · obtain ⟨slots, filled, finished⟩ := bind_eq_ok.mp read
    have held := holds_fillAll fields (fun member inside => List.mem_map_of_mem inside)
      (holds_empty _ _ fields) filled
    exact ⟨_, rfl, from_finish fields held finished⟩
  · cases read
  · simp only [bind_eq_ok] at read
    obtain ⟨⟨values, left⟩, taken, finished⟩ := read
    split at finished
    · rw [pure_eq_ok] at finished
      cases finished
      exact ⟨_, rfl, from_decodeItems fields (fun _ member => member) taken⟩
    · exact absurd finished throw_ne_ok
  · cases read

def Echoes (fields : Fields τ) (a : Arrangement) (room : Nat) (values : τ) (legal : Prop) : Prop :=
  ∀ found, fields.Echo (fun json => .ofJson (a.apply json)) room values found ↔ legal ∧ found = values

theorem echoes_nil {a : Arrangement} {room : Nat} : Fields.nil.Echoes a room () True :=
  fun _ => ⟨fun _ => ⟨trivial, rfl⟩, fun _ => trivial⟩

theorem echoes_cons {α : Type} {name : String} {codec : Codec α} {rest : Fields τ} {a : Arrangement}
    {room : Nat} {value : α} {values : τ} {legal legals : Prop}
    (first : codec.Echoes a room value legal) (others : rest.Echoes a room values legals) :
    (Fields.cons name codec rest).Echoes a room (value, values) (legal ∧ legals) := by
  intro found
  obtain ⟨other, found⟩ := found
  change codec.echo a room value = .ok other ∧ rest.Echo _ room values found ↔ _
  rw [first other, others found]
  constructor
  · intro given
    rcases given with ⟨⟨legal, rfl⟩, legals, rfl⟩
    exact ⟨⟨legal, legals⟩, rfl⟩
  · intro given
    rcases given with ⟨⟨legal, legals⟩, same⟩
    cases same
    exact ⟨⟨legal, rfl⟩, legals, rfl⟩

structure Exact (fields : Fields τ) (fit legal : τ → Prop) (depth : Nat) : Prop where
  tidy : ∀ values, fit values → ∀ member ∈ fields.encode values, member.2.Tidy depth
  echoes : ∀ (a : Arrangement) room values found, depth ≤ room → fit values →
    (fields.Echo (fun json => .ofJson (a.apply json)) room values found ↔
      legal values ∧ found = values)
  sound : ∀ room parts values, fields.From room parts values → legal values

theorem exact_nil : Fields.nil.Exact Codec.Always Codec.Always 0 where
  tidy _ _ member inside := by cases inside
  echoes _ _ _ found _ _ := echoes_nil found
  sound _ _ _ _ := trivial

theorem exact_cons {α : Type} {name : String} {codec : Codec α} {rest : Fields τ}
    {fit legal : α → Prop} {fits legals : τ → Prop} {depth depths : Nat}
    (first : codec.Exact fit legal depth) (others : rest.Exact fits legals depths) :
    (Fields.cons name codec rest).Exact (fun values => fit values.1 ∧ fits values.2)
      (fun values => legal values.1 ∧ legals values.2) (max depth depths) where
  tidy values both member inside := by
    rcases List.mem_cons.mp inside with rfl | later
    · exact (first.tidy values.1 both.1).mono (Nat.le_max_left _ _)
    · exact (others.tidy values.2 both.2 member later).mono (Nat.le_max_right _ _)
  echoes a room values found enough both :=
    echoes_cons (first.echoes_of_fit (by omega) both.1)
      (fun found => others.echoes a room values.2 found (by omega) both.2) found
  sound room parts values given := by
    obtain ⟨found, rest⟩ := given
    refine ⟨?_, others.sound room parts values.2 rest⟩
    rcases found with absent | ⟨raw, -, read⟩
    · exact first.absent values.1 absent
    · exact first.sound room raw values.1 read

end Fields

theorem Codec.echoes_record {α τ : Type} {name : String} {fields : Fields τ} {values : α → τ}
    {build : τ → α} {a : Arrangement} {room : Nat} {value : α} {legal : Prop}
    (echoes : fields.Echoes a room (values value) legal) (distinct : fields.names.Nodup)
    (inverse : ∀ value, build (values value) = value) :
    (Codec.record name fields values build).Echoes a (room + 1) value legal := by
  intro found
  have keys : ((fields.encode (values value)).map Prod.fst).Nodup :=
    (fields.map_fst_encode (values value)).symm ▸ distinct
  obtain ⟨arranged, shape, perm⟩ := a.apply_object keys
  have written : RawJson.ofJson (a.apply ((Codec.record name fields values build).encode value)) =
      .object ((arranged.map fun member => (member.1, RawJson.ofJson member.2)).map
        fun member => (some member.1, member.2)) := by
    change RawJson.ofJson (a.apply (.object _)) = _
    rw [shape, RawJson.ofJson_object, List.map_map]
    rfl
  have stands : (arranged.map fun member => (member.1, RawJson.ofJson member.2)).Perm
      ((fields.encode (values value)).map fun member =>
        (member.1, RawJson.ofJson (a.apply member.2))) :=
    (perm.map _).trans (List.Perm.of_eq List.map_map)
  rw [echo, written]
  change (fields.decode name (room + 1) _).map build = _ ↔ _
  rw [map_eq_ok]
  simp only [Fields.decode_members (fun json => .ofJson (a.apply json)) room distinct name
    (values value) _ stands, echoes _]
  constructor
  · intro given
    rcases given with ⟨_, ⟨legal, rfl⟩, rfl⟩
    exact ⟨legal, inverse value⟩
  · intro given
    rcases given with ⟨legal, rfl⟩
    exact ⟨values found, ⟨legal, rfl⟩, inverse found⟩

theorem Codec.exact_record {α τ : Type} {name : String} {fields : Fields τ} {values : α → τ}
    {build : τ → α} {fits legals : τ → Prop} {depth : Nat} (exact : fields.Exact fits legals depth)
    (distinct : fields.names.Nodup) (inverse : ∀ value, build (values value) = value)
    (built : ∀ tuple, values (build tuple) = tuple) :
    (Codec.record name fields values build).Exact (fun value => fits (values value))
      (fun value => legals (values value)) (depth + 1) where
  tidy value fit := .object fun member inside => exact.tidy (values value) fit member inside
  echoes a room value found enough fit := by
    obtain ⟨room, rfl⟩ := Nat.exists_eq_add_one_of_ne_zero (show room ≠ 0 by omega)
    exact echoes_record (fun tuple => exact.echoes a room (values value) tuple (by omega) fit)
      distinct inverse found
  sound room raw value read := by
    obtain ⟨tuple, taken, rfl⟩ := map_eq_ok.mp read
    obtain ⟨room', -, given⟩ := Fields.from_decode taken
    rw [built]
    exact exact.sound room' raw.parts tuple given
  absent value left := by cases left

end Devnet
