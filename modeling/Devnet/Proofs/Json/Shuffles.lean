import Devnet.Proofs.Json.Doubles
import Devnet.Proofs.Table.Matches
import Mathlib

namespace Devnet

section

variable {α : Type} {R : String → α → α → Prop}

def Shuffled (array : List α → α) (value other : α) : Prop :=
  ∃ items items', value = array items ∧ other = array items' ∧ items'.Perm items

/-- What may stand under a name: the same value, or a shuffled one if the name is one of `lists`. -/
def Loose (array : List α → α) (lists : List String) (name : String) (value other : α) : Prop :=
  other = value ∨ name ∈ lists ∧ Shuffled array value other

theorem Loose.symm {array : List α → α} {lists : List String} {name : String} {value other : α}
    (loose : Loose array lists name value other) : Loose array lists name other value := by
  rcases loose with same | ⟨listed, items, items', written, written', perm⟩
  · exact Or.inl same.symm
  · exact Or.inr ⟨listed, items', items, written', written, perm.symm⟩

inductive Aligned (R : String → α → α → Prop) : List String → List α → List α → Prop
  | short (names : List String) : Aligned R names [] []
  | rest (items : List α) : Aligned R [] items items
  | cons {name : String} {names : List String} {item other : α} {items others : List α}
      (first : R name item other) (later : Aligned R names items others) :
      Aligned R (name :: names) (item :: items) (other :: others)

theorem Aligned.symm (turn : ∀ name value other, R name value other → R name other value)
    {names : List String} {items others : List α} (aligned : Aligned R names items others) :
    Aligned R names others items := by
  induction aligned with
  | short names => exact .short names
  | rest items => exact .rest items
  | cons first _ ih => exact .cons (turn _ _ _ first) ih

end

namespace Json

/-- A record with some shuffled fields. It stands as an object, or as an array with its fields in the
order of `names`. -/
inductive Rearranged (names lists : List String) : Json → Json → Prop
  | same (value : Json) : Rearranged names lists value value
  | object {members others : Table String Json} (each : Table.Keyed (Loose array lists) members others) :
      Rearranged names lists (.object members) (.object others)
  | array {items others : List Json} (each : Aligned (Loose array lists) names items others) :
      Rearranged names lists (.array items) (.array others)

variable {names lists : List String} {value other : Json}

theorem Rearranged.symm (rearranged : Rearranged names lists value other) :
    Rearranged names lists other value := by
  cases rearranged with
  | same => exact .same value
  | object each => exact .object (each.symm fun _ _ _ loose => loose.symm)
  | array each => exact .array (each.symm fun _ _ _ loose => loose.symm)

theorem loose_normal {name : String} (loose : Loose array lists name value other) :
    Loose array lists name value.normal other.normal := by
  rcases loose with rfl | ⟨listed, items, items', rfl, rfl, perm⟩
  · exact Or.inl rfl
  · exact Or.inr ⟨listed, items.map normal, items'.map normal, normal_array items,
      normal_array items', perm.map normal⟩

theorem aligned_normal {items others : List Json}
    (aligned : Aligned (Loose array lists) names items others) :
    Aligned (Loose array lists) names (items.map normal) (others.map normal) := by
  induction aligned with
  | short names => exact .short names
  | rest items => exact .rest (items.map normal)
  | cons first _ ih => exact .cons (loose_normal first) ih

theorem Rearranged.normal (rearranged : Rearranged names lists value other) :
    Rearranged names lists value.normal other.normal := by
  cases rearranged with
  | same => exact .same value.normal
  | object each =>
      rw [normal_object, normal_object]
      apply Rearranged.object
      apply Table.Keyed.ofEntries
      unfold Table.Keyed
      rw [List.forall₂_map_left_iff, List.forall₂_map_right_iff]
      exact each.imp fun _ _ both => ⟨both.1, loose_normal both.2⟩
  | array each =>
      rw [normal_array, normal_array]
      exact .array (aligned_normal each)

end Json

namespace RawJson

inductive Rearranged (R : String → RawJson → RawJson → Prop) (names : List String) :
    RawJson → RawJson → Prop
  | same (raw : RawJson) : Rearranged R names raw raw
  | object {members others : List (String × RawJson)} (each : Table.Keyed R members others) :
      Rearranged R names (.object (members.map fun member => (some member.1, member.2)))
        (.object (others.map fun member => (some member.1, member.2)))
  | array {items others : List RawJson} (each : Aligned R names items others) :
      Rearranged R names (.array items) (.array others)

theorem wellFormedItems_eq (items : List RawJson) :
    wellFormedItems items = items.all isWellFormed := by
  induction items with
  | nil => rfl
  | cons item items ih => rw [wellFormedItems, ih, List.all_cons]

theorem isWellFormed_loose {lists : List String} {name : String} {raw other : RawJson}
    (loose : Loose array lists name raw other) (formed : raw.isWellFormed = true) :
    other.isWellFormed = true := by
  rcases loose with rfl | ⟨-, items, items', rfl, rfl, perm⟩
  · exact formed
  · rw [isWellFormed, wellFormedItems_eq, List.all_eq_true] at formed ⊢
    exact fun item member => formed item (perm.mem_iff.mp member)

theorem exists_readable {room : Nat} {value : Json} (within : value.Within Proper room) :
    ∃ raw, Readable value raw :=
  ⟨reading value, readable_reading within⟩

/-- Two values that can be read, as two documents that are related. -/
def BothReadable (R : RawJson → RawJson → Prop) (value other : Json) : Prop :=
  ∃ raw raw', Readable value raw ∧ Readable other raw' ∧ R raw raw'

variable {lists : List String} {room : Nat}

theorem bothReadable_loose {name : String} {value other : Json}
    (loose : Loose Json.array lists name value other) (within : value.Within Proper room) :
    BothReadable (Loose array lists name) value other := by
  rcases loose with rfl | ⟨listed, items, items', rfl, rfl, perm⟩
  · obtain ⟨raw, readable⟩ := exists_readable within
    exact ⟨raw, raw, readable, readable, Or.inl rfl⟩
  · cases within with
    | array each =>
        obtain ⟨raws, readable⟩ := exists_forall₂ fun item member => exists_readable (each item member)
        obtain ⟨raws', readable', perm'⟩ := List.perm_comp_forall₂ perm readable
        exact ⟨.array raws, .array raws', readable_array readable, readable_array readable',
          Or.inr ⟨listed, raws, raws', rfl, rfl, perm'⟩⟩

theorem bothReadable_object {members others : Table String Json}
    (each : Table.Keyed (Loose Json.array lists) members others)
    (within : ∀ member ∈ members, member.2.Within Proper room) :
    ∃ raws raws' : List (String × RawJson),
      Table.Matches Readable members raws ∧ Table.Matches Readable others raws' ∧
        Table.Keyed (Loose array lists) raws raws' := by
  induction each with
  | nil => exact ⟨[], [], .nil, .nil, .nil⟩
  | @cons member other members others first _ ih =>
      obtain ⟨name, value⟩ := member
      obtain ⟨name', value'⟩ := other
      obtain ⟨rfl, loose⟩ := first
      obtain ⟨here, later⟩ := List.forall_mem_cons.mp within
      obtain ⟨raw, raw', readable, readable', related⟩ := bothReadable_loose loose here
      obtain ⟨raws, raws', rest, rest', each⟩ := ih later
      exact ⟨(name', raw) :: raws, (name', raw') :: raws', .cons ⟨rfl, readable⟩ rest,
        .cons ⟨rfl, readable'⟩ rest', .cons ⟨rfl, related⟩ each⟩

theorem bothReadable_array {names : List String} {items others : List Json}
    (aligned : Aligned (Loose Json.array lists) names items others)
    (within : ∀ item ∈ items, item.Within Proper room) :
    ∃ raws raws', List.Forall₂ Readable items raws ∧ List.Forall₂ Readable others raws' ∧
      Aligned (Loose array lists) names raws raws' := by
  induction aligned with
  | short names => exact ⟨[], [], .nil, .nil, .short names⟩
  | rest items =>
      obtain ⟨raws, readable⟩ := exists_forall₂ fun item member => exists_readable (within item member)
      exact ⟨raws, raws, readable, readable, .rest raws⟩
  | cons first _ ih =>
      obtain ⟨here, later⟩ := List.forall_mem_cons.mp within
      obtain ⟨raw, raw', readable, readable', related⟩ := bothReadable_loose first here
      obtain ⟨raws, raws', rest, rest', aligned⟩ := ih later
      exact ⟨raw :: raws, raw' :: raws', .cons readable rest, .cons readable' rest',
        .cons related aligned⟩

theorem readable_members {members : Table String Json} {raws : List (String × RawJson)}
    (each : Table.Matches Readable members raws) :
    Readable (.object members) (.object (raws.map fun member => (some member.1, member.2))) := by
  apply readable_object
  rw [List.forall₂_map_right_iff]
  exact each.imp fun _ _ both => ⟨congrArg some both.1, both.2⟩

theorem bothReadable_rearranged {names : List String} {value other : Json}
    (rearranged : Json.Rearranged names lists value other) (within : value.Within Proper room) :
    BothReadable (Rearranged (Loose array lists) names) value other := by
  cases rearranged with
  | same =>
      obtain ⟨raw, readable⟩ := exists_readable within
      exact ⟨raw, raw, readable, readable, .same raw⟩
  | object each =>
      cases within with
      | object inner =>
          obtain ⟨raws, raws', readable, readable', related⟩ := bothReadable_object each inner
          exact ⟨_, _, readable_members readable, readable_members readable', .object related⟩
  | array each =>
      cases within with
      | array inner =>
          obtain ⟨raws, raws', readable, readable', related⟩ := bothReadable_array each inner
          exact ⟨_, _, readable_array readable, readable_array readable', .array related⟩

end RawJson
end Devnet
