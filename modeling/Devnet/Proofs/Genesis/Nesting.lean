import Devnet.Proofs.Genesis.NormalForm
import Devnet.Proofs.Genesis.Passage
import Mathlib

/-! The application state nests one level deeper than the documents in it. Documents that leave this
level come back as the sorted encodings of their values; a single one that does not makes the whole
state unreadable. -/

namespace Devnet.Genesis

variable {g again : Genesis} {bytes : Bytes}

def Respelled (g again : Genesis) : Prop :=
  Table.Matches (fun document spelled => ∃ value, Codec.json.ofBytes document = .ok value ∧
    value.normal = value ∧ spelled = Codec.json.toBytes value ∧
    Codec.json.ofBytes spelled = .ok value) g.documents again.documents

structure Holds (document : Bytes) (value : Json) : Prop where
  read : Codec.json.ofBytes document = .ok value
  tidy : value.Tidy Codec.maxDepth
  fixed : value.normal = value

theorem holds_of_read {document : Bytes} {value : Json}
    (whole : (RawJson.Document.ofBytes document).body.Numbers JsonNumber.Whole)
    (read : Codec.json.ofBytes document = .ok value) : Holds document value := by
  obtain ⟨tidy, fixed⟩ := RawJson.within_toJson whole (Codec.ofDocument_eq_ok.mp read).1
  exact ⟨read, tidy, fixed⟩

theorem Holds.wellFormed_iff {document : Bytes} {value : Json} (holds : Holds document value) :
    WellFormed document ↔ value.Within (fun _ => True) innerDepth := by
  constructor
  · rintro ⟨found, read, levels⟩
    obtain rfl := Except.ok.inj (holds.read.symm.trans read)
    exact levels
  · exact fun levels => ⟨value, holds.read, levels⟩

theorem exists_held (written : g.toAppStateBytes = .ok bytes)
    (whole : ∀ entry ∈ g.documents,
      (RawJson.Document.ofBytes entry.2).body.Numbers JsonNumber.Whole) :
    ∃ values, Table.Matches Holds g.documents values ∧
      bytes = Codec.json.toBytes (.object values) := by
  obtain ⟨values, taken, rfl⟩ := toAppStateBytes_eq_ok.mp written
  refine ⟨values, ((List.forall₂_and_left _ _).mpr ⟨whole, taken⟩).imp ?_, rfl⟩
  rintro entry named ⟨numbers, name, read⟩
  exact ⟨name, holds_of_read numbers read⟩

theorem exists_respelled {values : Table String Json} (held : Table.Matches Holds g.documents values)
    (ascending : g.documents.Ascending) (each : ∀ entry ∈ g.documents, WellFormed entry.2) :
    ∃ again, ofAppStateBytes (Codec.json.toBytes (.object values)) = .ok again ∧
      again.modules = g.modules ∧ g.Respelled again := by
  have inner : ∀ entry ∈ values, entry.2.Tidy innerDepth ∧ (entry.1, entry.2.normal) = entry := by
    intro entry member
    obtain ⟨source, inside, -, holds⟩ := exists_of_forall₂ held member
    have levels := holds.wellFormed_iff.mp (each source inside)
    exact ⟨holds.tidy.within levels, Prod.ext rfl holds.fixed⟩
  have read := ofAppStateBytes_toBytes (held.ascending ascending) fun entry member =>
    (inner entry member).1
  rw [List.map_congr_left fun entry member => (inner entry member).2, List.map_id'] at read
  have respelled : g.Respelled (ofValues values) := by
    refine List.forall₂_map_right_iff.mpr (held.imp ?_)
    rintro source entry ⟨name, holds⟩
    have again := Codec.json_ofBytes holds.tidy
    rw [holds.fixed] at again
    exact ⟨name, entry.2, holds.read, holds.fixed, rfl, again⟩
  exact ⟨ofValues values, read, respelled.keys, respelled⟩

/-- A value that needs all levels of a document for itself is not read inside of another one. -/
theorem refused_of_deep {values : Table String Json}
    (tidy : ∀ entry ∈ values, entry.2.Tidy Codec.maxDepth)
    (deep : ∃ entry ∈ values, ¬entry.2.Within (fun _ => True) innerDepth) :
    ofAppStateBytes (Codec.json.toBytes (.object values)) = .error .malformed := by
  have readable := RawJson.readable_of_tidy (.object tidy)
  rw [RawJson.ofJson_object] at readable
  unfold ofAppStateBytes
  rw [members_ofBytes_of_readable readable]
  cases inner : RawJson.toMembers innerDepth [] (values.map fun entry =>
      (some entry.1, RawJson.ofJson entry.2)) with
  | error fault =>
      obtain rfl := RawJson.eq_malformed_of_toMembers
        (fun _ _ _ refused => RawJson.eq_malformed_of_toJson refused) inner
      rfl
  | ok table =>
      have read : RawJson.toJson Codec.maxDepth (.ofJson (.object values)) = .ok (.object table) := by
        rw [RawJson.ofJson_object]
        exact congrArg (Except.map Json.object) inner
      cases RawJson.within_of_toJson_ofJson (.object tidy) read with
      | object levels =>
          obtain ⟨entry, member, deep⟩ := deep
          exact absurd (levels entry member) deep

/-- An application state is read again if and only if every document in it leaves a level for it. It then
gives the same modules, with the sorted encodings of the values that they had. -/
theorem ofAppStateBytes_toAppStateBytes (ascending : g.documents.Ascending)
    (written : g.toAppStateBytes = .ok bytes)
    (whole : ∀ entry ∈ g.documents,
      (RawJson.Document.ofBytes entry.2).body.Numbers JsonNumber.Whole) :
    ((∀ entry ∈ g.documents, WellFormed entry.2) →
      ∃ again, ofAppStateBytes bytes = .ok again ∧ again.modules = g.modules ∧ g.Respelled again) ∧
    ((∃ entry ∈ g.documents, ¬WellFormed entry.2) →
      ofAppStateBytes bytes = .error .malformed) := by
  obtain ⟨values, held, rfl⟩ := exists_held written whole
  refine ⟨exists_respelled held ascending, ?_⟩
  rintro ⟨source, inside, deep⟩
  apply refused_of_deep
  · intro entry member
    obtain ⟨source, -, -, holds⟩ := exists_of_forall₂ held member
    exact holds.tidy
  · obtain ⟨entry, member, -, holds⟩ := exists_of_forall₂ held.flip inside
    exact ⟨entry, member, fun levels => deep (holds.wellFormed_iff.mpr levels)⟩

def nested : Nat → Json
  | 0 => .null
  | levels + 1 => .array [nested levels]

theorem within_nested {good : JsonNumber → Prop} {levels room : Nat} :
    (nested levels).Within good room ↔ levels ≤ room := by
  induction levels generalizing room with
  | zero => exact iff_of_true (.null room) (Nat.zero_le room)
  | succ levels ih =>
      cases room with
      | zero => exact iff_of_false (fun within => by cases within) (Nat.not_succ_le_zero levels)
      | succ room =>
          rw [Nat.succ_le_succ_iff, ← ih]
          constructor
          · intro within
            cases within with
            | array each => exact each _ List.mem_cons_self
          · exact fun within => .array (List.forall_mem_singleton.mpr within)

theorem normal_nested (levels : Nat) : (nested levels).normal = nested levels := by
  induction levels with
  | zero => rfl
  | succ levels ih => rw [nested, Json.normal_array, List.map_singleton, ih]

theorem whole_encode {value : Json} {room : Nat} (tidy : value.Tidy room) :
    (RawJson.Document.ofBytes (Utf8.encode value.chars)).body.Numbers JsonNumber.Whole := by
  rw [RawJson.ofBytes_encode tidy]
  exact RawJson.numbers_ofJson tidy

def fullValues : Table String Json := [("a", nested 126), ("b", unsortedState)]

theorem tidy_fullValues : ∀ entry ∈ fullValues, entry.2.Tidy innerDepth := by
  rw [fullValues, List.forall_mem_cons, List.forall_mem_singleton]
  exact ⟨within_nested.mpr (Nat.le_refl 126), tidy_unsortedState.mono (by decide)⟩

theorem ofAppStateBytes_fullValues : ∃ bytes again, (ofValues fullValues).toAppStateBytes = .ok bytes ∧
    ofAppStateBytes bytes = .ok again ∧ again.modules = ["a", "b"] ∧
    (ofValues fullValues).Respelled again := by
  have written := toAppStateBytes_ofValues tidy_fullValues
  have whole : ∀ entry ∈ (ofValues fullValues).documents,
      (RawJson.Document.ofBytes entry.2).body.Numbers JsonNumber.Whole :=
    List.forall_mem_map.mpr fun entry member => whole_encode (tidy_fullValues entry member)
  have wellFormed : ∀ entry ∈ (ofValues fullValues).documents, WellFormed entry.2 := by
    refine List.forall_mem_map.mpr fun entry member => ?_
    have tidy := tidy_fullValues entry member
    have read := Codec.json_ofBytes (tidy.mono (by decide))
    have levels := RawJson.within_of_toJson_ofJson tidy (RawJson.toJson_ofJson tidy)
    exact ⟨_, read, levels.normal⟩
  have ascending : (ofValues fullValues).documents.Ascending := by
    refine List.pairwise_pair.mpr ?_
    decide
  obtain ⟨again, read, modules, respelled⟩ :=
    (ofAppStateBytes_toAppStateBytes ascending written whole).1 wellFormed
  exact ⟨_, again, written, read, modules, respelled⟩

def deepGenesis : Genesis := ofValues [("a", nested 127)]

theorem refused_deepGenesis : ∃ bytes, deepGenesis.toAppStateBytes = .ok bytes ∧
    (∀ entry ∈ deepGenesis.documents,
      (RawJson.Document.ofBytes entry.2).body.Numbers JsonNumber.Whole) ∧
    ofAppStateBytes bytes = .error .malformed := by
  have tidy : (nested 127).Tidy Codec.maxDepth := within_nested.mpr (Nat.le_refl 127)
  have deep : ¬(nested 127).Within (fun _ => True) innerDepth := by
    rw [within_nested]
    decide
  have read := Codec.json_ofBytes tidy
  rw [normal_nested] at read
  refine ⟨_, toAppStateBytes_eq_ok.mpr ⟨[("a", nested 127)], ?_, rfl⟩, ?_, ?_⟩
  · exact .cons ⟨rfl, read⟩ .nil
  · exact List.forall_mem_singleton.mpr (whole_encode tidy)
  · exact refused_of_deep (List.forall_mem_singleton.mpr tidy) ⟨_, List.mem_cons_self, deep⟩

end Devnet.Genesis
