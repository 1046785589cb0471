import Devnet.Proofs.Json.Normal
import Devnet.Proofs.Json.Strings
import Devnet.Proofs.Text.Utf8
import Mathlib

/-! What is read back of a value that was written. What is proved of a value says how much fuel its
reader needs and what may follow, so that it carries over to the arrays and objects that hold it. -/

namespace Devnet.RawJson

open Json

/-- A value starts with a mark of its own, and is read back in some way with enough fuel, up to
whatever ends it. -/
structure Readable (value : Json) (raw : RawJson) : Prop where
  visible : ∃ c tail, value.chars = c :: tail ∧ isSpace (some c) = false ∧ c ≠ ']'
  reads : ∀ (fuel : Nat) (rest : List Symbol), Ends rest → 2 * value.chars.length ≤ fuel →
    readValue fuel (value.chars.map some ++ rest) = (raw, some rest)

theorem exists_fuel {needed fuel : Nat} (enough : needed ≤ fuel) (some : 0 < needed) :
    ∃ left, fuel = left + 1 :=
  Nat.exists_eq_add_one_of_ne_zero (by omega)

theorem readable_null : Readable .null .null where
  visible := ⟨'n', _, rfl, rfl, by decide⟩
  reads fuel rest _ enough := by
    obtain ⟨left, rfl⟩ := exists_fuel enough (by decide)
    rfl

theorem readable_bool (value : Bool) : Readable (.bool value) (.bool value) where
  visible := by
    cases value
    · exact ⟨'f', _, rfl, rfl, by decide⟩
    · exact ⟨'t', _, rfl, rfl, by decide⟩
  reads fuel rest _ enough := by
    cases value
    · obtain ⟨left, rfl⟩ := exists_fuel enough (by decide)
      rfl
    · obtain ⟨left, rfl⟩ := exists_fuel enough (by decide)
      rfl

theorem readable_string (text : String) : Readable (.string text) (.string (some text)) where
  visible := ⟨'\x22', _, rfl, rfl, by decide⟩
  reads fuel rest _ enough := by
    obtain ⟨left, rfl⟩ := exists_fuel enough (by simp [chars, stringChars])
    have written : (Json.string text).chars.map some ++ rest =
        some '\x22' :: ((text.toList.flatMap escape ++ ['\x22']).map some ++ rest) := by
      rw [chars, stringChars, List.cons_append, List.map_cons, List.cons_append]
    rw [written, readValue, skipSpace_cons rfl]
    simp only
    rw [readString_stringChars]

theorem readable_numeral {n : JsonNumber} {numeral : Numeral} (formed : numeral.Formed)
    (written : numberChars n = numeral.text) : Readable (.number n) (.number numeral.value) := by
  have same : (Json.number n).chars = numeral.text := written
  have start : ∃ c tail, numeral.chars = c :: tail ∧ c.isDigit = true := by
    cases shape : numeral.whole with
    | nil => exact absurd shape formed.nonempty
    | cons c tail =>
        refine ⟨c, _, by rw [Numeral.chars, shape, List.cons_append, List.cons_append], ?_⟩
        exact formed.whole c (by rw [shape]; exact List.mem_cons_self)
  obtain ⟨c, tail, shape, digit⟩ := start
  have reads {rest : List Symbol} (ends : Ends rest) := readNumeral_chars formed ends
  rw [Numeral.text] at same
  split at same
  · rename_i negative
    refine ⟨⟨'-', _, same, rfl, by decide⟩, fun fuel rest ends enough => ?_⟩
    rw [same] at enough ⊢
    obtain ⟨left, rfl⟩ := exists_fuel enough (by simp)
    have read := reads ends
    rw [negative] at read
    rw [List.map_cons, List.cons_append, readValue, skipSpace_cons rfl]
    simp only
    rw [read]
  · rename_i positive
    have visible := isSpace_of_isDigit digit
    refine ⟨⟨c, tail, same.trans shape, visible, Digits.ne_of_isDigit digit (by decide)⟩,
      fun fuel rest ends enough => ?_⟩
    have read := reads ends
    rw [Bool.not_eq_true] at positive
    rw [positive, shape] at read
    rw [same, shape] at enough ⊢
    obtain ⟨left, rfl⟩ := exists_fuel enough (by simp)
    rw [List.map_cons, List.cons_append] at read ⊢
    rw [readValue_digit left digit, read]

theorem readable_integer {n : Int} (inWords : InWords n) :
    Readable (.number (.integer n)) (.number (some (.integer n))) := by
  rw [← Numeral.value_ofInt inWords]
  exact readable_numeral (Numeral.formed_ofInt n) (Numeral.text_ofInt n).symm

theorem ends_moreItemChars (items : List Json) (rest : List Symbol) :
    Ends ((moreItemChars items).map some ++ rest) := by
  cases items with
  | nil => exact ends_cons (by simp) rest
  | cons item items =>
      rw [moreItemChars]
      exact ends_cons (by simp) _

theorem ends_moreMemberChars (members : List (String × Json)) (rest : List Symbol) :
    Ends ((moreMemberChars members).map some ++ rest) := by
  cases members with
  | nil => exact ends_cons (by simp) rest
  | cons member members =>
      obtain ⟨key, value⟩ := member
      rw [moreMemberChars]
      exact ends_cons (by simp) _

theorem readItems_moreItemChars {items : List Json} {raws : List RawJson}
    (each : List.Forall₂ Readable items raws) {item : Json} {raw : RawJson}
    (first : Readable item raw) (fuel : Nat) (rest : List Symbol)
    (enough : 2 * (item.chars ++ moreItemChars items).length ≤ fuel) :
    readItems fuel ((item.chars ++ moreItemChars items).map some ++ rest) =
      (raw :: raws, some rest) := by
  induction each generalizing item raw fuel with
  | nil =>
      obtain ⟨left, rfl⟩ := exists_fuel enough (by simp [moreItemChars])
      rw [moreItemChars, List.length_append, List.length_singleton] at enough
      rw [List.map_append, List.append_assoc, readItems,
        first.reads left _ (ends_moreItemChars [] rest) (by omega)]
      rfl
  | @cons next nextRaw items raws second others ih =>
      obtain ⟨left, rfl⟩ := exists_fuel enough (by simp [moreItemChars])
      rw [List.length_append, moreItemChars, List.cons_append, List.length_cons] at enough
      have later := ih second left (by omega)
      rw [List.map_append, List.append_assoc, readItems,
        first.reads left _ (ends_moreItemChars (next :: items) rest) (by omega), moreItemChars,
        List.cons_append, List.map_cons, List.cons_append]
      simp only [skipSpace_cons (show isSpace (some ',') = false from rfl), later]

theorem readable_array {items : List Json} {raws : List RawJson}
    (each : List.Forall₂ Readable items raws) : Readable (.array items) (.array raws) where
  visible := ⟨'[', _, by rw [chars], rfl, by decide⟩
  reads fuel rest _ enough := by
    rw [chars] at enough ⊢
    obtain ⟨left, rfl⟩ := exists_fuel enough (by simp)
    rw [List.map_cons, List.cons_append, readValue, skipSpace_cons rfl]
    cases each with
    | nil => rfl
    | @cons item raw items raws first others =>
        rw [itemChars, List.length_cons] at enough
        have read := readItems_moreItemChars others first left rest (by omega)
        obtain ⟨c, tail, shape, visible, notClosing⟩ := first.visible
        rw [itemChars]
        simp only
        rw [shape, List.cons_append, List.map_cons, List.cons_append] at read ⊢
        rw [skipSpace_cons visible]
        split
        · rename_i same
          cases same
          exact absurd rfl notClosing
        · rw [read]

def ReadableMember (member : String × Json) (raw : Option String × RawJson) : Prop :=
  raw.1 = some member.1 ∧ Readable member.2 raw.2

theorem readMembers_member {value : Json} {raw : RawJson} (readable : Readable value raw)
    (key : String) (fuel : Nat) {tail : List Symbol} (ends : Ends tail)
    (enough : 2 * value.chars.length ≤ fuel) :
    readMembers (fuel + 1) ((stringChars key ++ ':' :: value.chars).map some ++ tail) =
      match skipSpace tail with
      | some ',' :: rest =>
        let (members, after) := readMembers fuel rest
        ((some key, raw) :: members, after)
      | some '\x7d' :: after => ([(some key, raw)], some after)
      | _ => ([(some key, raw), (none, .broken)], none) := by
  have written : (stringChars key ++ ':' :: value.chars).map some ++ tail =
      some '\x22' :: ((key.toList.flatMap escape ++ ['\x22']).map some ++
        (some ':' :: (value.chars.map some ++ tail))) := by
    simp only [stringChars, List.map_append, List.map_cons, List.cons_append, List.append_assoc,
      List.map_nil, List.nil_append]
  rw [written, readMembers, skipSpace_cons rfl]
  simp only
  rw [readString_stringChars]
  simp only
  rw [skipSpace_cons (show isSpace (some ':') = false from rfl)]
  simp only
  rewrite [readable.reads fuel tail ends enough]
  rfl

theorem readMembers_moreMemberChars {members : List (String × Json)}
    {raws : List (Option String × RawJson)} (each : List.Forall₂ ReadableMember members raws)
    (key : String) {value : Json} {raw : RawJson} (first : Readable value raw) (fuel : Nat)
    (rest : List Symbol)
    (enough : 2 * (stringChars key ++ ':' :: value.chars ++ moreMemberChars members).length ≤ fuel) :
    readMembers fuel
        ((stringChars key ++ ':' :: value.chars ++ moreMemberChars members).map some ++ rest) =
      ((some key, raw) :: raws, some rest) := by
  induction each generalizing key value raw fuel with
  | nil =>
      obtain ⟨left, rfl⟩ := exists_fuel enough (by simp [moreMemberChars])
      rw [moreMemberChars, List.length_append, List.length_append, List.length_cons,
        List.length_singleton] at enough
      rw [List.map_append, List.append_assoc, readMembers_member first key left
        (ends_moreMemberChars [] rest) (by omega)]
      rfl
  | @cons next nextRaw members raws second others ih =>
      obtain ⟨nextKey, nextValue⟩ := next
      obtain ⟨nextName, nextRaw⟩ := nextRaw
      obtain ⟨rfl, second⟩ := second
      obtain ⟨left, rfl⟩ := exists_fuel enough (by simp [moreMemberChars])
      have later := ih nextKey second left (by
        simp only [moreMemberChars, List.length_append, List.length_cons, List.cons_append]
          at enough ⊢
        omega)
      have fits : 2 * value.chars.length ≤ left := by
        simp only [List.length_append, List.length_cons] at enough
        omega
      rw [List.map_append, List.append_assoc, readMembers_member first key left
        (ends_moreMemberChars ((nextKey, nextValue) :: members) rest) fits]
      have written : (moreMemberChars ((nextKey, nextValue) :: members)).map some ++ rest =
          some ',' :: ((stringChars nextKey ++ ':' :: nextValue.chars ++
            moreMemberChars members).map some ++ rest) := by
        rw [moreMemberChars]
        rfl
      rw [written, skipSpace_cons (show isSpace (some ',') = false from rfl)]
      simp only [later]

theorem readable_object {members : List (String × Json)} {raws : List (Option String × RawJson)}
    (each : List.Forall₂ ReadableMember members raws) : Readable (.object members) (.object raws) where
  visible := ⟨'\x7b', _, by rw [chars], rfl, by decide⟩
  reads fuel rest _ enough := by
    rw [chars] at enough ⊢
    obtain ⟨left, rfl⟩ := exists_fuel enough (by simp)
    rw [List.map_cons, List.cons_append, readValue, skipSpace_cons rfl]
    cases each with
    | nil => rfl
    | @cons member raw members raws first others =>
        obtain ⟨key, value⟩ := member
        obtain ⟨name, raw⟩ := raw
        obtain ⟨rfl, reads⟩ := first
        have first : Readable value raw := reads
        rw [memberChars, List.length_cons] at enough
        have read := readMembers_moreMemberChars others key first left rest (by omega)
        have shape : ∃ tail, stringChars key ++ ':' :: value.chars ++ moreMemberChars members =
            '\x22' :: tail := ⟨_, rfl⟩
        obtain ⟨tail, shape⟩ := shape
        rw [memberChars]
        rw [shape, List.map_cons, List.cons_append] at read ⊢
        simp only
        rw [skipSpace_cons rfl]
        change (match readMembers left (some '\x22' :: (tail.map some ++ rest)) with
          | (members, after) => (RawJson.object members, after)) = _
        rw [read]

theorem Readable.ofBytes_encode {value : Json} {raw : RawJson} (readable : Readable value raw) :
    Document.ofBytes (Utf8.encode value.chars) = ⟨raw, true⟩ := by
  have read := readable.reads (2 * (value.chars.map some).length + 2) [] ends_nil
    (by rw [List.length_map]; omega)
  rw [List.append_nil] at read
  unfold Document.ofBytes Document.ofSymbols
  rw [Utf8.decode_encode, read]
  rfl

end Devnet.RawJson
