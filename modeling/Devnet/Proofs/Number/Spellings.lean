import Devnet.Proofs.Json.Exact
import Devnet.Proofs.Json.Reading
import Devnet.Proofs.Number.Literals
import Devnet.Proofs.Text.Ascii
import Mathlib

/-! Whole numbers as they are written: which texts are read, as which numbers, and which of all
spellings of a number is the one that is written. Zeros in front and a sign on zero are read, but they
only make a text longer. -/

namespace Devnet

namespace Digits

def digitValue (c : Char) : Nat := c.toNat - '0'.toNat

/-- Each digit counts by its place, the last one as it is. -/
def placeValue (digits : List Char) : Nat := Nat.ofDigits 10 (digits.map digitValue).reverse

theorem placeValue_cons (c : Char) (rest : List Char) :
    placeValue (c :: rest) = placeValue rest + 10 ^ rest.length * digitValue c := by
  rw [placeValue, List.map_cons, List.reverse_cons, Nat.ofDigits_append, Nat.ofDigits_singleton,
    List.length_reverse, List.length_map]
  rfl

theorem ofDigitChars_eq (digits : List Char) (start : Nat) :
    Nat.ofDigitChars 10 digits start = placeValue digits + 10 ^ digits.length * start := by
  induction digits generalizing start with
  | nil => simp [placeValue]
  | cons c rest ih =>
      calc
        Nat.ofDigitChars 10 (c :: rest) start
            = placeValue rest + 10 ^ rest.length * (start * 10 + digitValue c) := by
              rw [ofDigitChars_cons, ih, digitValue]
        _ = placeValue (c :: rest) + 10 ^ (c :: rest).length * start := by
              rw [placeValue_cons, List.length_cons]
              ring

theorem readDigits_eq (digits : List Char) : Integer.readDigits digits = placeValue digits := by
  rw [Integer.readDigits, ofDigitChars_eq, Nat.mul_zero, Nat.add_zero]

theorem placeValue_toDigits (n : Nat) : placeValue (Nat.toDigits 10 n) = n := by
  rw [← readDigits_eq, Integer.readDigits_toDigits]

theorem digitChar_digitValue {c : Char} (digit : c.isDigit = true) :
    digitValue c < 10 ∧ Nat.digitChar (digitValue c) = c := by
  have range := digit
  rw [Char.isDigit, Bool.and_eq_true, decide_eq_true_eq, decide_eq_true_eq] at range
  have ascii : c.toNat < 0x80 := Nat.lt_of_le_of_lt range.2 (by decide)
  revert digit
  exact forall_ascii ascii (by decide +kernel)

theorem eq_of_placeValue_eq {digits others : List Char} (all : ∀ c ∈ digits, c.isDigit = true)
    (allOthers : ∀ c ∈ others, c.isDigit = true) (length : digits.length = others.length)
    (same : placeValue digits = placeValue others) : digits = others := by
  have small {text : List Char} (all : ∀ c ∈ text, c.isDigit = true) :
      ∀ d ∈ (text.map digitValue).reverse, d < 10 := by
    intro d member
    obtain ⟨c, inside, rfl⟩ := List.mem_map.mp (List.mem_reverse.mp member)
    exact (digitChar_digitValue (all c inside)).1
  have back {text : List Char} (all : ∀ c ∈ text, c.isDigit = true) :
      (text.map digitValue).map Nat.digitChar = text := by
    rw [List.map_map]
    exact (List.map_congr_left fun c inside => (digitChar_digitValue (all c inside)).2).trans
      (List.map_id text)
  have values : digits.map digitValue = others.map digitValue := by
    apply List.reverse_injective
    apply Nat.ofDigits_inj_of_len_eq (by decide) _ (small all) (small allOthers) same
    rw [List.length_reverse, List.length_reverse, List.length_map, List.length_map, length]
  rw [← back all, values, back allOthers]

theorem length_toDigits_placeValue_le {digits : List Char} (nonempty : digits ≠ [])
    (all : ∀ c ∈ digits, c.isDigit = true) :
    (Nat.toDigits 10 (placeValue digits)).length ≤ digits.length := by
  have bounded := ofDigitChars_lt all 0
  rw [ofDigitChars_eq, Nat.mul_zero, Nat.add_zero, Nat.zero_add, Nat.one_mul] at bounded
  exact (Nat.length_toDigits_le_iff (by decide) (List.length_pos_of_ne_nil nonempty)).mpr bounded

end Digits

theorem Codec.ofBytes_text {α : Type} {render : α → String} {parse : String → Except ValueFault α}
    (value : α) : (text render parse).ofBytes ((text render parse).toBytes value) =
      (parse (render value)).mapError .refused := by
  change (text render parse).ofDocument
    (.ofBytes (Utf8.encode (Json.string (render value)).chars)) = _
  rw [(RawJson.readable_string (render value)).ofBytes_encode]
  change (parse (render value)).mapError DecodeFault.refused >>= pure = _
  cases parse (render value) <;> rfl

namespace Integer

structure Spelling where
  negative : Bool
  digits : List Char

namespace Spelling

def chars (s : Spelling) : List Char := if s.negative then '-' :: s.digits else s.digits

structure Spells (s : Spelling) (text : String) : Prop where
  nonempty : s.digits ≠ []
  digits : ∀ c ∈ s.digits, c.isDigit = true
  chars : text.toList = s.chars

def magnitude (s : Spelling) : Nat := Digits.placeValue s.digits

def value (s : Spelling) : Int := if s.negative then -(s.magnitude : Int) else s.magnitude

variable {s : Spelling} {text : String}

theorem natAbs_value (s : Spelling) : s.value.natAbs = s.magnitude :=
  natAbs_signed s.negative s.magnitude

theorem Spells.length_eq (spells : s.Spells text) :
    text.length = s.digits.length + if s.negative then 1 else 0 := by
  rw [← String.length_toList, spells.chars, Spelling.chars]
  cases s.negative <;> rfl

theorem Spells.splitSign_eq (spells : s.Spells text) :
    splitSign text.toList = (s.negative, s.digits) := by
  rw [spells.chars, Spelling.chars]
  cases s.negative with
  | true => rfl
  | false => exact splitSign_of_isDigit spells.digits

theorem Spells.parse_eq (spells : s.Spells text) : parse text =
    if s.magnitude < 2 ^ 256 then .ok s.value else .error (.integerOutOfRange text) := by
  have digits := isDigits_of_all (List.length_pos_of_ne_nil spells.nonempty) spells.digits
  unfold parse
  rw [spells.splitSign_eq]
  simp only [digits, Digits.readDigits_eq, limit_eq, Bool.not_true, Bool.false_eq_true, if_false]
  rfl

theorem Spells.parse_eq_ok {n : Int} (spells : s.Spells text) :
    parse text = .ok n ↔ s.magnitude < 2 ^ 256 ∧ s.value = n := by
  rw [spells.parse_eq]
  by_cases small : s.magnitude < 2 ^ 256
  · rw [if_pos small, Except.ok.injEq, and_iff_right small]
  · rw [if_neg small]
    exact iff_of_false (fun read => by cases read) fun given => small given.1

def shortest (n : Int) : Spelling := ⟨decide (n < 0), Nat.toDigits 10 n.natAbs⟩

theorem spells_render (n : Int) : (shortest n).Spells (render n) where
  nonempty := Nat.toDigits_ne_nil
  digits := Digits.all_isDigit n.natAbs
  chars := by
    rw [render, Digits.toList_toString, Spelling.chars, shortest]
    simp only [decide_eq_true_eq]

theorem magnitude_shortest (n : Int) : (shortest n).magnitude = n.natAbs :=
  Digits.placeValue_toDigits n.natAbs

theorem value_shortest (n : Int) : (shortest n).value = n := by
  change signed (decide (n < 0)) (shortest n).magnitude = n
  rw [magnitude_shortest, signed_natAbs]

theorem eq_zero_of_head {n : Int} (leading : (shortest n).digits.head? = some '0') :
    (shortest n).digits = ['0'] := by
  have zero : n.natAbs = 0 := Digits.head_zero leading
  change Nat.toDigits 10 n.natAbs = ['0']
  rw [zero]
  rfl

theorem length_digits_le {n : Int} (spells : s.Spells text) (same : s.value = n) :
    (shortest n).digits.length ≤ s.digits.length := by
  have few := Digits.length_toDigits_placeValue_le spells.nonempty spells.digits
  change (Nat.toDigits 10 s.magnitude).length ≤ s.digits.length at few
  rwa [← natAbs_value, same] at few

theorem digits_eq {n : Int} (spells : s.Spells text) (same : s.value = n)
    (length : s.digits.length = (shortest n).digits.length) : s.digits = (shortest n).digits := by
  apply Digits.eq_of_placeValue_eq spells.digits (spells_render n).digits length
  change s.magnitude = (shortest n).magnitude
  rw [magnitude_shortest, ← natAbs_value, same]

/-- Every other spelling of a number has more characters. -/
theorem Spells.length_lt {n : Int} (spells : s.Spells text) (same : s.value = n)
    (other : text ≠ render n) : (render n).length < text.length := by
  have written := spells_render n
  have few := length_digits_le spells same
  rw [spells.length_eq, written.length_eq]
  by_cases sign : s.negative = (shortest n).negative
  · have more : s.digits.length ≠ (shortest n).digits.length := by
      intro length
      apply other
      rw [← String.toList_inj, spells.chars, written.chars, Spelling.chars, Spelling.chars, sign,
        digits_eq spells same length]
    rw [sign]
    omega
  · -- only zero has a spelling with another sign
    have signs : s.negative = true ∧ (shortest n).negative = false := by
      cases negative : s.negative with
      | true =>
          exact ⟨rfl, Bool.eq_false_of_not_eq_true fun both => sign (negative.trans both.symm)⟩
      | false =>
          have positive : ¬n < 0 := by
            rw [← same, Spelling.value, negative, if_neg Bool.false_ne_true]
            exact Int.not_lt.mpr (Int.natCast_nonneg _)
          exact absurd (negative.trans (decide_eq_false positive).symm) sign
    rw [signs.1, signs.2, if_pos rfl, if_neg Bool.false_ne_true]
    omega

end Spelling

theorem exists_spelling_of_parse {text : String} {n : Int} (read : parse text = .ok n) :
    ∃ s : Spelling, s.Spells text := by
  unfold parse at read
  cases split : splitSign text.toList with
  | mk negative digits =>
      rw [split] at read
      simp only at read
      split at read
      · cases read
      · rename_i digital
        rw [Bool.not_eq_true', Bool.not_eq_false, isDigits, Bool.and_eq_true,
          Bool.not_eq_true', List.isEmpty_eq_false_iff, List.all_eq_true] at digital
        exact ⟨⟨negative, digits⟩, digital.1, digital.2, Decimal.eq_of_splitSign split⟩

theorem natAbs_lt_limit_iff (n : Int) : n.natAbs < limit ↔ |n| < 2 ^ 256 := by
  rw [limit_eq, Int.abs_eq_natAbs]
  exact_mod_cast Iff.rfl

theorem parse_render_eq (n : Int) : parse (render n) =
    if |n| < 2 ^ 256 then .ok n else .error (.integerOutOfRange (render n)) := by
  simp only [parse_render, natAbs_lt_limit_iff]

/-- Exactly the texts that spell a number of at most 256 bits are read, as that number. What is written
for a number is read as it, as a text and from its document, or is refused where the number has more
bits; it has a sign only below zero, no zeros in front, and fewer characters than any other text that is
read as the number. -/
theorem reads_spellings :
    (∀ text n, parse text = .ok n ↔
      ∃ s : Spelling, s.Spells text ∧ s.magnitude < 2 ^ 256 ∧ s.value = n) ∧
    (∀ n, parse (render n) =
      if |n| < 2 ^ 256 then .ok n else .error (.integerOutOfRange (render n))) ∧
    (∀ n, Codec.integer.ofBytes (Codec.integer.toBytes n) =
      if |n| < 2 ^ 256 then .ok n
      else .error (.refused (.number (.integerOutOfRange (render n))))) ∧
    (∀ n, ∃ s : Spelling, s.Spells (render n) ∧ s.value = n ∧ (s.negative = true ↔ n < 0) ∧
      (s.digits.head? = some '0' → s.digits = ['0'])) ∧
    ∀ text n, parse text = .ok n → text ≠ render n → (render n).length < text.length := by
  refine ⟨fun text n => ⟨fun read => ?_, ?_⟩, parse_render_eq, fun n => ?_, fun n => ?_,
    fun text n read other => ?_⟩
  · obtain ⟨s, spells⟩ := exists_spelling_of_parse read
    exact ⟨s, spells, spells.parse_eq_ok.mp read⟩
  · rintro ⟨s, spells, given⟩
    exact spells.parse_eq_ok.mpr given
  · rw [Codec.integer, Codec.ofBytes_text, parse_render_eq]
    split <;> rfl
  · exact ⟨.shortest n, Spelling.spells_render n, Spelling.value_shortest n, decide_eq_true_iff,
      Spelling.eq_zero_of_head⟩
  · obtain ⟨s, spells⟩ := exists_spelling_of_parse read
    exact spells.length_lt (spells.parse_eq_ok.mp read).2 other

theorem reads_spellings_minusZero :
    parse "-00" = .ok 0 ∧ "-00" ≠ render 0 ∧ (render 0).length < "-00".length ∧
      parse (render (2 ^ 256)) = .error (.integerOutOfRange (render (2 ^ 256))) := by
  have read : parse "-00" = .ok 0 := by decide
  have other : "-00" ≠ render 0 := by decide
  have wide : ¬|(2 : Int) ^ 256| < 2 ^ 256 := by decide
  obtain ⟨-, written, -, -, shorter⟩ := reads_spellings
  exact ⟨read, other, shorter "-00" 0 read other, (written _).trans (if_neg wide)⟩

end Integer
end Devnet
