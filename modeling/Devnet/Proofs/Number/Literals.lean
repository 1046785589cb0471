import Devnet.Proofs.Number.Texts
import Mathlib

/-! Decimals as they are written: which texts are read, as which numbers, and what is left of them
without the fraction. A number that is spelled is a ratio; it is held in units without a loss. -/

namespace Devnet.Decimal

def value (d : Decimal) : ℚ := d.units / 10 ^ 18

/-- A decimal as it is written. Without digits behind the point there is no point either. -/
structure Literal where
  negative : Bool
  whole : List Char
  fraction : List Char

namespace Literal

def pointed : List Char → List Char
  | [] => []
  | digits => '.' :: digits

def unsigned (l : Literal) : List Char := l.whole ++ pointed l.fraction

def chars (l : Literal) : List Char := if l.negative then '-' :: l.unsigned else l.unsigned

structure Formed (l : Literal) : Prop where
  nonempty : l.whole ≠ []
  whole : ∀ c ∈ l.whole, c.isDigit = true
  fraction : ∀ c ∈ l.fraction, c.isDigit = true
  places : l.fraction.length ≤ 18

structure Spells (l : Literal) (text : String) : Prop extends l.Formed where
  chars : text.toList = l.chars

def integerPart (l : Literal) : Int :=
  let n : Int := Nat.ofDigitChars 10 l.whole 0
  if l.negative then -n else n

def value (l : Literal) : ℚ :=
  let n : ℚ := Nat.ofDigitChars 10 l.whole 0 +
    Nat.ofDigitChars 10 l.fraction 0 / 10 ^ l.fraction.length
  if l.negative then -n else n

def unitDigits (l : Literal) : List Char := l.whole ++ padRight places l.fraction

def magnitude (l : Literal) : Nat := Integer.readDigits l.unitDigits

def units (l : Literal) : Int := Integer.signed l.negative l.magnitude

variable {l : Literal}

theorem natAbs_units (l : Literal) : l.units.natAbs = l.magnitude :=
  Integer.natAbs_signed l.negative l.magnitude

theorem magnitude_eq (formed : l.Formed) : l.magnitude = Nat.ofDigitChars 10 l.whole 0 * 10 ^ 18 +
    Nat.ofDigitChars 10 l.fraction 0 * 10 ^ (18 - l.fraction.length) := by
  have width : (padRight places l.fraction).length = 18 := by
    rw [padRight, List.length_append, List.length_replicate, places]
    have := formed.places
    omega
  rw [magnitude, Integer.readDigits, unitDigits, Nat.ofDigitChars_append,
    Nat.ofDigitChars_eq_ofDigitChars_zero, width, padRight, Nat.ofDigitChars_append,
    Nat.ofDigitChars_replicate_zero, places]
  ring

theorem fraction_lt (formed : l.Formed) :
    Nat.ofDigitChars 10 l.fraction 0 * 10 ^ (18 - l.fraction.length) < 10 ^ 18 := by
  have few := Digits.ofDigitChars_lt formed.fraction 0
  rw [Nat.zero_add, Nat.one_mul] at few
  calc
    Nat.ofDigitChars 10 l.fraction 0 * 10 ^ (18 - l.fraction.length)
        < 10 ^ l.fraction.length * 10 ^ (18 - l.fraction.length) :=
          Nat.mul_lt_mul_of_pos_right few (Nat.pow_pos (by decide))
    _ = 10 ^ 18 := by rw [← Nat.pow_add, Nat.add_sub_cancel' formed.places]

theorem value_units (formed : l.Formed) : Decimal.value ⟨l.units⟩ = l.value := by
  have scaled : (10 : ℚ) ^ 18 = 10 ^ l.fraction.length * 10 ^ (18 - l.fraction.length) := by
    rw [← pow_add, Nat.add_sub_cancel' formed.places]
  have unsigned : (l.magnitude : ℚ) / 10 ^ 18 = Nat.ofDigitChars 10 l.whole 0 +
      Nat.ofDigitChars 10 l.fraction 0 / 10 ^ l.fraction.length := by
    rw [magnitude_eq formed, Nat.cast_add, Nat.cast_mul, Nat.cast_mul, Nat.cast_pow, Nat.cast_pow,
      Nat.cast_ofNat, add_div, mul_div_cancel_right₀ _ (by positivity), scaled,
      mul_div_mul_right _ _ (by positivity)]
  unfold Decimal.value value units Integer.signed
  cases l.negative with
  | false => exact unsigned
  | true =>
      change ((-(l.magnitude : Int) : Int) : ℚ) / 10 ^ 18 = -_
      rw [Int.cast_neg, Int.cast_natCast, neg_div, unsigned]

theorem truncate_units (formed : l.Formed) : Decimal.truncate ⟨l.units⟩ = l.integerPart := by
  have whole : l.magnitude / 10 ^ 18 = Nat.ofDigitChars 10 l.whole 0 := by
    rw [magnitude_eq formed, Nat.add_comm, Nat.add_mul_div_right _ _ (by decide),
      Nat.div_eq_of_lt (fraction_lt formed), Nat.zero_add]
  have scale_eq : (scale : Int) = (10 ^ 18 : Nat) := by decide
  have towardZero : (l.magnitude : Int).tdiv (10 ^ 18 : Nat) = Nat.ofDigitChars 10 l.whole 0 := by
    rw [← Int.ofNat_tdiv, whole]
  unfold Decimal.truncate integerPart units Integer.signed
  rw [scale_eq]
  cases l.negative with
  | false => exact towardZero
  | true =>
      change (-(l.magnitude : Int)).tdiv _ = -_
      rw [Int.neg_tdiv, towardZero]

theorem splitPoint_unsigned (formed : l.Formed) : splitPoint l.unsigned =
    (l.whole, if l.fraction = [] then none else some l.fraction) := by
  unfold splitPoint unsigned
  cases l.fraction with
  | nil =>
      have plain : ∀ c ∈ l.whole, (c != '.') = true := fun c member =>
        bne_iff_ne.mpr (Digits.ne_of_isDigit (formed.whole c member) (by decide))
      rw [pointed, List.append_nil, List.span_eq_takeWhile_dropWhile,
        List.takeWhile_eq_self_iff.mpr plain, List.dropWhile_eq_nil_iff.mpr plain]
      rfl
  | cons c rest =>
      rw [pointed, span_append formed.whole]
      · rfl
      · exact List.cons_ne_nil c rest

theorem isDigits_whole (formed : l.Formed) : Integer.isDigits l.whole = true :=
  Integer.isDigits_of_all (List.length_pos_of_ne_nil formed.nonempty) formed.whole

theorem unitDigits?_unsigned (formed : l.Formed) : unitDigits? l.unsigned = some l.unitDigits := by
  unfold unitDigits?
  rw [splitPoint_unsigned formed, unitDigits]
  by_cases plain : l.fraction = []
  · rw [if_pos plain, plain]
    simp only [isDigits_whole formed, if_true]
  · have digits := Integer.isDigits_of_all (List.length_pos_of_ne_nil plain) formed.fraction
    rw [if_neg plain]
    simp only [isDigits_whole formed, digits, formed.places, places, Bool.and_self, decide_true,
      if_true]

theorem splitSign_chars (formed : l.Formed) :
    Integer.splitSign l.chars = (l.negative, l.unsigned) := by
  unfold chars
  cases l.negative with
  | true => rfl
  | false =>
      have start : ∃ c rest, l.unsigned = c :: rest ∧ c ≠ '-' := by
        cases shape : l.whole with
        | nil => exact absurd shape formed.nonempty
        | cons c rest =>
            have digit := formed.whole c (shape ▸ List.mem_cons_self)
            exact ⟨c, _, by rw [unsigned, shape, List.cons_append],
              Digits.ne_of_isDigit digit (by decide)⟩
      obtain ⟨c, rest, shape, notSign⟩ := start
      rw [if_neg Bool.false_ne_true, shape, Integer.splitSign]
      rintro digits same
      exact notSign (List.cons.inj same).1

theorem Spells.parse_eq {text : String} (spells : l.Spells text) : parse text =
    if l.units.natAbs < limit then .ok ⟨l.units⟩ else .error (.decimalOutOfRange text) := by
  unfold parse
  rw [spells.chars, splitSign_chars spells.toFormed]
  simp only [unitDigits?_unsigned spells.toFormed, natAbs_units]
  rfl

end Literal

theorem append_splitPoint {text integer : List Char} {part : Option (List Char)}
    (split : splitPoint text = (integer, part)) :
    text = integer ++ (part.map ('.' :: ·)).getD [] := by
  have whole : text.takeWhile (· != '.') ++ text.dropWhile (· != '.') = text :=
    List.takeWhile_append_dropWhile
  have stops : ∀ c rest, text.dropWhile (· != '.') = c :: rest → c = '.' := by
    intro c rest shape
    have first := List.head?_dropWhile_not (· != '.') text
    rw [shape] at first
    simpa using first
  unfold splitPoint at split
  rw [List.span_eq_takeWhile_dropWhile] at split
  cases behind : text.dropWhile (· != '.') with
  | nil =>
      rw [behind] at split whole
      cases split
      exact whole.symm
  | cons c rest =>
      rw [behind] at split whole
      cases split
      rw [stops c rest behind] at whole
      exact whole.symm

theorem exists_literal_of_unitDigits? {text digits : List Char} (negative : Bool)
    (read : unitDigits? text = some digits) :
    ∃ l : Literal, l.negative = negative ∧ l.Formed ∧ text = l.unsigned := by
  have each {part : List Char} (digits : Integer.isDigits part = true) :
      part ≠ [] ∧ ∀ c ∈ part, c.isDigit = true := by
    simpa [Integer.isDigits] using digits
  unfold unitDigits? at read
  split at read
  · rename_i integer split
    split at read
    · rename_i whole
      obtain ⟨nonempty, all⟩ := each whole
      refine ⟨⟨negative, integer, []⟩, rfl, ⟨nonempty, all, List.forall_mem_nil _, Nat.zero_le _⟩, ?_⟩
      exact append_splitPoint split
    · cases read
  · rename_i integer fraction split
    split at read
    · rename_i both
      rw [Bool.and_eq_true, Bool.and_eq_true, decide_eq_true_eq] at both
      obtain ⟨nonempty, all⟩ := each both.1.1
      obtain ⟨some, allBehind⟩ := each both.1.2
      refine ⟨⟨negative, integer, fraction⟩, rfl, ⟨nonempty, all, allBehind, both.2⟩, ?_⟩
      rw [append_splitPoint split]
      cases fraction with
      | nil => exact absurd rfl some
      | cons => rfl
    · cases read

theorem eq_of_splitSign {text digits : List Char} {negative : Bool}
    (split : Integer.splitSign text = (negative, digits)) :
    text = if negative then '-' :: digits else digits := by
  unfold Integer.splitSign at split
  split at split
  · cases split
    rfl
  · cases split
    rfl

theorem exists_literal_of_parse {text : String} {d : Decimal} (read : parse text = .ok d) :
    ∃ l : Literal, l.Spells text := by
  unfold parse at read
  cases split : Integer.splitSign text.toList with
  | mk negative unsigned =>
      rw [split] at read
      cases digits : unitDigits? unsigned with
      | none =>
          simp only [digits] at read
          cases read
      | some digits' =>
          obtain ⟨l, rfl, formed, rfl⟩ := exists_literal_of_unitDigits? negative digits
          exact ⟨l, formed, eq_of_splitSign split⟩

theorem units_lt_limit_iff (d : Decimal) : d.units.natAbs < limit ↔ |d.value| * 10 ^ 18 < 2 ^ 316 := by
  have scaled : |d.value| * 10 ^ 18 = (d.units.natAbs : ℚ) := by
    rw [value, abs_div, abs_of_pos (show (0 : ℚ) < 10 ^ 18 by positivity),
      div_mul_cancel₀ _ (by positivity), Nat.cast_natAbs, Int.cast_abs]
  have limit_eq : (limit : ℚ) = 2 ^ 316 := by
    simp only [limit, Nat.one_shiftLeft, Nat.cast_pow, Nat.cast_ofNat]
  rw [scaled, ← limit_eq, Nat.cast_lt]

theorem truncate_ofInt (n : Int) : (ofInt n).truncate = n :=
  Int.mul_tdiv_cancel n (by decide)

/-- Whole numbers below 256 bits stay below the limit when they are moved by 18 places. -/
theorem ofInt_lt {n : Int} (bounded : |n| < 2 ^ 256) : |(ofInt n).value| * 10 ^ 18 < 2 ^ 316 := by
  have whole : (ofInt n).value = n := by
    have scale_eq : (scale : Int) = 10 ^ 18 := by decide
    rw [value, ofInt, scale_eq, Int.cast_mul, Int.cast_pow, Int.cast_ofNat,
      mul_div_cancel_right₀ _ (by positivity)]
  have small : |(n : ℚ)| < 2 ^ 256 := by exact_mod_cast bounded
  rw [whole]
  calc
    |(n : ℚ)| * 10 ^ 18 < 2 ^ 256 * 10 ^ 18 := by gcongr
    _ ≤ 2 ^ 256 * 2 ^ 60 := by gcongr; norm_num
    _ = 2 ^ 316 := (pow_add 2 256 60).symm

theorem value_injective : Function.Injective value := by
  rintro ⟨a⟩ ⟨b⟩ same
  have units : (a : ℚ) = b := (div_left_inj' (by positivity)).mp same
  rw [Int.cast_inj.mp units]

theorem Literal.Spells.parse_eq_ok {l : Literal} {text : String} {d : Decimal}
    (spells : l.Spells text) : parse text = .ok d ↔
      |l.value| * 10 ^ 18 < 2 ^ 316 ∧ d = ⟨l.units⟩ := by
  have bound := units_lt_limit_iff ⟨l.units⟩
  rw [Literal.value_units spells.toFormed] at bound
  rw [spells.parse_eq]
  by_cases small : l.units.natAbs < limit
  · rw [if_pos small, and_iff_right (bound.mp small), Except.ok.injEq, eq_comm]
  · rw [if_neg small]
    exact iff_of_false (fun read => by cases read) fun given => small (bound.mpr given.1)

/-- Exactly the texts that spell a number below the limit are read, as that number; without its fraction
it is the number before the point. What is written is read as the same decimal, unless that is past
the limit, which no whole number of 256 bits is. -/
theorem reads_literals :
    (∀ text d, parse text = .ok d ↔
      ∃ l : Literal, l.Spells text ∧ |l.value| * 10 ^ 18 < 2 ^ 316 ∧ d.value = l.value) ∧
    (∀ (l : Literal) text d, l.Spells text → parse text = .ok d →
      d.value = l.value ∧ d.truncate = l.integerPart) ∧
    (∀ d, parse d.render =
      if |d.value| * 10 ^ 18 < 2 ^ 316 then .ok d else .error (.decimalOutOfRange d.render)) ∧
    ∀ n : Int, |n| < 2 ^ 256 → |(ofInt n).value| * 10 ^ 18 < 2 ^ 316 ∧ (ofInt n).truncate = n := by
  refine ⟨fun text d => ⟨fun read => ?_, ?_⟩, fun l text d spells read => ?_, fun d => ?_,
    fun n bounded => ⟨ofInt_lt bounded, truncate_ofInt n⟩⟩
  · obtain ⟨l, spells⟩ := exists_literal_of_parse read
    obtain ⟨small, rfl⟩ := spells.parse_eq_ok.mp read
    exact ⟨l, spells, small, Literal.value_units spells.toFormed⟩
  · rintro ⟨l, spells, small, same⟩
    rw [← Literal.value_units spells.toFormed] at same
    exact spells.parse_eq_ok.mpr ⟨small, value_injective same⟩
  · obtain ⟨-, rfl⟩ := spells.parse_eq_ok.mp read
    exact ⟨Literal.value_units spells.toFormed, Literal.truncate_units spells.toFormed⟩
  · simp only [parse_render, units_lt_limit_iff]

def minusHalf : Literal := ⟨true, ['0'], ['5']⟩

theorem reads_minusHalf :
    minusHalf.Spells "-0.5" ∧ parse "-0.5" = .ok ⟨-(5 * 10 ^ 17)⟩ ∧ minusHalf.value = -1 / 2 ∧
      Decimal.value ⟨-(5 * 10 ^ 17)⟩ = minusHalf.value ∧
      Decimal.truncate ⟨-(5 * 10 ^ 17)⟩ = minusHalf.integerPart ∧
      |(2 : Int) ^ 256 - 1| < 2 ^ 256 ∧ (ofInt (2 ^ 256 - 1)).truncate = 2 ^ 256 - 1 := by
  have spells : minusHalf.Spells "-0.5" :=
    ⟨⟨by decide, List.forall_mem_singleton.mpr rfl, List.forall_mem_singleton.mpr rfl, by decide⟩, rfl⟩
  have read : parse "-0.5" = .ok ⟨-(5 * 10 ^ 17)⟩ := by decide
  have half : minusHalf.value = -1 / 2 := by
    have digits : Nat.ofDigitChars 10 ['0'] 0 = 0 ∧ Nat.ofDigitChars 10 ['5'] 0 = 5 := by decide
    norm_num [Literal.value, minusHalf, digits]
  have bounded : |(2 : Int) ^ 256 - 1| < 2 ^ 256 := by decide
  obtain ⟨-, numbers, -, wholes⟩ := reads_literals
  obtain ⟨number, integerPart⟩ := numbers minusHalf "-0.5" _ spells read
  exact ⟨spells, read, half, number, integerPart, bounded, (wholes _ bounded).2⟩

end Devnet.Decimal
