import Devnet.Number.Decimal
import Devnet.Proofs.Number.Digits
import Mathlib

namespace Devnet

namespace Integer

theorem isDigits_of_all {text : List Char} (some : 0 < text.length)
    (all : ∀ c ∈ text, c.isDigit = true) : isDigits text = true := by
  have nonempty : text ≠ [] := List.ne_nil_of_length_pos some
  simp only [isDigits, Bool.and_eq_true, Bool.not_eq_true', List.isEmpty_eq_false_iff,
    List.all_eq_true]
  exact ⟨nonempty, all⟩

theorem isDigits_toDigits (n : Nat) : isDigits (Nat.toDigits 10 n) = true :=
  isDigits_of_all Nat.length_toDigits_pos (Digits.all_isDigit n)

theorem readDigits_toDigits (n : Nat) : readDigits (Nat.toDigits 10 n) = n :=
  Nat.ofDigitChars_ten_toDigits

theorem splitSign_of_isDigit {digits : List Char} (all : ∀ c ∈ digits, c.isDigit = true) :
    splitSign digits = (false, digits) := by
  unfold splitSign
  split
  · exact absurd (all '-' List.mem_cons_self) (by decide)
  · rfl

theorem splitSign_toString (n : Int) :
    splitSign (toString n).toList = (decide (n < 0), Nat.toDigits 10 n.natAbs) := by
  rw [Digits.toList_toString]
  split
  · rename_i negative
    simp [splitSign, negative]
  · rename_i positive
    rw [splitSign_of_isDigit (Digits.all_isDigit n.natAbs)]
    simp [positive]

theorem signed_natAbs (n : Int) : signed (decide (n < 0)) n.natAbs = n := by
  unfold signed
  split
  · rename_i negative
    have := of_decide_eq_true negative
    omega
  · rename_i positive
    have := of_decide_eq_false (Bool.not_eq_true _ ▸ positive)
    omega

def InRange (n : Int) : Prop := n.natAbs < limit

instance (n : Int) : Decidable (InRange n) := inferInstanceAs (Decidable (n.natAbs < limit))

theorem inRange_zero : InRange 0 := by decide

theorem limit_eq : limit = 2 ^ 256 := Nat.one_shiftLeft 256

theorem parse_render (n : Int) :
    parse (render n) =
      if n.natAbs < limit then .ok n else .error (.integerOutOfRange (render n)) := by
  unfold parse render
  rw [splitSign_toString]
  simp only [isDigits_toDigits, readDigits_toDigits, signed_natAbs, Bool.not_true,
    Bool.false_eq_true, if_false]

theorem natAbs_signed (negative : Bool) (magnitude : Nat) :
    (signed negative magnitude).natAbs = magnitude := by
  cases negative with
  | false => exact Int.natAbs_natCast magnitude
  | true => exact (Int.natAbs_neg _).trans (Int.natAbs_natCast magnitude)

theorem inRange_of_parse {text : String} {n : Int} (read : parse text = .ok n) : InRange n := by
  unfold parse at read
  simp only at read
  split at read
  · cases read
  · split at read
    · rename_i small
      cases read
      rw [InRange, natAbs_signed]
      exact small
    · cases read

theorem parse_render_eq_ok {n m : Int} : parse (render n) = .ok m ↔ InRange n ∧ m = n := by
  rw [parse_render, InRange]
  by_cases small : n.natAbs < limit
  · rw [if_pos small]
    simp [small, eq_comm]
  · rw [if_neg small]
    simp [small]

end Integer

namespace Decimal

theorem span_append {digits : List Char} (all : ∀ c ∈ digits, c.isDigit = true) (rest : List Char) :
    (digits ++ '.' :: rest).span (· != '.') = (digits, '.' :: rest) := by
  have plain : ∀ c ∈ digits, (c != '.') = true := fun c member =>
    bne_iff_ne.mpr (Digits.ne_of_isDigit (all c member) (by decide))
  rw [List.span_eq_takeWhile_dropWhile, List.takeWhile_append_of_pos plain,
    List.dropWhile_append_of_pos plain]
  simp

def digits (d : Decimal) : List Char := padLeft (places + 1) (Nat.toDigits 10 d.units.natAbs)

theorem digits_all (d : Decimal) : ∀ c ∈ d.digits, c.isDigit = true := by
  intro c member
  rcases List.mem_append.mp member with zero | digit
  · rw [List.eq_of_mem_replicate zero]
    decide
  · exact Digits.all_isDigit _ c digit

theorem places_lt_length_digits (d : Decimal) : places < d.digits.length := by
  simp only [digits, padLeft, List.length_append, List.length_replicate]
  omega

theorem readDigits_digits (d : Decimal) : Integer.readDigits d.digits = d.units.natAbs := by
  unfold digits padLeft Integer.readDigits
  rw [Nat.ofDigitChars_append, Nat.ofDigitChars_replicate_zero, Nat.mul_zero]
  exact Nat.ofDigitChars_ten_toDigits

theorem unitDigits?_split (d : Decimal) :
    unitDigits? (d.digits.take (d.digits.length - places) ++
      '.' :: d.digits.drop (d.digits.length - places)) = some d.digits := by
  have long := d.places_lt_length_digits
  have whole : ∀ c ∈ d.digits.take (d.digits.length - places), c.isDigit = true :=
    fun c member => d.digits_all c (List.mem_of_mem_take member)
  have fraction : ∀ c ∈ d.digits.drop (d.digits.length - places), c.isDigit = true :=
    fun c member => d.digits_all c (List.mem_of_mem_drop member)
  have width : (d.digits.drop (d.digits.length - places)).length = places := by
    rw [List.length_drop]
    omega
  have one : 0 < (d.digits.take (d.digits.length - places)).length := by
    rw [List.length_take]
    omega
  have two : 0 < (d.digits.drop (d.digits.length - places)).length := by
    rw [width]
    decide
  unfold unitDigits? splitPoint
  rw [span_append whole]
  simp only [Integer.isDigits_of_all one whole, Integer.isDigits_of_all two fraction, width, padRight,
    Nat.sub_self, List.replicate_zero, List.append_nil, List.take_append_drop]
  rfl

theorem splitSign_render (d : Decimal) :
    Integer.splitSign d.render.toList =
      (decide (d.units < 0), d.digits.take (d.digits.length - places) ++
        '.' :: d.digits.drop (d.digits.length - places)) := by
  have long := d.places_lt_length_digits
  unfold render renderChars
  rw [String.toList_ofList, ← digits]
  by_cases negative : d.units < 0
  · simp [isNegative, negative, Integer.splitSign]
  · have unsigned : Integer.splitSign (d.digits.take (d.digits.length - places) ++
        '.' :: d.digits.drop (d.digits.length - places)) =
        (false, d.digits.take (d.digits.length - places) ++
          '.' :: d.digits.drop (d.digits.length - places)) := by
      have first : ∀ c ∈ d.digits.take (d.digits.length - places), c.isDigit = true :=
        fun c member => d.digits_all c (List.mem_of_mem_take member)
      cases whole : d.digits.take (d.digits.length - places) with
      | nil => rfl
      | cons c rest =>
          rw [whole] at first
          have digit := first c List.mem_cons_self
          have plain : c ≠ '-' := Digits.ne_of_isDigit digit (by decide)
          simp [Integer.splitSign, plain]
    simp [isNegative, negative, unsigned]

def InRange (d : Decimal) : Prop := d.units.natAbs < limit

instance (d : Decimal) : Decidable d.InRange := inferInstanceAs (Decidable (d.units.natAbs < limit))

theorem inRange_zero : zero.InRange := by decide

theorem inRange_one : one.InRange := by decide

theorem parse_render (d : Decimal) :
    parse d.render =
      if d.units.natAbs < limit then .ok d else .error (.decimalOutOfRange d.render) := by
  unfold parse
  rw [splitSign_render]
  simp only [unitDigits?_split, readDigits_digits, Integer.signed_natAbs]

theorem inRange_of_parse {text : String} {d : Decimal} (read : parse text = .ok d) : d.InRange := by
  unfold parse at read
  simp only at read
  split at read
  · cases read
  · split at read
    · rename_i small
      cases read
      rw [InRange, Integer.natAbs_signed]
      exact small
    · cases read

theorem parse_render_eq_ok {d e : Decimal} : parse d.render = .ok e ↔ d.InRange ∧ e = d := by
  rw [parse_render, InRange]
  by_cases small : d.units.natAbs < limit
  · rw [if_pos small]
    simp [small, eq_comm]
  · rw [if_neg small]
    simp [small]

end Decimal
end Devnet
