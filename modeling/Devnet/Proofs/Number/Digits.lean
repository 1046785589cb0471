import Devnet.Number.Word
import Mathlib

namespace Devnet

namespace Digits

theorem all_isDigit (n : Nat) : ∀ c ∈ Nat.toDigits 10 n, c.isDigit = true :=
  fun _ member => Nat.isDigit_of_mem_toDigits (by decide) (by decide) member

theorem head_zero {n : Nat} (leading : (Nat.toDigits 10 n).head? = some '0') : n = 0 := by
  induction n using Nat.strongRecOn with
  | ind n ih =>
      rw [Nat.toDigits_eq_if (by decide)] at leading
      split at leading
      · rename_i small
        interval_cases n <;> first | rfl | cases leading
      · rename_i large
        have shorter : (Nat.toDigits 10 (n / 10)).head? = some '0' := by
          rw [List.head?_append_of_ne_nil _ Nat.toDigits_ne_nil] at leading
          exact leading
        have zero := ih (n / 10) (by omega) shorter
        omega

theorem length_zero : (Nat.toDigits 10 0).length = 1 := by
  rw [Nat.toDigits_zero]
  rfl

theorem ne_of_isDigit {c mark : Char} (digit : c.isDigit = true) (notDigit : mark.isDigit = false) :
    c ≠ mark := by
  rintro rfl
  rw [digit] at notDigit
  cases notDigit

theorem ofDigitChars_cons (value : Nat) (c : Char) (rest : List Char) :
    Nat.ofDigitChars 10 (c :: rest) value =
      Nat.ofDigitChars 10 rest (value * 10 + (c.toNat - '0'.toNat)) := by
  rw [Nat.ofDigitChars_cons, Nat.mul_comm]

theorem le_ofDigitChars (digits : List Char) (value : Nat) :
    value ≤ Nat.ofDigitChars 10 digits value := by
  induction digits generalizing value with
  | nil => exact Nat.le_of_eq Nat.ofDigitChars_nil.symm
  | cons c rest ih =>
      rw [ofDigitChars_cons]
      exact Nat.le_trans (by omega) (ih _)

theorem ofDigitChars_lt {digits : List Char} (all : ∀ c ∈ digits, c.isDigit = true) (value : Nat) :
    Nat.ofDigitChars 10 digits value < (value + 1) * 10 ^ digits.length := by
  induction digits generalizing value with
  | nil =>
      rw [Nat.ofDigitChars_nil, List.length_nil, Nat.pow_zero, Nat.mul_one]
      exact Nat.lt_succ_self value
  | cons c rest ih =>
      have digit : c.toNat - '0'.toNat < 10 := by
        have range := all c List.mem_cons_self
        rw [Char.isDigit, Bool.and_eq_true, decide_eq_true_eq, decide_eq_true_eq] at range
        have greatest : c.toNat ≤ '9'.toNat := range.2
        have nine : '9'.toNat - '0'.toNat = 9 := rfl
        omega
      have later := ih (fun d member => all d (List.mem_cons_of_mem _ member))
        (value * 10 + (c.toNat - '0'.toNat))
      rw [ofDigitChars_cons, List.length_cons, Nat.pow_succ']
      refine later.trans_le ?_
      rw [← Nat.mul_assoc]
      exact Nat.mul_le_mul_right _ (by omega)

theorem lt_pow_length (n : Nat) : n < 10 ^ (Nat.toDigits 10 n).length :=
  (Nat.length_toDigits_le_iff (by decide) Nat.length_toDigits_pos).mp (Nat.le_refl _)

theorem pow_length_le {n : Nat} (positive : 0 < n) :
    10 ^ ((Nat.toDigits 10 n).length - 1) ≤ n := by
  rcases Nat.eq_zero_or_pos ((Nat.toDigits 10 n).length - 1) with single | more
  · rw [single]
    exact positive
  · have shorter := Nat.length_toDigits_le_iff (b := 10) (n := n) (by decide) more
    apply Nat.le_of_not_lt
    rw [← shorter]
    omega

theorem toList_toString (n : Int) :
    (toString n).toList =
      if n < 0 then '-' :: Nat.toDigits 10 n.natAbs else Nat.toDigits 10 n.natAbs := by
  rw [Int.toString_eq_repr, Int.repr_eq_if]
  rcases Int.lt_or_le n 0 with negative | positive
  · have size : (-n).toNat = n.natAbs := by omega
    rw [if_neg (by omega), if_pos negative, String.toList_append, Nat.toList_repr, size]
    rfl
  · have size : n.toNat = n.natAbs := by omega
    rw [if_pos positive, if_neg (by omega), Nat.toList_repr, size]

end Digits

namespace Word

theorem readUpTo_eq_ok {most : Nat} {beyond : WordFault} {digits : List Char} {value : Nat}
    (all : ∀ c ∈ digits, c.isDigit = true) (bounded : Nat.ofDigitChars 10 digits value ≤ most) :
    readUpTo most beyond value digits = .ok (Nat.ofDigitChars 10 digits value) := by
  induction digits generalizing value with
  | nil => rw [readUpTo, Nat.ofDigitChars_nil]
  | cons c rest ih =>
      rw [Digits.ofDigitChars_cons] at bounded ⊢
      have prefixBounded := Digits.le_ofDigitChars rest (value * 10 + (c.toNat - '0'.toNat))
      rw [readUpTo, all c List.mem_cons_self]
      simp only [Bool.not_true, Bool.false_eq_true, if_false]
      rw [if_neg (by omega)]
      exact ih (fun d member => all d (List.mem_cons_of_mem _ member)) bounded

theorem readUpTo_toDigits {n most : Nat} (bounded : n ≤ most) (beyond : WordFault) :
    readUpTo most beyond 0 (Nat.toDigits 10 n) = .ok n := by
  have value : Nat.ofDigitChars 10 (Nat.toDigits 10 n) 0 = n := Nat.ofDigitChars_ten_toDigits
  rw [readUpTo_eq_ok (Digits.all_isDigit n) (by omega), value]

theorem readUInt64_toDigits {n : Nat} (bounded : n ≤ greatestUInt64) :
    readUInt64 (Nat.toDigits 10 n) = .ok n := by
  have read := readUpTo_toDigits bounded .tooLarge
  have digits := Digits.all_isDigit n
  have some := Nat.toDigits_ne_nil (n := n) (b := 10)
  revert read digits some
  generalize Nat.toDigits 10 n = text
  intro read digits some
  unfold readUInt64
  split
  · exact absurd rfl some
  · exact absurd (digits '+' List.mem_cons_self) (by decide)
  · exact absurd (digits '+' List.mem_cons_self) (by decide)
  · exact read

theorem parseUInt64_toString (n : UInt64) : parseUInt64 (toString n.toNat) = .ok n := by
  have bounded : n.toNat ≤ greatestUInt64 := by
    have := n.toNat_lt
    rw [greatestUInt64]
    omega
  unfold parseUInt64
  rw [Nat.toString_eq_repr, Nat.toList_repr, readUInt64_toDigits bounded]
  show Except.ok n.toNat.toUInt64 = _
  rw [show n.toNat.toUInt64 = n from UInt64.ofNat_toNat]

theorem readInt64_toDigits {n : Nat} (bounded : n ≤ greatestInt64.toNat) :
    readInt64 (Nat.toDigits 10 n) = .ok (n : Int) := by
  have read := readUpTo_toDigits bounded .tooLarge
  have digits := Digits.all_isDigit n
  have some := Nat.toDigits_ne_nil (n := n) (b := 10)
  revert read digits some
  generalize Nat.toDigits 10 n = text
  intro read digits some
  unfold readInt64
  split
  · exact absurd rfl some
  · exact absurd (digits '+' List.mem_cons_self) (by decide)
  · exact absurd (digits '-' List.mem_cons_self) (by decide)
  · exact absurd (digits '+' List.mem_cons_self) (by decide)
  · exact absurd (digits '-' List.mem_cons_self) (by decide)
  · rw [read]
    rfl

theorem readInt64_minus {n : Nat} (bounded : n ≤ leastInt64.natAbs) :
    readInt64 ('-' :: Nat.toDigits 10 n) = .ok (-(n : Int)) := by
  have read := readUpTo_toDigits bounded .tooSmall
  have some := Nat.toDigits_ne_nil (n := n) (b := 10)
  revert read some
  generalize Nat.toDigits 10 n = text
  intro read some
  cases text with
  | nil => exact absurd rfl some
  | cons c rest =>
      simp only [readInt64]
      rw [read]
      rfl

theorem parseInt64_toString (n : Int64) : parseInt64 (toString n.toInt) = .ok n := by
  have low := n.le_toInt
  have high := n.toInt_lt
  have value : readInt64 (toString n.toInt).toList = .ok n.toInt := by
    rw [Digits.toList_toString]
    have greatest : greatestInt64.toNat = 9223372036854775807 := rfl
    have least : leastInt64.natAbs = 9223372036854775808 := rfl
    split
    · rename_i negative
      rw [readInt64_minus (by omega)]
      exact congrArg Except.ok (by omega)
    · rename_i positive
      rw [readInt64_toDigits (by omega)]
      exact congrArg Except.ok (by omega)
  unfold parseInt64
  rw [value]
  exact congrArg Except.ok (Int64.ofInt_toInt n)

end Word
end Devnet
