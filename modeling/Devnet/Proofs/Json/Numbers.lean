import Devnet.Json.Printer
import Devnet.Json.Reader
import Devnet.Proofs.Number.Digits
import Devnet.Proofs.Number.Scientific
import Mathlib

namespace Devnet.RawJson

/-- What may follow a value: nothing, or a mark that belongs to no number. -/
def Ends (rest : List Symbol) : Prop :=
  ∀ c tail, rest = some c :: tail → c = ',' ∨ c = ']' ∨ c = '\x7d'

theorem ends_nil : Ends [] := by
  intro c tail same
  cases same

theorem ends_cons {c : Char} (mark : c = ',' ∨ c = ']' ∨ c = '\x7d') (tail : List Symbol) :
    Ends (some c :: tail) := by
  intro d tail' same
  cases same
  exact mark

def Stops (rest : List Symbol) : Prop :=
  ∀ c tail, rest = some c :: tail → c.isDigit = false

theorem Ends.stops {rest : List Symbol} (ends : Ends rest) : Stops rest := by
  intro c tail same
  rcases ends c tail same with rfl | rfl | rfl <;> rfl

theorem stops_cons {c : Char} (mark : c.isDigit = false) (tail : List Symbol) :
    Stops (some c :: tail) := by
  intro d tail' same
  cases same
  exact mark

theorem spanDigits_append {digits : List Char} (all : ∀ c ∈ digits, c.isDigit = true)
    {rest : List Symbol} (stops : Stops rest) :
    spanDigits (digits.map some ++ rest) = (digits, rest) := by
  induction digits with
  | nil =>
      cases rest with
      | nil => rfl
      | cons symbol tail =>
          cases symbol with
          | none => rfl
          | some c => simp [spanDigits, stops c tail rfl]
  | cons c digits ih =>
      rw [List.map_cons, List.cons_append, spanDigits, if_pos (all c List.mem_cons_self),
        ih fun d member => all d (List.mem_cons_of_mem _ member)]

def fractionChars : List Char → List Char
  | [] => []
  | digits => '.' :: digits

def exponentChars : Option (Bool × List Char) → List Char
  | none => []
  | some (negative, digits) => 'e' :: (if negative then '-' else '+') :: digits

def Numeral.chars (n : Numeral) : List Char :=
  n.whole ++ fractionChars n.fraction ++ exponentChars n.exponent

structure Numeral.Formed (n : Numeral) : Prop where
  nonempty : n.whole ≠ []
  whole : ∀ c ∈ n.whole, c.isDigit = true
  leading : n.whole.head? = some '0' → n.whole.length = 1
  fraction : ∀ c ∈ n.fraction, c.isDigit = true
  exponent : ∀ e ∈ n.exponent, e.2 ≠ [] ∧ ∀ c ∈ e.2, c.isDigit = true

theorem readFraction_append {digits : List Char} (all : ∀ c ∈ digits, c.isDigit = true)
    {rest : List Symbol} (stops : Stops rest) (noPoint : ∀ tail, rest ≠ some '.' :: tail) :
    readFraction ((fractionChars digits).map some ++ rest) = some (digits, rest) := by
  cases digits with
  | nil =>
      change readFraction rest = _
      unfold readFraction
      split
      · rename_i tail
        exact absurd rfl (noPoint tail)
      · rfl
  | cons c digits =>
      change readFraction (some '.' :: ((c :: digits).map some ++ rest)) = _
      simp only [readFraction, spanDigits_append all stops]

theorem readExponentDigits_append {digits : List Char} (all : ∀ c ∈ digits, c.isDigit = true)
    (some : digits ≠ []) (negative : Bool) {rest : List Symbol} (stops : Stops rest) :
    readExponentDigits negative (digits.map .some ++ rest) =
      .some (.some (negative, digits), rest) := by
  rw [readExponentDigits, spanDigits_append all stops]
  cases digits with
  | nil => exact absurd rfl some
  | cons => rfl

theorem readExponent_append {exponent : Option (Bool × List Char)}
    (formed : ∀ e ∈ exponent, e.2 ≠ [] ∧ ∀ c ∈ e.2, c.isDigit = true) {rest : List Symbol}
    (ends : Ends rest) :
    readExponent ((exponentChars exponent).map some ++ rest) = some (exponent, rest) := by
  cases exponent with
  | none =>
      change readExponent rest = _
      unfold readExponent
      split
      · rename_i c tail
        rcases ends c tail rfl with rfl | rfl | rfl <;> rfl
      · rfl
  | some mark =>
      obtain ⟨negative, digits⟩ := mark
      obtain ⟨nonempty, all⟩ := formed (negative, digits) rfl
      have read := readExponentDigits_append all nonempty negative ends.stops
      cases negative with
      | false => exact read
      | true => exact read

theorem stops_exponent (exponent : Option (Bool × List Char)) {rest : List Symbol}
    (ends : Ends rest) : Stops ((exponentChars exponent).map some ++ rest) ∧
      ∀ tail, (exponentChars exponent).map some ++ rest ≠ some '.' :: tail := by
  cases exponent with
  | none =>
      refine ⟨ends.stops, fun tail same => ?_⟩
      rcases ends '.' tail same with point | point | point <;> cases point
  | some mark =>
      refine ⟨stops_cons rfl _, fun tail same => ?_⟩
      cases same

theorem stops_fraction (digits : List Char) {rest : List Symbol} (stops : Stops rest) :
    Stops ((fractionChars digits).map some ++ rest) := by
  cases digits with
  | nil => exact stops
  | cons => exact stops_cons rfl _

theorem readNumeral_chars {n : Numeral} (formed : n.Formed) {rest : List Symbol} (ends : Ends rest) :
    readNumeral n.negative (n.chars.map some ++ rest) = some (n, rest) := by
  obtain ⟨stops, noPoint⟩ := stops_exponent n.exponent ends
  have nonempty : n.whole.isEmpty = false := by simp [formed.nonempty]
  have leading : (n.whole.head? == some '0' && n.whole.length != 1) = false := by
    by_cases zero : n.whole.head? = some '0'
    · simp [formed.leading zero]
    · simp [zero]
  rw [Numeral.chars, List.map_append, List.map_append, List.append_assoc, List.append_assoc]
  unfold readNumeral
  rw [spanDigits_append formed.whole (stops_fraction n.fraction stops)]
  simp [nonempty, leading, readFraction_append formed.fraction stops noPoint,
    readExponent_append formed.exponent ends]

def Numeral.text (n : Numeral) : List Char := if n.negative then '-' :: n.chars else n.chars

theorem absorb_eq {digits : List Char} {value : Nat}
    (bounded : Nat.ofDigitChars 10 digits value ≤ Word.greatestUInt64) :
    absorb value digits = (Nat.ofDigitChars 10 digits value, 0) := by
  induction digits generalizing value with
  | nil => rw [absorb, Nat.ofDigitChars_nil]
  | cons c rest ih =>
      rw [Digits.ofDigitChars_cons] at bounded ⊢
      have prefixBounded := Digits.le_ofDigitChars rest (value * 10 + (c.toNat - '0'.toNat))
      rw [absorb, if_pos (by omega), ih bounded]

def InWords (n : Int) : Prop := Word.leastInt64 ≤ n ∧ n ≤ Word.greatestUInt64

def Numeral.signed (n : Numeral) : Int :=
  if n.negative then -(Nat.ofDigitChars 10 n.whole 0 : Int) else Nat.ofDigitChars 10 n.whole 0

/-- Without a fraction and an exponent an integer of the 64-bit ranges stays one, unless it is minus
zero. -/
theorem Numeral.value_of_plain {n : Numeral} (fraction : n.fraction = []) (exponent : n.exponent = none)
    (inWords : InWords n.signed) (notMinusZero : n.negative = true → n.signed ≠ 0) :
    n.value = some (.integer n.signed) := by
  obtain ⟨negative, whole, fractionDigits, mark⟩ := n
  obtain ⟨least, greatest⟩ := inWords
  rw [signed] at least greatest notMinusZero ⊢
  simp only at fraction exponent least greatest notMinusZero ⊢
  rw [fraction, exponent]
  have small : Nat.ofDigitChars 10 whole 0 ≤ Word.greatestUInt64 := by
    rw [Word.leastInt64] at least
    rw [Word.greatestUInt64] at greatest ⊢
    by_cases sign : negative = true
    · rw [if_pos sign] at least
      omega
    · rw [if_neg sign] at greatest
      omega
  unfold value
  simp only
  rw [absorb_eq small]
  cases negative with
  | false => rfl
  | true =>
      have positive : 0 < Nat.ofDigitChars 10 whole 0 := by
        have nonzero := notMinusZero rfl
        rw [if_pos rfl] at nonzero
        omega
      rw [if_pos rfl] at least
      simp [positive, least]

def Numeral.ofInt (n : Int) : Numeral := ⟨n < 0, Nat.toDigits 10 n.natAbs, [], none⟩

theorem Numeral.text_ofInt (n : Int) : (ofInt n).text = (toString n).toList := by
  rw [Digits.toList_toString, text, chars, ofInt, fractionChars, exponentChars, List.append_nil,
    List.append_nil]
  by_cases negative : n < 0
  · rw [if_pos negative, if_pos (decide_eq_true negative)]
  · rw [if_neg negative, if_neg (by simpa using negative)]

theorem Numeral.formed_ofInt (n : Int) : (ofInt n).Formed where
  nonempty := Nat.toDigits_ne_nil
  whole := Digits.all_isDigit n.natAbs
  leading zero := by
    change (Nat.toDigits 10 n.natAbs).length = 1
    rw [Digits.head_zero zero, Digits.length_zero]
  fraction := List.forall_mem_nil _
  exponent _ present := by cases present

theorem Numeral.signed_ofInt (n : Int) : (ofInt n).signed = n := by
  rw [signed, ofInt]
  simp only [Nat.ofDigitChars_ten_toDigits, decide_eq_true_eq]
  split <;> omega

theorem Numeral.value_ofInt {n : Int} (inWords : InWords n) :
    (ofInt n).value = some (.integer n) := by
  have same := signed_ofInt n
  have value : (ofInt n).value = some (.integer (ofInt n).signed) := by
    apply value_of_plain rfl rfl
    · rwa [same]
    · intro negative
      rw [same]
      exact (of_decide_eq_true negative).ne
  rw [value, same]

def Proper : JsonNumber → Prop
  | .integer n => InWords n
  | .double x => x.Canonical

theorem absorb_le (digits : List Char) {value : Nat} (bounded : value ≤ Word.greatestUInt64) :
    (absorb value digits).1 ≤ Word.greatestUInt64 := by
  induction digits generalizing value with
  | nil => exact bounded
  | cons c rest ih =>
      rw [absorb]
      split
      · rename_i next
        exact ih next
      · exact bounded

theorem Numeral.proper_value {n : Numeral} {number : JsonNumber} (read : n.value = some number) :
    Proper number := by
  have double {x : Option Binary64} (canonical : ∀ y, x = some y → y.Canonical)
      (signed : x.map (fun y => JsonNumber.double (if n.negative then y.neg else y)) =
        some number) : Proper number := by
    obtain ⟨y, rounded, rfl⟩ := Option.map_eq_some_iff.mp signed
    change Binary64.Canonical _
    split
    · exact (canonical y rounded).neg
    · exact canonical y rounded
  have bounded : (absorb 0 n.whole).1 ≤ Word.greatestUInt64 := absorb_le n.whole (Nat.zero_le _)
  unfold value at read
  simp only at read
  split at read
  · split at read
    · cases read
      have least : Word.leastInt64 ≤ 0 := by decide
      exact ⟨by omega, by omega⟩
    · split at read
      · rename_i inRange
        rw [Bool.and_eq_true, decide_eq_true_eq, decide_eq_true_eq] at inRange
        cases read
        exact ⟨inRange.2, by omega⟩
      · exact double (fun _ => Binary64.canonical_ofRatio Nat.one_pos) read
  · exact double (fun _ => Binary64.canonical_ofScientific) read

theorem skipSpace_cons {c : Char} (visible : isSpace (some c) = false) (rest : List Symbol) :
    skipSpace (some c :: rest) = some c :: rest := by
  rw [skipSpace, List.dropWhile_cons_of_neg (by simp [visible])]

theorem isSpace_of_isDigit {c : Char} (digit : c.isDigit = true) : isSpace (some c) = false := by
  have blank := Digits.ne_of_isDigit digit (show ' '.isDigit = false by decide)
  have line := Digits.ne_of_isDigit digit (show '\n'.isDigit = false by decide)
  have tab := Digits.ne_of_isDigit digit (show '\t'.isDigit = false by decide)
  have back := Digits.ne_of_isDigit digit (show '\r'.isDigit = false by decide)
  simp [isSpace, blank, line, tab, back]

theorem readValue_digit (fuel : Nat) {c : Char} (digit : c.isDigit = true) (rest : List Symbol) :
    readValue (fuel + 1) (some c :: rest) =
      match readNumeral false (some c :: rest) with
      | some (numeral, after) => (.number numeral.value, some after)
      | none => (.broken, none) := by
  rw [readValue, skipSpace_cons (isSpace_of_isDigit digit)]
  split
  case h_8 => rfl
  all_goals
    rename_i same
    cases same
    exact absurd digit (by decide)

end Devnet.RawJson
