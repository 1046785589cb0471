import Devnet.Proofs.Json.Reading
import Devnet.Proofs.Json.Values
import Devnet.Proofs.Number.Shortest
import Devnet.Proofs.Table.Matches
import Mathlib

/-! Every double of the format is written as a numeral that a reader finds in range. It is read as some
double again, though not always as the same one; so what is read of a value is a function of the value. -/

namespace Devnet

namespace Digits

theorem all_zeros (n : Nat) : ∀ c ∈ Binary64.zeros n, c.isDigit = true := by
  intro c member
  rw [List.eq_of_mem_replicate member]
  rfl

end Digits

namespace RawJson

open Binary64

namespace Numeral

def digits (n : Numeral) : Nat := Nat.ofDigitChars 10 (n.whole ++ n.fraction) 0

def shift : Option (Bool × List Char) → Int
  | none => 0
  | some (negative, digits) =>
    let power : Int := Nat.ofDigitChars 10 digits 0
    if negative then -power else power

def power (n : Numeral) : Int := shift n.exponent - n.fraction.length

/-- A number with a point or an exponent mark is a double, as long as its digits are in range. -/
theorem isSome_value {n : Numeral} (marked : n.fraction ≠ [] ∨ n.exponent ≠ none)
    (bits : n.digits ≤ Word.greatestUInt64)
    (inRange : (ofScientific n.digits n.power).isSome = true) : n.value.isSome = true := by
  have notInteger (dropped : Nat) :
      ¬(n.fraction.isEmpty && n.exponent.isNone && dropped == 0) = true := by
    rw [Bool.and_eq_true, Bool.and_eq_true, List.isEmpty_iff, Option.isNone_iff_eq_none]
    intro plain
    rcases marked with fraction | exponent
    · exact fraction plain.1.1
    · exact exponent plain.1.2
  have split : Nat.ofDigitChars 10 n.fraction (Nat.ofDigitChars 10 n.whole 0) = n.digits :=
    (Nat.ofDigitChars_append 0).symm
  have whole := absorb_eq ((Digits.le_ofDigitChars n.fraction _).trans (split.le.trans bits))
  have all := absorb_eq (split.le.trans bits)
  rw [split] at all
  unfold value
  rw [whole]
  simp only
  rw [if_neg (notInteger 0), all, Option.isSome_map]
  have power : n.power = shift n.exponent + (0 : Nat) - ((n.fraction.length - 0 : Nat) : Int) := by
    rw [Numeral.power, Nat.sub_zero, Nat.cast_zero, add_zero]
  rw [power] at inRange
  exact inRange

def ofLayout (negative : Bool) (digits : List Char) (point : Int) : Numeral :=
  if (digits.length : Int) ≤ point && point ≤ 16 then
    ⟨negative, digits ++ zeros (point.toNat - digits.length), ['0'], none⟩
  else if 0 < point && point ≤ 16 then
    ⟨negative, digits.take point.toNat, digits.drop point.toNat, none⟩
  else if -5 < point && point ≤ 0 then
    ⟨negative, ['0'], zeros (-point).toNat ++ digits, none⟩
  else
    ⟨negative, digits.take 1, digits.drop 1,
      some (decide (point - 1 < 0), Nat.toDigits 10 (point - 1).natAbs)⟩

theorem negative_ofLayout (negative : Bool) (digits : List Char) (point : Int) :
    (ofLayout negative digits point).negative = negative := by
  unfold ofLayout
  split
  · rfl
  · split
    · rfl
    · split <;> rfl

variable {negative : Bool} {digits : List Char} {point : Int}

theorem fractionChars_of_ne_nil {digits : List Char} (some : digits ≠ []) :
    fractionChars digits = '.' :: digits := by
  cases digits with
  | nil => exact absurd rfl some
  | cons => rfl

theorem chars_ofLayout (nonempty : digits ≠ []) :
    (ofLayout negative digits point).chars = layout digits point := by
  unfold ofLayout layout
  split
  · rw [chars, fractionChars, exponentChars, List.append_nil]
    exact List.cons_ne_nil _ _
  · rename_i long
    split
    · rename_i inside
      rw [Bool.and_eq_true, decide_eq_true_eq, decide_eq_true_eq] at long inside
      have behind : digits.drop point.toNat ≠ [] := by
        rw [Ne, List.drop_eq_nil_iff]
        omega
      rw [chars, fractionChars_of_ne_nil behind, exponentChars, List.append_nil]
    · split
      · have behind : zeros (-point).toNat ++ digits ≠ [] := by simp [nonempty]
        rw [chars, fractionChars_of_ne_nil behind, exponentChars, List.append_nil]
        rfl
      · have mark : exponentChars (some (decide (point - 1 < 0),
            Nat.toDigits 10 (point - 1).natAbs)) = exponentMark (point - 1) := by
          rw [exponentChars, exponentMark]
          by_cases below : point - 1 < 0
          · rw [if_pos below, if_pos (decide_eq_true below)]
          · rw [if_neg below, if_neg (by simpa using below)]
        rw [chars, mark]
        cases digits with
        | nil => exact absurd rfl nonempty
        | cons d more =>
            cases more with
            | nil => rfl
            | cons => rfl

theorem formed_ofLayout (nonempty : digits ≠ []) (all : ∀ c ∈ digits, c.isDigit = true)
    (leading : digits.head? ≠ some '0') : (ofLayout negative digits point).Formed := by
  have taken (n : Nat) : ∀ c ∈ digits.take n, c.isDigit = true := fun c member =>
    all c (List.mem_of_mem_take member)
  have dropped (n : Nat) : ∀ c ∈ digits.drop n, c.isDigit = true := fun c member =>
    all c (List.mem_of_mem_drop member)
  have start {n : Nat} (some : 0 < n) : digits.take n ≠ [] ∧ (digits.take n).head? ≠ .some '0' := by
    obtain ⟨n, rfl⟩ := Nat.exists_eq_add_one.mpr some
    cases digits with
    | nil => exact absurd rfl nonempty
    | cons c rest => exact ⟨List.cons_ne_nil _ _, leading⟩
  have none : ∀ e ∈ (none : Option (Bool × List Char)), e.2 ≠ [] ∧ ∀ c ∈ e.2, c.isDigit = true :=
    fun _ present => by cases present
  unfold ofLayout
  split
  · refine ⟨by simp [nonempty], ?_, ?_, List.forall_mem_singleton.mpr rfl, none⟩
    · exact List.forall_mem_append.mpr ⟨all, Digits.all_zeros _⟩
    · intro zero
      rw [List.head?_append_of_ne_nil _ nonempty] at zero
      exact absurd zero leading
  · split
    · rename_i inside
      rw [Bool.and_eq_true, decide_eq_true_eq, decide_eq_true_eq] at inside
      have first := start (n := point.toNat) (by omega)
      exact ⟨first.1, taken _, fun zero => absurd zero first.2, dropped _, none⟩
    · split
      · refine ⟨by simp, List.forall_mem_singleton.mpr rfl, fun _ => rfl, ?_, none⟩
        exact List.forall_mem_append.mpr ⟨Digits.all_zeros _, all⟩
      · have first := start (n := 1) Nat.one_pos
        refine ⟨first.1, taken 1, fun zero => absurd zero first.2, dropped 1, ?_⟩
        intro mark present
        cases present
        exact ⟨Nat.toDigits_ne_nil, Digits.all_isDigit _⟩

theorem shift_toDigits (power : Int) :
    shift (some (decide (power < 0), Nat.toDigits 10 power.natAbs)) = power := by
  rw [shift]
  simp only [Nat.ofDigitChars_ten_toDigits, decide_eq_true_eq]
  split <;> omega

/-- Digits behind the point scale the others down, and so they are in range. -/
theorem isSome_value_of_neg {n : Numeral} (few : n.digits ≤ 10 ^ 17) (scaledDown : n.power < 0)
    (marked : n.fraction ≠ []) : n.value.isSome = true := by
  apply isSome_value (Or.inl marked) (few.trans (by decide))
  exact isSome_ofScientific_of_neg (few.trans_lt (by decide)) scaledDown

theorem ofDigitChars_filled (all : ∀ c ∈ digits, c.isDigit = true) {more : Nat}
    (few : digits.length + more ≤ 16) :
    Nat.ofDigitChars 10 (digits ++ zeros more ++ ['0']) 0 ≤ 10 ^ 17 := by
  have each : ∀ c ∈ digits ++ zeros more ++ ['0'], c.isDigit = true := by
    rw [List.forall_mem_append, List.forall_mem_append]
    exact ⟨⟨all, Digits.all_zeros _⟩, List.forall_mem_singleton.mpr rfl⟩
  have length : (digits ++ zeros more ++ ['0']).length ≤ 17 := by
    simp only [List.length_append, zeros, List.length_replicate, List.length_singleton]
    omega
  have less := Digits.ofDigitChars_lt each 0
  rw [Nat.zero_add, Nat.one_mul] at less
  exact less.le.trans (Nat.pow_le_pow_right (by decide) length)

theorem ofDigitChars_behind_zeros (digits : List Char) (n : Nat) :
    Nat.ofDigitChars 10 (['0'] ++ (zeros n ++ digits)) 0 = Nat.ofDigitChars 10 digits 0 := by
  rw [Nat.ofDigitChars_append, Nat.ofDigitChars_append, zeros, Nat.ofDigitChars_replicate_zero]
  rfl

/-- Seventeen digits are in range wherever the point is, if they are where the number has it. -/
theorem isSome_ofLayout (nonempty : digits ≠ []) (all : ∀ c ∈ digits, c.isDigit = true)
    (few : Nat.ofDigitChars 10 digits 0 ≤ 10 ^ 17)
    (inRange : (ofScientific (Nat.ofDigitChars 10 digits 0) (point - digits.length)).isSome = true) :
    (ofLayout negative digits point).value.isSome = true := by
  have start : 0 < digits.length := List.length_pos_of_ne_nil nonempty
  unfold ofLayout
  split
  · rename_i long
    rw [Bool.and_eq_true, decide_eq_true_eq, decide_eq_true_eq] at long
    apply isSome_value_of_neg
    · exact ofDigitChars_filled all (by omega)
    · change (0 : Int) - 1 < 0
      decide
    · exact List.cons_ne_nil _ _
  · rename_i long
    split
    · rename_i inside
      rw [Bool.and_eq_true, decide_eq_true_eq, decide_eq_true_eq] at long inside
      have length : 0 < (digits.drop point.toNat).length := by
        rw [List.length_drop]
        omega
      apply isSome_value_of_neg
      · rw [Numeral.digits, List.take_append_drop]
        exact few
      · change (0 : Int) - (digits.drop point.toNat).length < 0
        omega
      · exact List.ne_nil_of_length_pos length
    · split
      · apply isSome_value_of_neg
        · exact (ofDigitChars_behind_zeros digits _).le.trans few
        · change (0 : Int) - (zeros (-point).toNat ++ digits).length < 0
          rw [List.length_append]
          omega
        · simp [nonempty]
      · have together : Nat.ofDigitChars 10 (digits.take 1 ++ digits.drop 1) 0 =
            Nat.ofDigitChars 10 digits 0 := by rw [List.take_append_drop]
        have power : shift (some (decide (point - 1 < 0), Nat.toDigits 10 (point - 1).natAbs)) -
            (digits.drop 1).length = point - digits.length := by
          rw [shift_toDigits, List.length_drop]
          omega
        apply isSome_value (Or.inr (Option.some_ne_none _))
        · exact together.le.trans (few.trans (by decide))
        · change (ofScientific (Nat.ofDigitChars 10 (digits.take 1 ++ digits.drop 1) 0)
            (shift _ - (digits.drop 1).length)).isSome = true
          rw [together, power]
          exact inRange

def ofDouble (x : Binary64) : Numeral :=
  if x.mantissa = 0 then ⟨x.negative, ['0'], ['0'], none⟩
  else
    let digits := Nat.toDigits 10 x.printed.digits
    ofLayout x.negative digits (digits.length + x.printed.power)

theorem text_ofDouble (x : Binary64) : (ofDouble x).text = x.renderChars := by
  unfold ofDouble renderChars
  by_cases zero : x.mantissa = 0
  · rw [if_pos zero, if_pos zero, text]
    cases x.negative with
    | false => rfl
    | true => rfl
  · rw [if_neg zero, if_neg zero]
    simp only
    rw [text, chars_ofLayout Nat.toDigits_ne_nil, negative_ofLayout]
    cases x.negative with
    | false => rfl
    | true => rfl

theorem formed_ofDouble {x : Binary64} (canonical : x.Canonical) : (ofDouble x).Formed := by
  unfold ofDouble
  split
  · exact ⟨List.cons_ne_nil _ _, List.forall_mem_singleton.mpr rfl, fun _ => rfl,
      List.forall_mem_singleton.mpr rfl, fun _ present => by cases present⟩
  · rename_i nonzero
    apply formed_ofLayout Nat.toDigits_ne_nil (Digits.all_isDigit _)
    intro zero
    exact (printable_printed canonical nonzero).positive.ne' (Digits.head_zero zero)

theorem isSome_ofDouble {x : Binary64} (canonical : x.Canonical) :
    (ofDouble x).value.isSome = true := by
  unfold ofDouble
  split
  · apply isSome_value (Or.inl (List.cons_ne_nil _ _))
    · exact Nat.zero_le _
    · rfl
  · rename_i nonzero
    have inRange := isSome_ofScientific_printed canonical nonzero
    apply isSome_ofLayout Nat.toDigits_ne_nil (Digits.all_isDigit _)
    · rw [Nat.ofDigitChars_ten_toDigits]
      exact (printable_printed canonical nonzero).digits
    · rw [Nat.ofDigitChars_ten_toDigits, add_sub_cancel_left]
      exact inRange

end Numeral

end RawJson

namespace JsonNumber

def again : JsonNumber → Option JsonNumber
  | .integer n => some (.integer n)
  | .double x => (RawJson.Numeral.ofDouble x).value

def Steady (n : JsonNumber) : Prop := n.again = some n

theorem Whole.steady {n : JsonNumber} (whole : n.Whole) : n.Steady := by
  cases n with
  | integer => rfl
  | double => exact absurd whole id

theorem Whole.proper {n : JsonNumber} (whole : n.Whole) : RawJson.Proper n := by
  cases n with
  | integer => exact whole
  | double => exact absurd whole id

end JsonNumber

namespace RawJson

open JsonNumber

mutual

def reading : Json → RawJson
  | .null => .null
  | .bool value => .bool value
  | .number n => .number n.again
  | .string text => .string (some text)
  | .array items => .array (readingItems items)
  | .object members => .object (readingMembers members)

def readingItems : List Json → List RawJson
  | [] => []
  | item :: items => reading item :: readingItems items

def readingMembers : List (String × Json) → List (Option String × RawJson)
  | [] => []
  | (key, value) :: members => (some key, reading value) :: readingMembers members

end

theorem reading_array (items : List Json) : reading (.array items) = .array (items.map reading) := by
  rw [reading]
  congr 1
  induction items with
  | nil => rfl
  | cons item items ih => rw [readingItems, ih, List.map_cons]

theorem reading_object (members : List (String × Json)) : reading (.object members) =
    .object (members.map fun member => (some member.1, reading member.2)) := by
  rw [reading]
  congr 1
  induction members with
  | nil => rfl
  | cons member members ih =>
      obtain ⟨key, value⟩ := member
      rw [readingMembers, ih, List.map_cons]

variable {room : Nat} {value : Json}

theorem readable_again {n : JsonNumber} (proper : Proper n) :
    Readable (.number n) (.number n.again) := by
  cases n with
  | integer => exact readable_integer proper
  | double => exact readable_numeral (Numeral.formed_ofDouble proper) (Numeral.text_ofDouble _).symm

theorem readable_reading (within : value.Within Proper room) : Readable value (reading value) := by
  induction within with
  | null => exact readable_null
  | bool _ value => exact readable_bool value
  | number _ proper => exact readable_again proper
  | string _ text => exact readable_string text
  | array _ ih =>
      rw [reading_array]
      apply readable_array
      rw [List.forall₂_map_right_iff, List.forall₂_same]
      exact ih
  | object _ ih =>
      rw [reading_object]
      apply readable_object
      rw [List.forall₂_map_right_iff, List.forall₂_same]
      exact fun member inside => ⟨rfl, ih member inside⟩

theorem reading_eq_ofJson (within : value.Within Steady room) : reading value = ofJson value := by
  induction within with
  | null | bool | string => rfl
  | number _ steady => exact congrArg RawJson.number steady
  | array _ ih => rw [reading_array, ofJson_array, List.map_congr_left ih]
  | object _ ih =>
      rw [reading_object, ofJson_object]
      exact congrArg RawJson.object (List.map_congr_left fun member inside =>
        Prod.ext rfl (ih member inside))

theorem readable_of_tidy (tidy : value.Tidy room) : Readable value (ofJson value) := by
  rw [← reading_eq_ofJson (tidy.imp fun _ => Whole.steady)]
  exact readable_reading (tidy.imp fun _ => Whole.proper)

theorem ofBytes_encode (tidy : value.Tidy room) :
    Document.ofBytes (Utf8.encode value.chars) = ⟨ofJson value, true⟩ :=
  (readable_of_tidy tidy).ofBytes_encode

theorem readable_proper {n : JsonNumber} (proper : Proper n) :
    ∃ m, Readable (.number n) (.number (some m)) := by
  have found : n.again.isSome = true := by
    cases n with
    | integer => rfl
    | double => exact Numeral.isSome_ofDouble proper
  obtain ⟨m, same⟩ := Option.isSome_iff_exists.mp found
  exact ⟨m, same ▸ readable_again proper⟩

theorem Readable.unique {value : Json} {raw other : RawJson} (readable : Readable value raw)
    (readable' : Readable value other) : raw = other := by
  have same := readable.ofBytes_encode.symm.trans readable'.ofBytes_encode
  exact (Document.mk.inj same).1

def ReadAgain (room : Nat) (value again : Json) : Prop :=
  ∃ raw, Readable value raw ∧ toJson room raw = .ok again

theorem readAgain_array {room : Nat} {items values : List Json}
    (each : List.Forall₂ (ReadAgain room) items values) :
    ReadAgain (room + 1) (.array items) (.array values) := by
  obtain ⟨raws, readable, read⟩ := exists_between each
  exact ⟨.array raws, readable_array readable, map_eq_ok.mpr ⟨values, toItems_eq_ok.mpr read, rfl⟩⟩

theorem exists_readMembers {room : Nat} {members entries : List (String × Json)}
    (each : Table.Matches (ReadAgain room) members entries) :
    ∃ raws, Readable (.object members) (.object raws) ∧
      toMembers room [] raws = .ok (Table.ofEntries entries) := by
  have each' : List.Forall₂ (fun member entry => ∃ raw, ReadableMember member raw ∧
      Gives room raw entry) members entries := by
    apply each.imp
    intro member entry both
    obtain ⟨same, raw, readable, read⟩ := both
    exact ⟨(some member.1, raw), ⟨rfl, readable⟩, congrArg some same.symm, read⟩
  obtain ⟨raws, readable, read⟩ := exists_between each'
  exact ⟨raws, readable_object readable, toMembers_eq_ok.mpr ⟨entries, read, rfl⟩⟩

/-- A value with proper numbers is written so that it can be read. -/
theorem exists_readAgain {room : Nat} {value : Json} (within : value.Within Proper room) :
    ∃ again, ReadAgain room value again := by
  induction within with
  | null => exact ⟨.null, .null, readable_null, rfl⟩
  | bool _ value => exact ⟨.bool value, .bool value, readable_bool value, rfl⟩
  | number _ proper =>
      obtain ⟨m, readable⟩ := readable_proper proper
      exact ⟨.number m, _, readable, rfl⟩
  | string _ text => exact ⟨.string text, _, readable_string text, rfl⟩
  | array _ ih =>
      obtain ⟨values, each⟩ := exists_forall₂ ih
      exact ⟨.array values, readAgain_array each⟩
  | object _ ih =>
      obtain ⟨entries, each⟩ := Table.exists_matches ih
      obtain ⟨raws, readable, read⟩ := exists_readMembers each
      exact ⟨_, .object raws, readable, map_eq_ok.mpr ⟨_, read, rfl⟩⟩

theorem ReadAgain.eq_normal {room : Nat} {value again : Json}
    (read : ReadAgain room value again) (tidy : value.Tidy room) : again = value.normal := by
  obtain ⟨raw, readable, taken⟩ := read
  rw [readable.unique (readable_of_tidy tidy), toJson_ofJson tidy] at taken
  exact (Except.ok.inj taken).symm

end RawJson
end Devnet
