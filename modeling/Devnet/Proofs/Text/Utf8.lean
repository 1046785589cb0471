import Devnet.Text.Utf8
import Mathlib

namespace Devnet.Utf8

private theorem toNat_ofNat {n : Nat} (small : n < 256) : (UInt8.ofNat n).toNat = n := by
  simp [Nat.mod_eq_of_lt small]

private theorem ofNat_lt {n : Nat} (small : n < 256) (m : UInt8) :
    UInt8.ofNat n < m ↔ n < m.toNat := by
  rw [UInt8.lt_iff_toNat_lt, toNat_ofNat small]

private theorem le_ofNat {n : Nat} (small : n < 256) (m : UInt8) :
    m ≤ UInt8.ofNat n ↔ m.toNat ≤ n := by
  rw [UInt8.le_iff_toNat_le, toNat_ofNat small]

private theorem ofNat_le {n : Nat} (small : n < 256) (m : UInt8) :
    UInt8.ofNat n ≤ m ↔ n ≤ m.toNat := by
  rw [UInt8.le_iff_toNat_le, toNat_ofNat small]

private theorem ofNat_eq {n : Nat} (small : n < 256) (m : UInt8) :
    UInt8.ofNat n = m ↔ n = m.toNat := by
  rw [← UInt8.toNat_inj, toNat_ofNat small]

theorem isTail_ofNat {n : Nat} (bits : n < 64) : isTail (UInt8.ofNat (n + 0x80)) = true := by
  have small : n + 0x80 < 256 := by omega
  simp only [isTail, Bool.and_eq_true, decide_eq_true_eq, le_ofNat small, ofNat_le small,
    UInt8.reduceToNat]
  omega

theorem tailBits_ofNat {n : Nat} (bits : n < 64) : tailBits (UInt8.ofNat (n + 0x80)) = n := by
  have small : n + 0x80 < 256 := by omega
  unfold tailBits
  rw [toNat_ofNat small]
  omega

/-- The second byte of three: leads that narrow it exclude what has a shorter form, and surrogates. -/
theorem isSecond_of_three {high low : Nat} (highBits : high < 16) (lowBits : low < 64)
    (long : 32 ≤ high * 64 + low) (valid : high * 64 + low < 0x360 ∨ 0x380 ≤ high * 64 + low) :
    isSecond (UInt8.ofNat (high + 0xE0)) (UInt8.ofNat (low + 0x80)) = true := by
  have lead : high + 0xE0 < 256 := by omega
  have second : low + 0x80 < 256 := by omega
  simp only [isSecond, ofNat_eq lead, isTail_ofNat lowBits]
  simp only [UInt8.reduceToNat]
  split
  · simp only [Bool.and_eq_true, decide_eq_true_eq, le_ofNat second, ofNat_le second,
      UInt8.reduceToNat]
    omega
  · split
    · simp only [Bool.and_eq_true, decide_eq_true_eq, le_ofNat second, ofNat_le second,
        UInt8.reduceToNat]
      omega
    · split
      · omega
      · split
        · omega
        · rfl

theorem isSecond_of_four {high low : Nat} (lowBits : low < 64)
    (long : 16 ≤ high * 64 + low) (valid : high * 64 + low < 0x110) :
    isSecond (UInt8.ofNat (high + 0xF0)) (UInt8.ofNat (low + 0x80)) = true := by
  have lead : high + 0xF0 < 256 := by omega
  have second : low + 0x80 < 256 := by omega
  simp only [isSecond, ofNat_eq lead, isTail_ofNat lowBits]
  simp only [UInt8.reduceToNat]
  split
  · omega
  · split
    · omega
    · split
      · simp only [Bool.and_eq_true, decide_eq_true_eq, le_ofNat second, ofNat_le second,
          UInt8.reduceToNat]
        omega
      · split
        · simp only [Bool.and_eq_true, decide_eq_true_eq, le_ofNat second, ofNat_le second,
            UInt8.reduceToNat]
          omega
        · rfl

/-- The lead byte of a character, its tail, and how `head` reads them. -/
def Leads (c : Char) (rest : Bytes) : Prop :=
  ∃ lead tail, String.utf8EncodeChar c = lead :: tail ∧
    head lead (tail ++ rest) = .char c (tail.length + 1)

theorem leads_of_one {c : Char} (small : c.val.toNat ≤ 0x7F) (rest : Bytes) : Leads c rest := by
  refine ⟨UInt8.ofNat c.val.toNat, [], ?_, ?_⟩
  · simp only [String.utf8EncodeChar, small, if_true]
  · have byte : c.val.toNat < 256 := by omega
    simp only [head, ofNat_lt byte, toNat_ofNat byte, UInt8.reduceToNat]
    rw [if_pos (by omega)]
    simp [Char.ofNat_toNat]

theorem leads_of_two {c : Char} (large : ¬c.val.toNat ≤ 0x7F) (small : c.val.toNat ≤ 0x7FF)
    (rest : Bytes) : Leads c rest := by
  generalize value : c.val.toNat = v at *
  have top : v / 64 % 0x20 = v / 64 := Nat.mod_eq_of_lt (by omega)
  refine ⟨UInt8.ofNat (v / 64 + 0xC0), [UInt8.ofNat (v % 64 + 0x80)], ?_, ?_⟩
  · simp only [String.utf8EncodeChar, value, large, small, if_true, if_false, top]
  · have lead : v / 64 + 0xC0 < 256 := by omega
    have bits : v % 64 < 64 := Nat.mod_lt _ (by decide)
    simp only [head, ofNat_lt lead, toNat_ofNat lead, UInt8.reduceToNat, List.singleton_append,
      isTail_ofNat bits, tailBits_ofNat bits]
    rw [if_neg (by omega), if_neg (by omega), if_pos (by omega)]
    have joined : (v / 64 + 0xC0 - 0xC0) * 0x40 + v % 64 = v := by omega
    rw [joined, ← value]
    simp [Char.ofNat_toNat]

theorem leads_of_three {c : Char} (large : ¬c.val.toNat ≤ 0x7FF) (small : c.val.toNat ≤ 0xFFFF)
    (rest : Bytes) : Leads c rest := by
  have valid := c.valid
  simp only [UInt32.isValidChar, Nat.isValidChar] at valid
  generalize value : c.val.toNat = v at *
  have top : v / 4096 % 0x10 = v / 4096 := Nat.mod_eq_of_lt (by omega)
  have short : ¬v ≤ 0x7F := by omega
  refine ⟨UInt8.ofNat (v / 4096 + 0xE0),
    [UInt8.ofNat (v / 64 % 64 + 0x80), UInt8.ofNat (v % 64 + 0x80)], ?_, ?_⟩
  · simp only [String.utf8EncodeChar, value, short, large, small, if_true, if_false, top]
  · have lead : v / 4096 + 0xE0 < 256 := by omega
    have bits : v / 64 % 64 < 64 := Nat.mod_lt _ (by decide)
    have last : v % 64 < 64 := Nat.mod_lt _ (by decide)
    have second : isSecond (UInt8.ofNat (v / 4096 + 0xE0)) (UInt8.ofNat (v / 64 % 64 + 0x80)) = true :=
      isSecond_of_three (by omega) bits (by omega) (by omega)
    simp only [head, ofNat_lt lead, toNat_ofNat lead, UInt8.reduceToNat, List.cons_append,
      List.nil_append, second, isTail_ofNat last, tailBits_ofNat bits, tailBits_ofNat last,
      Bool.not_true, Bool.false_eq_true, if_false]
    rw [if_neg (by omega), if_neg (by omega), if_neg (by omega), if_pos (by omega)]
    have joined : (v / 4096 + 0xE0 - 0xE0) * 0x1000 + v / 64 % 64 * 0x40 + v % 64 = v := by omega
    rw [joined, ← value]
    simp [Char.ofNat_toNat]

theorem leads_of_four {c : Char} (large : ¬c.val.toNat ≤ 0xFFFF) (rest : Bytes) : Leads c rest := by
  have valid := c.valid
  simp only [UInt32.isValidChar, Nat.isValidChar] at valid
  generalize value : c.val.toNat = v at *
  have top : v / 262144 % 0x08 = v / 262144 := Nat.mod_eq_of_lt (by omega)
  have short : ¬v ≤ 0x7F := by omega
  have short' : ¬v ≤ 0x7FF := by omega
  refine ⟨UInt8.ofNat (v / 262144 + 0xF0),
    [UInt8.ofNat (v / 4096 % 64 + 0x80), UInt8.ofNat (v / 64 % 64 + 0x80),
      UInt8.ofNat (v % 64 + 0x80)], ?_, ?_⟩
  · simp only [String.utf8EncodeChar, value, short, short', large, if_false, top]
  · have lead : v / 262144 + 0xF0 < 256 := by omega
    have bits : v / 4096 % 64 < 64 := Nat.mod_lt _ (by decide)
    have third : v / 64 % 64 < 64 := Nat.mod_lt _ (by decide)
    have last : v % 64 < 64 := Nat.mod_lt _ (by decide)
    have second : isSecond (UInt8.ofNat (v / 262144 + 0xF0)) (UInt8.ofNat (v / 4096 % 64 + 0x80)) =
        true := isSecond_of_four bits (by omega) (by omega)
    simp only [head, ofNat_lt lead, toNat_ofNat lead, UInt8.reduceToNat, List.cons_append,
      List.nil_append, second, isTail_ofNat third, isTail_ofNat last, tailBits_ofNat bits,
      tailBits_ofNat third, tailBits_ofNat last, Bool.not_true, Bool.false_eq_true, if_false]
    rw [if_neg (by omega), if_neg (by omega), if_neg (by omega), if_neg (by omega),
      if_pos (by omega)]
    have joined : (v / 262144 + 0xF0 - 0xF0) * 0x40000 + v / 4096 % 64 * 0x1000 +
        v / 64 % 64 * 0x40 + v % 64 = v := by omega
    rw [joined, ← value]
    simp [Char.ofNat_toNat]

theorem leads (c : Char) (rest : Bytes) : Leads c rest := by
  by_cases one : c.val.toNat ≤ 0x7F
  · exact leads_of_one one rest
  · by_cases two : c.val.toNat ≤ 0x7FF
    · exact leads_of_two one two rest
    · by_cases three : c.val.toNat ≤ 0xFFFF
      · exact leads_of_three two three rest
      · exact leads_of_four three rest

theorem scan_skip (tail rest : Bytes) : scan tail.length (tail ++ rest) = scan 0 rest := by
  induction tail with
  | nil => rfl
  | cons b tail ih => exact ih

theorem firstFault_skip (index : Nat) (tail rest : Bytes) :
    firstFault tail.length index (tail ++ rest) = firstFault 0 (index + tail.length) rest := by
  induction tail generalizing index with
  | nil => rfl
  | cons b tail ih =>
      simp only [List.length_cons, List.cons_append, firstFault, ih]
      congr 1
      omega

theorem decode_encode (text : List Char) : decode (encode text) = text.map some := by
  induction text with
  | nil => rfl
  | cons c text ih =>
      obtain ⟨lead, tail, written, read⟩ := leads c (encode text)
      simp only [decode, encode] at ih read ⊢
      rw [List.flatMap_cons, written, List.cons_append, scan, read]
      simp only [Nat.add_sub_cancel, scan_skip, ih, List.map_cons]

theorem firstFault_encode (index : Nat) (text : List Char) :
    firstFault 0 index (encode text) = none := by
  induction text generalizing index with
  | nil => rfl
  | cons c text ih =>
      obtain ⟨lead, tail, written, read⟩ := leads c (encode text)
      simp only [encode] at ih read ⊢
      rw [List.flatMap_cons, written, List.cons_append, firstFault, read]
      simp only [Nat.add_sub_cancel, firstFault_skip, ih]

theorem text_encode (characters : List Char) :
    Utf8.text (encode characters) = .ok (String.ofList characters) := by
  simp [Utf8.text, firstFault_encode, decode_encode]

theorem text_ofString (s : String) : Utf8.text (ofString s) = .ok s := by
  rw [ofString, text_encode, String.ofList_toList]

theorem ofString_injective : Function.Injective ofString := by
  intro a b same
  have read := text_ofString a
  rw [same, text_ofString] at read
  exact (Except.ok.inj read).symm

end Devnet.Utf8
