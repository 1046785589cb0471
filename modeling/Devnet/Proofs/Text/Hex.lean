import Devnet.Text.Hex
import Devnet.Proofs.Fault.Outcome
import Devnet.Proofs.Text.Ascii
import Mathlib

namespace Devnet.Hex

def halves (b : UInt8) : List Nat := [b.toNat / 16, b.toNat % 16]

theorem halves_lt (bytes : Bytes) : ∀ n ∈ bytes.flatMap halves, n < 16 := by
  intro n member
  rcases List.mem_flatMap.mp member with ⟨b, -, inside⟩
  have bound := b.toNat_lt
  rcases List.mem_pair.mp inside with rfl | rfl <;> omega

theorem length_halves (bytes : Bytes) : (bytes.flatMap halves).length = 2 * bytes.length := by
  induction bytes with
  | nil => rfl
  | cons b bytes ih =>
      rw [List.flatMap_cons, List.length_append, ih, List.length_cons, halves, List.length_cons,
        List.length_singleton]
      omega

theorem toList_encode (bytes : Bytes) :
    (encode bytes).toList = (bytes.flatMap halves).map (lowerDigits.getD · '0') := by
  rw [encode, String.toList_ofList, List.map_flatMap]
  rfl

theorem toList_encodeUpper (bytes : Bytes) :
    (encodeUpper bytes).toList = (bytes.flatMap halves).map (upperDigits.getD · '0') := by
  rw [encodeUpper, String.toList_ofList, List.map_flatMap]
  rfl

theorem toLower_encode (bytes : Bytes) : (encode bytes).toLower = encode bytes := by
  have each : ∀ n < 16, (lowerDigits.getD n '0').toLower = lowerDigits.getD n '0' := by decide
  rw [← String.toList_inj, String.toLower, String.toList_map, toList_encode, List.map_map]
  exact List.map_congr_left fun n member => each n (halves_lt bytes n member)

theorem toLower_encodeUpper (bytes : Bytes) : (encodeUpper bytes).toLower = encode bytes := by
  have each : ∀ n < 16, (upperDigits.getD n '0').toLower = lowerDigits.getD n '0' := by decide
  rw [← String.toList_inj, String.toLower, String.toList_map, toList_encode, toList_encodeUpper,
    List.map_map]
  exact List.map_congr_left fun n member => each n (halves_lt bytes n member)

theorem toUpper_encode (bytes : Bytes) : (encode bytes).toUpper = encodeUpper bytes := by
  have each : ∀ n < 16, (lowerDigits.getD n '0').toUpper = upperDigits.getD n '0' := by decide
  rw [← String.toList_inj, String.toUpper, String.toList_map, toList_encode, toList_encodeUpper,
    List.map_map]
  exact List.map_congr_left fun n member => each n (halves_lt bytes n member)

theorem digit?_lt {b : UInt8} {n : Nat} (read : digit? b = some n) : n < 16 := by
  unfold digit? at read
  simp only [Bool.and_eq_true, decide_eq_true_eq, UInt8.le_iff_toNat_le, UInt8.reduceToNat] at read
  grind

theorem digit?_of_high {b : UInt8} (high : 0x80 ≤ b) : digit? b = none := by
  unfold digit?
  simp only [Bool.and_eq_true, decide_eq_true_eq, UInt8.le_iff_toNat_le, UInt8.reduceToNat] at high ⊢
  rw [if_neg (by omega), if_neg (by omega), if_neg (by omega)]

theorem digit?_iff {c : Char} {n : Nat} :
    c.toNat < 0x80 ∧ digit? c.val.toUInt8 = some n ↔ n < 16 ∧ c.toLower = lowerDigits.getD n '0' := by
  have read : c.toNat < 0x80 →
      ∀ n ∈ digit? c.val.toUInt8, n < 16 ∧ c.toLower = lowerDigits.getD n '0' :=
    fun ascii => forall_ascii ascii (by decide +kernel)
  have written : c.toNat < 0x80 →
      ∀ n < 16, c.toLower = lowerDigits.getD n '0' → digit? c.val.toUInt8 = some n :=
    fun ascii => forall_ascii ascii (by decide +kernel)
  have small : ∀ n < 16, (lowerDigits.getD n '0').toNat < 0x80 := by decide
  constructor
  · rintro ⟨ascii, found⟩
    exact read ascii n found
  · rintro ⟨bound, lowered⟩
    have ascii : c.toNat < 0x80 := toNat_lt_of_toLower (lowered ▸ small n bound)
    exact ⟨ascii, written ascii n bound lowered⟩

theorem map_digit?_encode {text : List Char} {digits : List Nat} :
    (Utf8.encode text).map digit? = digits.map some ↔
      (∀ n ∈ digits, n < 16) ∧ text.map Char.toLower = digits.map (lowerDigits.getD · '0') := by
  induction text generalizing digits with
  | nil => cases digits <;> simp [Utf8.encode]
  | cons c text ih =>
      rw [show Utf8.encode (c :: text) = String.utf8EncodeChar c ++ Utf8.encode text from rfl,
        List.map_append]
      cases digits with
      | nil => simp
      | cons n digits =>
          rw [List.map_cons, List.map_cons, List.map_cons, List.cons.injEq, List.forall_mem_cons,
            and_and_and_comm, ← ih, ← digit?_iff]
          by_cases ascii : c.toNat < 0x80
          · simp only [Utf8.encodeChar_of_ascii ascii, ascii, true_and, List.map_cons, List.map_nil,
              List.singleton_append, List.cons.injEq]
          · -- Neither side takes the character: its first byte is no digit.
            obtain ⟨lead, tail, written, high⟩ := Utf8.encodeChar_of_wide ascii
            simp [written, digit?_of_high high, ascii]

theorem decodePairs_eq_ok_iff {index : Nat} {raw bytes : Bytes} :
    decodePairs index raw = .ok bytes ↔ raw.map digit? = (bytes.flatMap halves).map some := by
  fun_induction decodePairs index raw generalizing bytes with
  | case1 index => cases bytes <;> simp [halves]
  | case2 index b => cases bytes <;> simp [halves]
  | case3 index high low rest unread => cases bytes <;> simp [halves, unread]
  | case4 index high low rest h unread read => cases bytes <;> simp [halves, unread]
  | case5 index high low rest h l readHigh readLow ih =>
      have boundHigh := digit?_lt readHigh
      have boundLow := digit?_lt readLow
      rw [map_eq_ok]
      cases bytes with
      | nil => simp
      | cons b bytes =>
          have small : h * 16 + l < UInt8.size := by
            rw [UInt8.size]
            omega
          have value : (h * 16 + l).toUInt8 = b ↔ h = b.toNat / 16 ∧ l = b.toNat % 16 := by
            rw [← UInt8.toNat_inj, Nat.toUInt8, UInt8.toNat_ofNat_of_lt' small]
            omega
          simp only [ih, List.map_cons, List.flatMap_cons, halves, List.cons_append, List.nil_append,
            readHigh, readLow, List.cons.injEq, Option.some.injEq, value]
          constructor
          · rintro ⟨_, others, ⟨sameHigh, sameLow⟩, rfl⟩
            exact ⟨sameHigh, sameLow, others⟩
          · rintro ⟨sameHigh, sameLow, others⟩
            exact ⟨bytes, others, ⟨sameHigh, sameLow⟩, rfl⟩

theorem decode_eq_ok {text : String} {bytes : Bytes} :
    decode text = .ok bytes ↔ decodePairs 0 (Utf8.ofString text) = .ok bytes := by
  unfold decode
  by_cases odd : (Utf8.ofString text).length % 2 = 1
  · simp only [odd, if_true, reduceCtorEq, false_iff]
    intro read
    have lengths := congrArg List.length (decodePairs_eq_ok_iff.mp read)
    rw [List.length_map, List.length_map, length_halves] at lengths
    omega
  · simp only [odd, if_false]

theorem decode_eq_ok_iff {text : String} {bytes : Bytes} :
    decode text = .ok bytes ↔ text.toLower = encode bytes := by
  rw [decode_eq_ok, decodePairs_eq_ok_iff, Utf8.ofString, map_digit?_encode, ← String.toList_inj,
    toList_encode, String.toLower, String.toList_map]
  exact and_iff_right (halves_lt bytes)

theorem encode_injective : Function.Injective encode := by
  intro a b same
  have readA : decode (encode a) = .ok a := decode_eq_ok_iff.mpr (toLower_encode a)
  have readB : decode (encode b) = .ok b := decode_eq_ok_iff.mpr (toLower_encode b)
  rw [same, readB] at readA
  exact (Except.ok.inj readA).symm

theorem encodeUpper_injective : Function.Injective encodeUpper := by
  intro a b same
  apply encode_injective
  rw [← toLower_encodeUpper, same, toLower_encodeUpper]

/-- Of the texts that are read as some bytes the capitals are the one without small letters. -/
theorem eq_encodeUpper_iff {text : String} {bytes : Bytes} :
    text = encodeUpper bytes ↔ decode text = .ok bytes ∧ text.toUpper = text := by
  rw [decode_eq_ok_iff]
  constructor
  · rintro rfl
    refine ⟨toLower_encodeUpper bytes, ?_⟩
    rw [← Text.toUpper_toLower, toLower_encodeUpper, toUpper_encode]
  · rintro ⟨lowered, raised⟩
    calc
      text = text.toLower.toUpper := by rw [Text.toUpper_toLower, raised]
      _ = (encode bytes).toUpper := by rw [lowered]
      _ = encodeUpper bytes := toUpper_encode bytes

end Devnet.Hex
