import Devnet.Json.Printer
import Devnet.Json.Reader
import Mathlib

namespace Devnet.RawJson

theorem hexDigit?_digitChar {n : Nat} (digit : n < 16) : hexDigit? (Nat.digitChar n) = some n := by
  interval_cases n <;> rfl

theorem joinPieces_unit {code : Nat} (low : code < 0xD800) (rest : List Piece) :
    joinPieces (.unit code :: rest) = (joinPieces rest).map (Char.ofNat code :: ·) := by
  have notHigh : isHighSurrogate code = false := by
    simp only [isHighSurrogate, Bool.and_eq_false_iff, decide_eq_false_iff_not]
    omega
  have notLow : isLowSurrogate code = false := by
    simp only [isLowSurrogate, Bool.and_eq_false_iff, decide_eq_false_iff_not]
    omega
  cases rest with
  | nil => simp [joinPieces, notHigh, notLow]
  | cons piece rest => cases piece <;> simp [joinPieces, notHigh, notLow]

def Spells (written : List Char) (c : Char) : Prop :=
  ∃ piece, (∀ tail : List Symbol, readPieces .plain (written.map some ++ tail) =
    (readPieces .plain tail).map fun (pieces, after) => (piece :: pieces, after)) ∧
    ∀ pieces, joinPieces (piece :: pieces) = (joinPieces pieces).map (c :: ·)

theorem spells_simple {mark c : Char} (notUnit : mark ≠ 'u') (known : simpleEscape? mark = some c) :
    Spells ['\\', mark] c := by
  refine ⟨.char c, fun tail => ?_, fun pieces => rfl⟩
  show readPieces .plain (some '\\' :: some mark :: tail) = _
  rw [readPieces, if_neg (by decide), if_pos rfl, readPieces, if_neg notUnit, known]

theorem spells_unit {c : Char} (control : c.toNat < 0x20) :
    Spells ['\\', 'u', '0', '0', Nat.digitChar (c.toNat / 16), Nat.digitChar (c.toNat % 16)] c := by
  refine ⟨.unit c.toNat, fun tail => ?_, fun pieces => ?_⟩
  · have high := hexDigit?_digitChar (show c.toNat / 16 < 16 by omega)
    have low := hexDigit?_digitChar (show c.toNat % 16 < 16 by omega)
    have zero : hexDigit? '0' = some 0 := rfl
    have value : ((0 * 16 + 0) * 16 + 0) * 16 + c.toNat / 16 = c.toNat / 16 := by omega
    have whole : c.toNat / 16 * 16 + c.toNat % 16 = c.toNat := by omega
    show readPieces .plain (some '\\' :: some 'u' :: some '0' :: some '0' :: some _ :: some _ :: tail) = _
    rw [readPieces, if_neg (by decide), if_pos rfl, readPieces, if_pos rfl]
    simp only [readPieces, zero, high, low, value, whole]
  · rw [joinPieces_unit (by omega), Char.ofNat_toNat]

theorem spells_plain {c : Char} (quote : c ≠ '\x22') (backslash : c ≠ '\\')
    (visible : ¬c.toNat < 0x20) :
    Spells [c] c := by
  refine ⟨.char c, fun tail => ?_, fun pieces => rfl⟩
  show readPieces .plain (some c :: tail) = _
  rw [readPieces, if_neg quote, if_neg backslash, if_neg visible]

theorem spells_escape (c : Char) : Spells (Json.escape c) c := by
  unfold Json.escape
  split_ifs with quote backslash backspace tab line form back control
  · rw [quote]
    exact spells_simple (by decide) rfl
  · rw [backslash]
    exact spells_simple (by decide) rfl
  · rw [backspace]
    exact spells_simple (by decide) rfl
  · rw [tab]
    exact spells_simple (by decide) rfl
  · rw [line]
    exact spells_simple (by decide) rfl
  · rw [form]
    exact spells_simple (by decide) rfl
  · rw [back]
    exact spells_simple (by decide) rfl
  · exact spells_unit control
  · exact spells_plain quote backslash control

theorem readPieces_escape (text : List Char) (rest : List Symbol) :
    ∃ pieces, readPieces .plain ((text.flatMap Json.escape).map some ++ some '\x22' :: rest) =
      some (pieces, rest) ∧ joinPieces pieces = some text := by
  induction text with
  | nil => exact ⟨[], rfl, rfl⟩
  | cons c text ih =>
      obtain ⟨pieces, read, joined⟩ := ih
      obtain ⟨piece, step, join⟩ := spells_escape c
      refine ⟨piece :: pieces, ?_, ?_⟩
      · rw [List.flatMap_cons, List.map_append, List.append_assoc, step, read]
        rfl
      · rw [join, joined]
        rfl

theorem readString_stringChars (text : String) (rest : List Symbol) :
    readString (((text.toList.flatMap Json.escape) ++ ['\x22']).map some ++ rest) =
      some (some text, rest) := by
  obtain ⟨pieces, read, joined⟩ := readPieces_escape text.toList rest
  rw [List.map_append, List.append_assoc]
  unfold readString
  show (readPieces .plain ((text.toList.flatMap Json.escape).map some ++ some '\x22' :: rest)).map _ = _
  rw [read]
  simp only [Option.map_some, joined, String.ofList_toList]

end Devnet.RawJson
