import Devnet.Proofs.Text.Base64
import Mathlib

/-! Base64 texts one after the other. Padding ends a block and not the text, so the texts that are read
are those of some byte strings in a row, and they are read as all of those bytes. A text with padding at
its end only is the one that is written for its bytes. -/

namespace Devnet.Base64

theorem value?_eq_some_iff {c : Char} {n : Nat} : value? c = some n ↔ n < 64 ∧ c = symbol n := by
  constructor
  · intro read
    obtain ⟨inside, found, -⟩ := List.idxOf?_eq_some_iff.mp read
    exact ⟨inside, found.symm.trans (List.getElem_eq_getD 'A')⟩
  · rintro ⟨small, rfl⟩
    exact value?_symbol small

theorem value?_pad : value? '=' = none := by decide +kernel

section Blocks

variable {a b c d : Nat}

private theorem toNat_toUInt8 {n : Nat} (small : n < 256) : n.toUInt8.toNat = n :=
  UInt8.toNat_ofNat_of_lt' small

theorem encodeChars_one (smallA : a < 64) (smallB : b < 64) (left : b % 16 = 0) :
    encodeChars [(a * 4 + b / 16).toUInt8] = [symbol a, symbol b, '=', '='] := by
  rw [encodeChars, toNat_toUInt8 (show a * 4 + b / 16 < 256 by omega),
    show (a * 4 + b / 16) / 4 = a by omega, show (a * 4 + b / 16) % 4 * 16 = b by omega]

theorem encodeChars_two (smallA : a < 64) (smallB : b < 64) (smallC : c < 64) (left : c % 4 = 0) :
    encodeChars [(a * 4 + b / 16).toUInt8, (b % 16 * 16 + c / 4).toUInt8] =
      [symbol a, symbol b, symbol c, '='] := by
  rw [encodeChars, toNat_toUInt8 (show a * 4 + b / 16 < 256 by omega),
    toNat_toUInt8 (show b % 16 * 16 + c / 4 < 256 by omega),
    show (a * 4 + b / 16) / 4 = a by omega,
    show (a * 4 + b / 16) % 4 * 16 + (b % 16 * 16 + c / 4) / 16 = b by omega,
    show (b % 16 * 16 + c / 4) % 16 * 4 = c by omega]

theorem encodeChars_three (smallA : a < 64) (smallB : b < 64) (smallC : c < 64) (smallD : d < 64) :
    encodeChars [(a * 4 + b / 16).toUInt8, (b % 16 * 16 + c / 4).toUInt8,
      (c % 4 * 64 + d).toUInt8] = [symbol a, symbol b, symbol c, symbol d] := by
  rw [encodeChars, toNat_toUInt8 (show a * 4 + b / 16 < 256 by omega),
    toNat_toUInt8 (show b % 16 * 16 + c / 4 < 256 by omega),
    toNat_toUInt8 (show c % 4 * 64 + d < 256 by omega),
    show (a * 4 + b / 16) / 4 = a by omega,
    show (a * 4 + b / 16) % 4 * 16 + (b % 16 * 16 + c / 4) / 16 = b by omega,
    show (b % 16 * 16 + c / 4) % 16 * 4 + (c % 4 * 64 + d) / 64 = c by omega,
    show (c % 4 * 64 + d) % 64 = d by omega, encodeChars]

end Blocks

theorem encodeChars_of_decodeBlock {p q r s : Char} {block : Bytes}
    (read : decodeBlock p q r s = some block) : encodeChars block = [p, q, r, s] := by
  unfold decodeBlock at read
  simp only [Option.bind_eq_bind, Option.bind_eq_some_iff, value?_eq_some_iff] at read
  obtain ⟨a, ⟨smallA, rfl⟩, b, ⟨smallB, rfl⟩, read⟩ := read
  split at read
  · rename_i padding
    subst padding
    split at read
    · rename_i ends
      rw [Bool.and_eq_true, decide_eq_true_eq, beq_iff_eq] at ends
      obtain ⟨rfl, left⟩ := ends
      cases read
      exact encodeChars_one smallA smallB left
    · cases read
  · rw [Option.bind_eq_some_iff] at read
    obtain ⟨c, known, read⟩ := read
    obtain ⟨smallC, rfl⟩ := value?_eq_some_iff.mp known
    split at read
    · rename_i padding
      subst padding
      split at read
      · rename_i left
        rw [beq_iff_eq] at left
        cases read
        exact encodeChars_two smallA smallB smallC left
      · cases read
    · rw [Option.bind_eq_some_iff] at read
      obtain ⟨d, known, read⟩ := read
      obtain ⟨smallD, rfl⟩ := value?_eq_some_iff.mp known
      cases read
      exact encodeChars_three smallA smallB smallC smallD

theorem decodeChars_append (bytes : Bytes) (rest : List Char) :
    decodeChars (encodeChars bytes ++ rest) = (decodeChars rest).map (bytes ++ ·) := by
  fun_induction encodeChars bytes with
  | case1 =>
      simp
  | case2 a =>
      simp only [List.cons_append, List.nil_append]
      rw [decodeChars, decodeBlock_one]
      cases decodeChars rest <;> rfl
  | case3 a b =>
      simp only [List.cons_append, List.nil_append]
      rw [decodeChars, decodeBlock_two]
      cases decodeChars rest <;> rfl
  | case4 a b c others ih =>
      simp only [List.cons_append]
      rw [decodeChars, decodeBlock_three, ih]
      cases decodeChars rest <;> rfl

/-- Exactly texts of byte strings in a row are read, as all of their bytes. -/
theorem decodeChars_eq_some_iff {text : List Char} {bytes : Bytes} :
    decodeChars text = some bytes ↔
      ∃ parts : List Bytes, text = parts.flatMap encodeChars ∧ bytes = parts.flatten := by
  constructor
  · intro read
    fun_induction decodeChars text generalizing bytes with
    | case1 =>
        cases read
        exact ⟨[], rfl, rfl⟩
    | case2 p q r s rest ih =>
        simp only [Option.bind_eq_bind, Option.bind_eq_some_iff, Option.some.injEq] at read
        obtain ⟨block, here, others, later, rfl⟩ := read
        obtain ⟨parts, rfl, rfl⟩ := ih later
        refine ⟨block :: parts, ?_, List.flatten_cons.symm⟩
        rw [List.flatMap_cons, encodeChars_of_decodeBlock here]
        rfl
    | case3 => cases read
  · rintro ⟨parts, rfl, rfl⟩
    induction parts with
    | nil => rfl
    | cons part parts ih =>
        rw [List.flatMap_cons, decodeChars_append, ih, List.flatten_cons]
        rfl

/-- From the first padding on there is nothing else. -/
def PadsLast (text : List Char) : Prop := ∀ c ∈ text.dropWhile (· ≠ '='), c = '='

instance (text : List Char) : Decidable (PadsLast text) :=
  List.decidableBAll (· = '=') (text.dropWhile (· ≠ '='))

theorem padsLast_symbol {n : Nat} {rest : List Char} (small : n < 64) :
    PadsLast (symbol n :: rest) ↔ PadsLast rest := by
  simp [PadsLast, symbol_ne_pad small]

theorem padsLast_pad {rest : List Char} : PadsLast ('=' :: rest) ↔ ∀ c ∈ rest, c = '=' := by
  simp [PadsLast]

theorem padsLast_append {bytes : Bytes} {rest : List Char} :
    PadsLast (encodeChars bytes ++ rest) ↔
      if bytes.length % 3 = 0 then PadsLast rest else ∀ c ∈ rest, c = '=' := by
  fun_induction encodeChars bytes with
  | case1 => rfl
  | case2 a =>
      have bound := a.toNat_lt
      simp only [List.cons_append, List.nil_append]
      rw [padsLast_symbol (by omega), padsLast_symbol (by omega), padsLast_pad,
        List.forall_mem_cons, and_iff_right rfl]
      rfl
  | case3 a b =>
      have bound := a.toNat_lt
      have bound' := b.toNat_lt
      simp only [List.cons_append, List.nil_append]
      rw [padsLast_symbol (by omega), padsLast_symbol (by omega), padsLast_symbol (by omega),
        padsLast_pad]
      rfl
  | case4 a b c others ih =>
      have bound := a.toNat_lt
      have bound' := b.toNat_lt
      have bound'' := c.toNat_lt
      simp only [List.cons_append]
      rw [padsLast_symbol (by omega), padsLast_symbol (by omega), padsLast_symbol (by omega),
        padsLast_symbol (by omega), ih]
      simp only [List.length_cons, Nat.add_mod_right, Nat.add_assoc, Nat.reduceAdd]

theorem padsLast_encodeChars (bytes : Bytes) : PadsLast (encodeChars bytes) := by
  rw [← List.append_nil (encodeChars bytes), padsLast_append]
  split
  · exact List.forall_mem_nil _
  · exact List.forall_mem_nil _

theorem encodeChars_append {bytes : Bytes} (whole : bytes.length % 3 = 0) (others : Bytes) :
    encodeChars (bytes ++ others) = encodeChars bytes ++ encodeChars others := by
  fun_induction encodeChars bytes with
  | case1 => rfl
  | case2 a => cases whole
  | case3 a b => cases whole
  | case4 a b c rest ih =>
      simp only [List.length_cons, Nat.add_mod_right, Nat.add_assoc, Nat.reduceAdd] at whole
      simp only [List.cons_append, encodeChars, ih whole]

theorem eq_nil_of_pads {text : List Char} {bytes : Bytes} (read : decodeChars text = some bytes)
    (pads : ∀ c ∈ text, c = '=') : text = [] ∧ bytes = [] := by
  unfold decodeChars at read
  split at read
  · cases read
    exact ⟨rfl, rfl⟩
  · rename_i p q r s rest
    have unread : decodeBlock p q r s = none := by
      rw [pads p List.mem_cons_self, decodeBlock, value?_pad]
      rfl
    rw [unread] at read
    cases read
  · cases read

theorem encodeChars_flatten {parts : List Bytes} (last : PadsLast (parts.flatMap encodeChars)) :
    encodeChars parts.flatten = parts.flatMap encodeChars := by
  induction parts with
  | nil => rfl
  | cons part parts ih =>
      rw [List.flatMap_cons, padsLast_append] at last
      rw [List.flatMap_cons, List.flatten_cons]
      split at last
      · rename_i whole
        rw [encodeChars_append whole, ih last]
      · obtain ⟨nothing, none⟩ := eq_nil_of_pads (decodeChars_eq_some_iff.mpr ⟨parts, rfl, rfl⟩) last
        rw [nothing, none, List.append_nil, List.append_nil]

theorem decode_eq_some_iff {text : String} {bytes : Bytes} : decode text = some bytes ↔
    ∃ parts : List Bytes, text = String.join (parts.map encode) ∧ bytes = parts.flatten := by
  have joined (parts : List Bytes) :
      (String.join (parts.map encode)).toList = parts.flatMap encodeChars := by
    simp only [String.toList_join, List.flatMap_map, encode, String.toList_ofList]
  simp only [decode, decodeChars_eq_some_iff, ← String.toList_inj, joined]

/-- What is read is written as it was read if it has padding at its end only. -/
theorem encode_eq_iff {text : String} {bytes : Bytes} (read : decode text = some bytes) :
    encode bytes = text ↔ PadsLast text.toList := by
  obtain ⟨parts, written, rfl⟩ := decodeChars_eq_some_iff.mp read
  rw [encode, ← String.toList_inj, String.toList_ofList]
  constructor
  · intro same
    rw [← same]
    exact padsLast_encodeChars _
  · intro last
    rw [written] at last ⊢
    exact encodeChars_flatten last

structure Respelled (text again : String) (bytes : Bytes) : Prop where
  same_iff : again = text ↔ PadsLast text.toList
  parts : ∃ parts : List Bytes, text = String.join (parts.map encode) ∧ bytes = parts.flatten

theorem respelled_of_decode {text : String} {bytes : Bytes} (read : decode text = some bytes) :
    Respelled text (encode bytes) bytes :=
  ⟨encode_eq_iff read, decode_eq_some_iff.mp read⟩

theorem eq_of_padsLast {text other : String} {bytes : Bytes} (read : decode text = some bytes)
    (read' : decode other = some bytes) (last : PadsLast text.toList)
    (last' : PadsLast other.toList) : text = other :=
  ((encode_eq_iff read).mpr last).symm.trans ((encode_eq_iff read').mpr last')

end Devnet.Base64
