import Devnet.Store.Record
import Mathlib

namespace Devnet.Varint

theorem littleEndian_length (width n : Nat) : (littleEndian width n).length = width := by
  induction width generalizing n with
  | zero => rfl
  | succ width ih => simp [littleEndian, ih]

theorem ofLittleEndian_littleEndian (width n : Nat) (small : n < 256 ^ width) :
    ofLittleEndian (littleEndian width n) = n := by
  induction width generalizing n with
  | zero =>
      have none : n = 0 := by simpa using small
      simp [none, littleEndian, ofLittleEndian]
  | succ width ih =>
      have high : n / 256 < 256 ^ width := by
        rw [Nat.div_lt_iff_lt_mul (by decide)]
        simpa [pow_succ] using small
      have low : (n % 256).toUInt8.toNat = n % 256 := by simp
      simp only [littleEndian, ofLittleEndian, low, ih _ high]
      omega

theorem splitBytes_append (bytes rest : Bytes) :
    splitBytes bytes.length (bytes ++ rest) = some (bytes, rest) := by
  simp [splitBytes]

private theorem decode_wide (widest width n : Nat) (first : UInt8) (rest : Bytes)
    (large : ¬first.toNat < smallLimit) (marked : width? first = some width)
    (fits : width ≤ widest) (small : n < 256 ^ width) :
    decode widest (first :: littleEndian width n ++ rest) = some (n, rest) := by
  have split : splitBytes width (littleEndian width n ++ rest) = some (littleEndian width n, rest) := by
    have whole := splitBytes_append (littleEndian width n) rest
    rwa [littleEndian_length] at whole
  simp [decode, large, marked, Nat.not_lt.mpr fits, split,
    ofLittleEndian_littleEndian width n small]

/-- A reader that takes all widths up to that of the number reads it, and stops behind it. -/
theorem decode_encode_append (n widest : Nat) (rest : Bytes) (small : n < 2 ^ 64)
    (room : n < smallLimit ∨ 8 ≤ widest) : decode widest (encode n ++ rest) = some (n, rest) := by
  unfold encode
  split
  · rename_i single
    have byte : n.toUInt8.toNat = n := by
      unfold smallLimit at single
      simp only [Nat.toUInt8, UInt8.toNat_ofNat']
      omega
    simp [decode, byte, single]
  · rename_i many
    have wide : 8 ≤ widest := room.resolve_left many
    split
    · exact decode_wide widest 2 n 251 rest (by decide) rfl (by omega) (by omega)
    · split
      · exact decode_wide widest 4 n 252 rest (by decide) rfl (by omega) (by omega)
      · exact decode_wide widest 8 n 253 rest (by decide) rfl wide (by omega)

theorem zigzag_lt (n : Int64) : zigzag n < 2 ^ 64 := by
  have low := n.le_toInt
  have high := n.toInt_lt
  unfold zigzag
  split <;> omega

theorem ofZigzag_zigzag (n : Int64) : ofZigzag (zigzag n) = n := by
  unfold zigzag
  split
  · rename_i positive
    have even : 2 * n.toInt.toNat % 2 = 0 := by omega
    have half : ((2 * n.toInt.toNat / 2 : Nat) : Int) = n.toInt := by omega
    rw [ofZigzag, if_pos even, half]
    exact Int64.ofInt_toInt n
  · rename_i negative
    have odd : ¬(2 * (-n.toInt).toNat - 1) % 2 = 0 := by omega
    have half : -(((2 * (-n.toInt).toNat - 1) / 2 : Nat) : Int) - 1 = n.toInt := by omega
    rw [ofZigzag, if_neg odd, half]
    exact Int64.ofInt_toInt n

end Devnet.Varint

namespace Devnet.ValidatorUpdate

theorem schemeTag_lt (scheme : KeyScheme) : schemeTag scheme < 3 := by
  cases scheme <;> decide

theorem scheme_of_schemeTag (scheme : KeyScheme) :
    KeyScheme.all[schemeTag scheme]? = some scheme := by
  cases scheme <;> rfl

def Storable (update : ValidatorUpdate) : Prop := update.publicKey.bytes.length < 2 ^ 64

instance (update : ValidatorUpdate) : Decidable update.Storable := inferInstanceAs (Decidable (_ < _))

theorem ofRecord?_toRecord_append (update : ValidatorUpdate) (rest : Bytes)
    (room : update.Storable) :
    ofRecord? (update.toRecord ++ rest) = some update := by
  have tag := schemeTag_lt update.publicKey.scheme
  have readTag := fun rest => Varint.decode_encode_append (schemeTag update.publicKey.scheme) 4 rest
    (by omega) (Or.inl (by unfold Varint.smallLimit; omega))
  have readLength := fun rest =>
    Varint.decode_encode_append update.publicKey.bytes.length 8 rest room (Or.inr (by decide))
  have readPower := fun rest =>
    Varint.decode_encode_append (Varint.zigzag update.power) 8 rest (Varint.zigzag_lt _)
      (Or.inr (by decide))
  simp [toRecord, ofRecord?, List.append_assoc, readTag, scheme_of_schemeTag, readLength,
    Varint.splitBytes_append, readPower, Varint.ofZigzag_zigzag]

theorem ofRecord?_toRecord (update : ValidatorUpdate)
    (room : update.Storable) : ofRecord? update.toRecord = some update := by
  have read := ofRecord?_toRecord_append update [] room
  rwa [List.append_nil] at read

theorem eq_of_toRecord_append {a b : ValidatorUpdate} (room : a.Storable) (room' : b.Storable)
    {rest rest' : Bytes} (same : a.toRecord ++ rest = b.toRecord ++ rest') : a = b := by
  have read := ofRecord?_toRecord_append a rest room
  rw [same, ofRecord?_toRecord_append b rest' room'] at read
  exact (Option.some.inj read).symm

theorem toRecord_isPrefix_iff {a b : ValidatorUpdate} (room : a.Storable) (room' : b.Storable) :
    a.toRecord <+: b.toRecord ↔ a = b := by
  constructor
  · rintro ⟨rest, whole⟩
    exact eq_of_toRecord_append room room' (whole.trans (List.append_nil _).symm)
  · rintro rfl
    exact List.prefix_rfl

/-- A record is read as its update, whatever bytes follow; different updates have different records,
and none begins with another. -/
theorem toRecord_prefixFree :
    (∀ update rest, Storable update → ofRecord? (update.toRecord ++ rest) = some update) ∧
    ∀ a b, Storable a → Storable b →
      (a.toRecord = b.toRecord ↔ a = b) ∧ (a.toRecord <+: b.toRecord ↔ a = b) := by
  refine ⟨fun update rest room => ofRecord?_toRecord_append update rest room,
    fun a b room room' => ⟨⟨fun same => ?_, congrArg toRecord⟩, toRecord_isPrefix_iff room room'⟩⟩
  exact (toRecord_isPrefix_iff room room').mp (same ▸ List.prefix_rfl)

def wideUpdate : ValidatorUpdate := ⟨⟨.bls12381, List.replicate 251 251⟩, Int64.minValue⟩

def narrowUpdate : ValidatorUpdate := ⟨⟨.bls12381, List.replicate 250 251⟩, Int64.maxValue⟩

theorem toRecord_prefixFree_wideUpdate :
    wideUpdate.Storable ∧ narrowUpdate.Storable ∧
      ofRecord? (wideUpdate.toRecord ++ [255, 0]) = some wideUpdate ∧
      wideUpdate.toRecord ≠ narrowUpdate.toRecord ∧ ¬narrowUpdate.toRecord <+: wideUpdate.toRecord := by
  have room : wideUpdate.Storable := List.length_replicate.trans_lt (by decide)
  have room' : narrowUpdate.Storable := List.length_replicate.trans_lt (by decide)
  have apart : wideUpdate ≠ narrowUpdate := fun same =>
    absurd (congrArg ValidatorUpdate.power same) (by decide)
  obtain ⟨reads, tells⟩ := toRecord_prefixFree
  exact ⟨room, room', reads _ _ room, fun same => apart ((tells _ _ room room').1.mp same),
    fun front => apart ((tells _ _ room' room).2.mp front).symm⟩

end Devnet.ValidatorUpdate
