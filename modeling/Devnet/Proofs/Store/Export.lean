import Devnet.Proofs.Fault.Outcome
import Devnet.Proofs.Store.Record
import Devnet.Proofs.Table.Ascending
import Devnet.Proofs.Text.Utf8
import Devnet.Store.Basic
import Mathlib

namespace Devnet

namespace Store

theorem bigEndian_succ (width n : Nat) :
    bigEndian (width + 1) n = bigEndian width (n / 256) ++ [(n % 256).toUInt8] := by
  simp [bigEndian, Varint.littleEndian]

theorem bigEndian_length (width n : Nat) : (bigEndian width n).length = width := by
  simp [bigEndian, Varint.littleEndian_length]

theorem append_lt_append {left right : Bytes} (before : left < right)
    (aligned : left.length = right.length) (left' right' : Bytes) :
    left ++ left' < right ++ right' := by
  induction left generalizing right with
  | nil =>
      rw [List.length_nil, eq_comm, List.length_eq_zero_iff] at aligned
      rw [aligned] at before
      exact absurd before (List.not_lt_nil _)
  | cons a left ih =>
      cases right with
      | nil => simp at aligned
      | cons b right =>
          simp only [List.cons_append, List.cons_lt_cons_iff] at before ⊢
          rcases before with less | ⟨same, later⟩
          · exact Or.inl less
          · exact Or.inr ⟨same, ih later (by simpa using aligned)⟩

theorem bigEndian_lt {width m n : Nat} (less : m < n) (small : n < 256 ^ width) :
    bigEndian width m < bigEndian width n := by
  induction width generalizing m n with
  | zero => omega
  | succ width ih =>
      have high : n / 256 < 256 ^ width := by
        rw [Nat.div_lt_iff_lt_mul (by decide)]
        simpa [pow_succ] using small
      rw [bigEndian_succ, bigEndian_succ]
      by_cases same : m / 256 = n / 256
      · rw [same]
        apply List.append_left_lt
        have low : m % 256 < n % 256 := by omega
        have bytes : (m % 256).toUInt8 < (n % 256).toUInt8 := by
          rw [UInt8.lt_iff_toNat_lt]
          simpa using low
        exact List.cons_lt_cons_iff.mpr (Or.inl bytes)
      · have before := ih (m := m / 256) (n := n / 256) (by omega) high
        exact append_lt_append before (by simp only [bigEndian_length]) _ _

def updateEntries (first : Nat) (updates : List ValidatorUpdate) : Table Bytes Bytes :=
  (updates.zipIdx first).map fun (update, position) => (positionKey position, update.toRecord)

theorem updateEntries_ascending (first : Nat) (updates : List ValidatorUpdate)
    (room : first + updates.length ≤ 2 ^ 32) : (updateEntries first updates).Ascending := by
  induction updates generalizing first with
  | nil => exact Table.ascending_nil
  | cons update updates ih =>
      simp only [List.length_cons] at room
      simp only [updateEntries, List.zipIdx_cons, List.map_cons]
      refine (Table.ascending_cons _ _).mpr ⟨?_, ih (first + 1) (by omega)⟩
      intro other member
      rcases List.mem_map.mp member with ⟨⟨later, position⟩, inside, rfl⟩
      obtain ⟨after, before, -⟩ := List.mem_zipIdx inside
      exact bigEndian_lt (by omega) (by omega)

theorem readRecord_toRecord (update : ValidatorUpdate)
    (size : update.publicKey.bytes.length < 2 ^ 64) : readRecord update.toRecord = .ok update := by
  simp [readRecord, ValidatorUpdate.ofRecord?_toRecord update size]

theorem readUpdates (first : Nat) (updates : List ValidatorUpdate)
    (sizes : ∀ update ∈ updates, update.publicKey.bytes.length < 2 ^ 64) :
    (updateEntries first updates).mapM (fun entry => readRecord entry.2) = .ok updates := by
  induction updates generalizing first with
  | nil => rfl
  | cons update updates ih =>
      have head := readRecord_toRecord update (sizes update (by simp))
      have rest := ih (first + 1) fun other member => sizes other (List.mem_cons_of_mem _ member)
      simp only [updateEntries] at rest
      simp only [updateEntries, List.zipIdx_cons, List.map_cons, List.mapM_cons, head, rest]
      rfl

section Recorded

variable (chainId : String) (height : Int64) (genesis : Genesis) (updates : List ValidatorUpdate)
  (appHash : Bytes)

theorem validatorUpdates_record (count : updates.length < 2 ^ 32)
    (sizes : ∀ update ∈ updates, update.publicKey.bytes.length < 2 ^ 64) :
    (empty.record chainId height genesis updates appHash).validatorUpdates = .ok updates := by
  have ascending := updateEntries_ascending 0 updates (by omega)
  have stored : insertAll [] (updateEntries 0 updates) = updateEntries 0 updates :=
    Table.ofEntries_of_ascending ascending
  show (insertAll [] (updateEntries 0 updates)).mapM _ = _
  rw [stored, readUpdates 0 updates sizes]

private def named (entry : Bytes × Bytes) : String × Bytes :=
  (((Utf8.text entry.1).toOption).getD "", entry.2)

theorem exportGenesis_record (ascending : genesis.documents.Ascending) :
    (empty.record chainId height genesis updates appHash).exportGenesis = .ok genesis := by
  let encoded := genesis.documents.map fun entry => (Utf8.ofString entry.1, entry.2)
  have names : (encoded.map Prod.fst) = (genesis.documents.map Prod.fst).map Utf8.ofString := by
    simp [encoded]
  have distinct : (encoded.map Prod.fst).Nodup := by
    rw [names]
    exact ascending.keys_nodup.map Utf8.ofString_injective
  have stored : (insertAll [] encoded).Perm encoded := Table.ofEntries_perm distinct
  have decoded : encoded.map named = genesis.documents := by
    simp only [encoded, List.map_map]
    conv_rhs => rw [← List.map_id genesis.documents]
    apply List.map_congr_left
    intro entry _
    simp [named, Utf8.text_ofString, Except.toOption]
  have read : (insertAll [] encoded).mapM exportEntry = .ok ((insertAll [] encoded).map named) := by
    apply mapM_ok
    intro entry member
    rcases List.mem_map.mp (stored.mem_iff.mp member) with ⟨original, _, rfl⟩
    simp [exportEntry, named, Utf8.text_ofString, Except.toOption]
  have sorted : Table.ofEntries ((insertAll [] encoded).map named) = genesis.documents := by
    apply Table.ofEntries_of_perm _ ascending
    rw [← decoded]
    exact stored.map named
  show ((insertAll [] encoded).mapM exportEntry).map _ = _
  rw [read]
  show Except.ok (Genesis.mk (Table.ofEntries _)) = _
  rw [sorted]

theorem facts_record : (empty.record chainId height genesis updates appHash).facts =
    (Table.insert heightKey (bigEndian 8 height.toUInt64.toNat)
      (Table.insert appHashKey appHash
        (Table.insert chainIdKey (Utf8.ofString chainId) []))) := rfl

theorem appHash?_record :
    (empty.record chainId height genesis updates appHash).appHash? = some appHash := by
  have different : appHashKey ≠ heightKey := Utf8.ofString_injective.ne (by decide)
  rw [appHash?, facts_record, Table.get?_insert_of_ne _ _ different, Table.get?_insert_self]

theorem isInitialized_record :
    (empty.record chainId height genesis updates appHash).isInitialized = true := by
  rw [isInitialized, facts_record, Table.get?_insert_self]
  rfl

end Recorded

end Store
end Devnet
