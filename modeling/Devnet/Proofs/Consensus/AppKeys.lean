import Devnet.Consensus.PublicKey
import Devnet.Proofs.Genesis.Documents
import Mathlib

namespace Devnet.AppKey

open Codec Fields

theorem exact_keyCodec (name : String) : (keyCodec name).Exact Always Always 1 :=
  (exact_record (exact_cons exact_base64 exact_nil) (by decide) (fun _ => rfl) fun _ => rfl).weaken
    (fun _ _ => ⟨trivial, trivial⟩) (fun _ => by simp [Always]) (by decide)

theorem packs (url name : String) (bytes : Bytes) :
    Envelope.Packs ⟨url, keyCodec name⟩ bytes [("key", Codec.base64.encode bytes)] :=
  Envelope.packs_record bytes (by decide)

theorem settled_pack (key : AppKey) : key.pack.Settled 0 := by
  have flat : ∀ bytes : Bytes, ∀ member ∈ [("key", Codec.base64.encode bytes)], member.2.Tidy 0 :=
    fun bytes => List.forall_mem_singleton.mpr (.string 0 _)
  cases key with
  | ed25519 bytes => exact (packs _ _ bytes).settled (flat bytes)
  | secp256k1 bytes => exact (packs _ _ bytes).settled (flat bytes)

theorem unpack_message (url name : String) (bytes : Bytes) :
    (Envelope.pack ⟨url, keyCodec name⟩ bytes).unpack ⟨url, keyCodec name⟩ = .ok bytes :=
  ((packs url name bytes).unpack_eq_ok fun room _ =>
    (exact_keyCodec name).echoes_of_fit (Nat.le_add_left 1 room) trivial).mpr ⟨trivial, rfl⟩

theorem unpack_pack (key : AppKey) : unpack key.pack = .ok key := by
  cases key with
  | ed25519 bytes =>
      have same : (pack (.ed25519 bytes)).typeUrl = ed25519Message.typeUrl := rfl
      have read : (pack (.ed25519 bytes)).unpack ed25519Message = .ok bytes :=
        unpack_message _ _ bytes
      rw [unpack, if_pos same, read]
      rfl
  | secp256k1 bytes =>
      have other : secp256k1Message.typeUrl ≠ ed25519Message.typeUrl := by decide
      have same : (pack (.secp256k1 bytes)).typeUrl = secp256k1Message.typeUrl := rfl
      have read : (pack (.secp256k1 bytes)).unpack secp256k1Message = .ok bytes :=
        unpack_message _ _ bytes
      rw [unpack, same, if_neg other, if_pos rfl, read]
      rfl

theorem typeUrl_pack_of_unpack {envelope : Envelope} {key : AppKey}
    (unpacked : unpack envelope = .ok key) : key.pack.typeUrl = envelope.typeUrl := by
  unfold unpack at unpacked
  split at unpacked
  · rename_i url
    obtain ⟨bytes, -, rfl⟩ := map_eq_ok.mp (mapError_eq_ok.mp unpacked)
    exact url.symm
  · split at unpacked
    · rename_i url
      obtain ⟨bytes, -, rfl⟩ := map_eq_ok.mp (mapError_eq_ok.mp unpacked)
      exact url.symm
    · cases unpacked

def size : AppKey → Nat
  | .ed25519 _ => ed25519Size
  | .secp256k1 _ => secp256k1Size

theorem convert_sized {key : PublicKey} {size : Nat} {made : AppKey} :
    (do checkSize key size; return made) =
      if key.bytes.length = size then .ok made
      else .error (.wrongSize key.scheme size key.bytes.length) := by
  unfold checkSize
  by_cases sized : key.bytes.length = size
  · rw [if_pos sized, if_pos sized]
    rfl
  · rw [if_neg sized, if_neg sized]
    rfl

/-- A key of another size gives a consensus key that is not converted back. -/
theorem ofPublicKey_toPublicKey (key : AppKey) :
    ofPublicKey key.toPublicKey =
      if key.toPublicKey.bytes.length = key.size then .ok key
      else .error (.wrongSize key.toPublicKey.scheme key.size key.toPublicKey.bytes.length) := by
  cases key with
  | ed25519 bytes => exact convert_sized
  | secp256k1 bytes => exact convert_sized

end Devnet.AppKey

namespace Devnet.PublicKey

def Convertible (key : PublicKey) : Prop :=
  key.scheme = .ed25519 ∧ key.bytes.length = AppKey.ed25519Size ∨
    key.scheme = .secp256k1 ∧ key.bytes.length = AppKey.secp256k1Size

instance (key : PublicKey) : Decidable key.Convertible := inferInstanceAs (Decidable (_ ∨ _))

def refusal (key : PublicKey) : KeyFault :=
  match key.scheme with
  | .ed25519 => .wrongSize .ed25519 AppKey.ed25519Size key.bytes.length
  | .secp256k1 => .wrongSize .secp256k1 AppKey.secp256k1Size key.bytes.length
  | .bls12381 => .unsupported .bls12381

variable {key : PublicKey}

theorem Convertible.exists_made (convertible : key.Convertible) :
    ∃ made, AppKey.ofPublicKey key = .ok made ∧ made.toPublicKey = key := by
  rcases key with ⟨scheme, bytes⟩
  rcases convertible with ⟨rfl, sized⟩ | ⟨rfl, sized⟩
  · exact ⟨.ed25519 bytes, AppKey.convert_sized.trans (if_pos sized), rfl⟩
  · exact ⟨.secp256k1 bytes, AppKey.convert_sized.trans (if_pos sized), rfl⟩

theorem refused_of_not_convertible (other : ¬key.Convertible) :
    AppKey.ofPublicKey key = .error key.refusal := by
  rcases key with ⟨scheme, bytes⟩
  cases scheme with
  | ed25519 => exact AppKey.convert_sized.trans (if_neg fun sized => other (.inl ⟨rfl, sized⟩))
  | secp256k1 => exact AppKey.convert_sized.trans (if_neg fun sized => other (.inr ⟨rfl, sized⟩))
  | bls12381 => rfl

theorem convert_eq_ok {made : AppKey} :
    AppKey.ofPublicKey key = .ok made ↔ key.Convertible ∧ made.toPublicKey = key := by
  by_cases convertible : key.Convertible
  · obtain ⟨found, converted, same⟩ := convertible.exists_made
    rw [converted, Except.ok.injEq, and_iff_right convertible, ← same]
    refine ⟨fun equal => equal ▸ rfl, fun equal => ?_⟩
    cases found <;> cases made <;> cases equal <;> rfl
  · rw [refused_of_not_convertible convertible]
    exact iff_of_false (fun given => by cases given) fun given => convertible given.1

end Devnet.PublicKey
