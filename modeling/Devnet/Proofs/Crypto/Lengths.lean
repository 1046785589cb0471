import Devnet.Consensus.Signer
import Devnet.Proofs.Address.Texts
import Mathlib

namespace Devnet

@[simp]
theorem Bytes.length_ofNatLittle (width n : Nat) : (ofNatLittle width n).length = width := by
  induction width generalizing n with
  | zero => rfl
  | succ width ih => rw [ofNatLittle, List.length_cons, ih]

@[simp]
theorem Bytes.length_ofNatBig (width n : Nat) : (ofNatBig width n).length = width := by
  rw [ofNatBig, List.length_reverse, length_ofNatLittle]

theorem Sha256.length_digest (message : Bytes) : (digest message).length = 32 := by
  simp [digest, State.toList]

theorem Ripemd160.length_digest (message : Bytes) : (digest message).length = 20 := by
  simp [digest]

theorem Ed25519.length_publicKey (seed : Bytes) : (publicKey seed).length = 32 :=
  Bytes.length_ofNatLittle 32 _

theorem length_addressHash (bytes : Bytes) : (addressHash bytes).length = 20 := by
  rw [addressHash, List.length_take, Sha256.length_digest]
  rfl

theorem PublicKey.length_address (key : PublicKey) : key.address.bytes.length = 20 := by
  rcases key with ⟨scheme, bytes⟩
  cases scheme with
  | ed25519 => exact length_addressHash bytes
  | secp256k1 => exact Ripemd160.length_digest _
  | bls12381 => exact length_addressHash bytes

theorem KeyPair.length_publicKey (pair : KeyPair) : pair.publicKey.length = 32 := by
  rw [pair.publicKey_eq, Ed25519.length_publicKey]

theorem Address.sized_moduleAddress (name : String) : (moduleAddress name).Sized := by
  have length : (moduleAddress name).bytes.length = 20 := length_addressHash _
  rw [Sized, length]
  decide

end Devnet
