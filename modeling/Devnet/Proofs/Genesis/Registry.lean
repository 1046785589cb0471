import Devnet.Genesis.Registry
import Devnet.Proofs.Fault.Outcome
import Devnet.Proofs.Table.Ascending
import Mathlib

namespace Devnet.Registry

theorem mem_typeUrls_register {α : Type} {registry : Registry} {message : Message α} {url : String} :
    url ∈ (registry.register message).typeUrls ↔
      url = message.typeUrl ∨ url ∈ registry.typeUrls :=
  Table.mem_keys_insert

theorem mem_typeUrls_standard {url : String} :
    url ∈ standard.typeUrls ↔ url = AppKey.secp256k1Message.typeUrl ∨
      url = AppKey.ed25519Message.typeUrl ∨ url = Auth.BaseAccount.message.typeUrl := by
  rw [standard, mem_typeUrls_register, mem_typeUrls_register, mem_typeUrls_register]
  simp [typeUrls, empty]

theorem check_eq_ok {registry : Registry} {envelope : Envelope} {done : Unit} :
    registry.check envelope = .ok done ↔ envelope.typeUrl ∈ registry.typeUrls := by
  unfold check
  split <;> simp [*]

theorem unpack_eq_ok {α : Type} {registry : Registry} {message : Message α} {envelope : Envelope}
    {found : α} :
    registry.unpack message envelope = .ok found ↔
      envelope.typeUrl ∈ registry.typeUrls ∧ envelope.unpack message = .ok found := by
  unfold unpack
  simp only [bind_eq_ok, check_eq_ok, exists_const]

theorem check_standard_pack (key : AppKey) : standard.check key.pack = .ok () := by
  rw [check_eq_ok, mem_typeUrls_standard]
  cases key with
  | ed25519 bytes => exact Or.inr (Or.inl rfl)
  | secp256k1 bytes => exact Or.inl rfl

end Devnet.Registry
