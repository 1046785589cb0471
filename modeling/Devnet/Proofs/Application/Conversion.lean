import Devnet.Proofs.Application.Validators
import Mathlib

/-! The keys that a chain starts with, as the application would convert them. A key comes out of the
envelope of its validator at any size, and only a key of the right size is converted back. -/

namespace Devnet

/-- The key of an update, next to the one in the envelope of its validator. It is converted to that one
if it has the size of its scheme and refused otherwise; packed again that one has the same type and is
unpacked as before. -/
structure Staking.Validator.Converts (v : Validator) (update : ValidatorUpdate) (key : AppKey) :
    Prop where
  unpacked : AppKey.unpack v.consensusKey = .ok key
  publicKey : update.publicKey = key.toPublicKey
  converted : AppKey.ofPublicKey update.publicKey =
    if update.publicKey.bytes.length = key.size then .ok key
    else .error (.wrongSize update.publicKey.scheme key.size update.publicKey.bytes.length)
  typeUrl : key.pack.typeUrl = v.consensusKey.typeUrl
  again : AppKey.unpack key.pack = .ok key

theorem Staking.Validator.Has.converts {v : Validator} {update : ValidatorUpdate}
    (has : v.Has update) : ∃ key, v.Converts update key := by
  obtain ⟨key, unpacked, made⟩ := map_eq_ok.mp (mapError_eq_ok.mp has.key)
  refine ⟨key, unpacked, made.symm, ?_, AppKey.typeUrl_pack_of_unpack unpacked, AppKey.unpack_pack key⟩
  rw [← made]
  exact AppKey.ofPublicKey_toPublicKey key

theorem Staking.Validator.Converts.exists_converted_iff {v : Validator} {update : ValidatorUpdate}
    {key : AppKey} (converts : v.Converts update key) :
    (∃ found, AppKey.ofPublicKey update.publicKey = .ok found) ↔
      key.toPublicKey.bytes.length = key.size := by
  rw [converts.converted, converts.publicKey]
  by_cases sized : key.toPublicKey.bytes.length = key.size
  · rw [if_pos sized]
    exact iff_of_true ⟨key, rfl⟩ sized
  · rw [if_neg sized]
    exact iff_of_false (fun ⟨_, found⟩ => by cases found) sized

namespace Application

/-- The key of every validator of a chain is the one in its envelope. All of them are converted back if
and only if all envelopes of active validators hold keys of the right size. -/
theorem initChain_conversion {app : Application} {store next : Store} {request : InitRequest}
    {response : InitResponse} (taken : app.initChain store request = .ok (response, next)) :
    ∃ genesis sections, Genesis.ofAppStateBytes request.appState = .ok genesis ∧
      genesis.sections = .ok sections ∧
      List.Forall₂ (fun v update => ∃ key, Staking.Validator.Converts v update key)
        (sections.staking.validators.filter Staking.Validator.isActive) response.validators ∧
      ((∀ update ∈ response.validators, ∃ key, AppKey.ofPublicKey update.publicKey = .ok key) ↔
        ∀ v ∈ sections.staking.validators.filter Staking.Validator.isActive, ∀ key,
          AppKey.unpack v.consensusKey = .ok key → key.toPublicKey.bytes.length = key.size) := by
  obtain ⟨-, -, genesis, sections, updates, approved, rfl, -⟩ := initChain_eq_ok.mp taken
  have each : List.Forall₂ (fun v update => ∃ key, Staking.Validator.Converts v update key)
      (sections.staking.validators.filter Staking.Validator.isActive) updates :=
    (Staking.Section.has_updates approved.powers).imp fun _ _ has => has.converts
  refine ⟨genesis, sections, approved.reads, approved.decodes, each, ?_, ?_⟩
  · intro all v active key unpacked
    obtain ⟨update, member, found, converts⟩ := exists_of_forall₂ each.flip active
    obtain rfl := Except.ok.inj (converts.unpacked.symm.trans unpacked)
    exact converts.exists_converted_iff.mp (all update member)
  · intro sized update member
    obtain ⟨v, active, key, converts⟩ := exists_of_forall₂ each member
    exact converts.exists_converted_iff.mpr (sized v active key converts.unpacked)

def shortStaking : Staking.Section := .make .standard
  [{ uniformValidator 1 (10 ^ 18) with consensusKey := (AppKey.ed25519 (List.replicate 31 1)).pack },
   { uniformValidator 2 (10 ^ 18) with consensusKey := (AppKey.secp256k1 (List.replicate 33 2)).pack }] []

def shortUpdates : List ValidatorUpdate :=
  [⟨⟨.ed25519, List.replicate 31 1⟩, 1⟩, ⟨⟨.secp256k1, List.replicate 33 2⟩, 1⟩]

def shortRequest : InitRequest := stakingRequest (poolBank (2 * 10 ^ 18) 0) shortStaking []

theorem taken_shortRequest : ∃ appHash next,
    (fresh "evmos_9000-1" ".evmosd" .dropped).initChain .empty shortRequest =
      .ok (⟨shortUpdates, appHash⟩, next) := by
  have samples : List.Forall₂ (fun v source => IsSample v source.1 source.2) shortStaking.validators
      [(⟨List.replicate 20 1⟩, .ed25519 (List.replicate 31 1)),
       (⟨List.replicate 20 2⟩, .secp256k1 (List.replicate 33 2))] :=
    .cons (isSample_withKey 1 _ _) (.cons (isSample_withKey 2 _ _) .nil)
  have tokens : shortStaking.bondedTokens = 2 * 10 ^ 18 ∧ shortStaking.notBondedTokens = 0 := by decide
  have powers : shortStaking.updates = .ok shortUpdates := by decide +kernel
  exact initChain_samples samples (by decide) (by decide) (by decide) tokens.1 (by decide) (by decide)
    tokens.2 (by decide) (by decide) powers rfl

/-- The request is taken, although the key that it starts the chain with is not converted. -/
theorem not_converted_shortRequest : ∃ response next,
    (fresh "evmos_9000-1" ".evmosd" .dropped).initChain .empty shortRequest = .ok (response, next) ∧
    ∃ update ∈ response.validators,
      AppKey.ofPublicKey update.publicKey = .error (.wrongSize .ed25519 32 31) := by
  obtain ⟨appHash, next, taken⟩ := taken_shortRequest
  exact ⟨_, next, taken, _, List.mem_cons_self, rfl⟩

theorem initChain_conversion_shortRequest : ∃ response next genesis sections,
    (fresh "evmos_9000-1" ".evmosd" .dropped).initChain .empty shortRequest = .ok (response, next) ∧
    Genesis.ofAppStateBytes shortRequest.appState = .ok genesis ∧
    genesis.sections = .ok sections ∧
    List.Forall₂ (fun v update => ∃ key, Staking.Validator.Converts v update key)
      (sections.staking.validators.filter Staking.Validator.isActive) response.validators := by
  obtain ⟨appHash, next, taken⟩ := taken_shortRequest
  obtain ⟨genesis, sections, reads, decodes, each, -⟩ := initChain_conversion taken
  exact ⟨_, next, genesis, sections, taken, reads, decodes, each⟩

end Application
end Devnet
