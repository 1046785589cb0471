import Devnet.Network.Basic
import Devnet.Proofs.Consensus.Members
import Devnet.Proofs.Table.Ascending
import Mathlib

namespace Devnet

variable {pairs : List KeyPair}

namespace ValidatorSet

theorem powers_validatorsOf (pairs : List KeyPair) :
    powers (validatorsOf pairs) = List.replicate pairs.length 1 := by
  rw [powers, validatorsOf, List.map_map]
  change pairs.map (fun _ => (1 : Int)) = _
  exact List.map_const'

theorem total_validatorsOf (pairs : List KeyPair) : total (validatorsOf pairs) = pairs.length := by
  rw [total, powers_validatorsOf, List.sum_replicate, nsmul_one]

theorem overflows_validatorsOf (pairs : List KeyPair) :
    Overflows (validatorsOf pairs) ↔ 2 ^ 63 ≤ pairs.length := by
  have positive : positiveTotal (validatorsOf pairs) = pairs.length := by
    rw [positiveTotal, powers_validatorsOf, List.filter_replicate_of_pos (by decide),
      List.sum_replicate, nsmul_one]
  rw [Overflows, positive, total_validatorsOf, Word.greatestInt64, Word.leastInt64]
  omega

theorem ofList?_validatorsOf (small : pairs.length < 2 ^ 63) :
    ∃ set, ofList? (validatorsOf pairs) = some set ∧ set.validators.Perm (validatorsOf pairs) := by
  have made := ofList?_eq (validatorsOf pairs)
  rw [if_neg (mt (overflows_validatorsOf pairs).mp (by omega))] at made
  exact ⟨_, made, List.mergeSort_perm _ _⟩

end ValidatorSet

namespace Signers

theorem ofPairs_perm (distinct : (pairs.map fun pair => pair.consensusKey.address).Nodup) :
    (ofPairs pairs).Perm (pairs.map fun pair => (pair.consensusKey.address.render, pair)) := by
  apply Table.ofEntries_perm
  have keys := distinct.map ConsensusAddress.render_injective
  rw [List.map_map] at keys ⊢
  exact keys

theorem find?_ofPairs (distinct : (pairs.map fun pair => pair.consensusKey.address).Nodup)
    {address : String} {pair : KeyPair} : (ofPairs pairs).find? address = some pair ↔
      pair ∈ pairs ∧ address = pair.consensusKey.address.render := by
  have keys : ((ofPairs pairs).map Prod.fst).Nodup := (Table.ascending_ofEntries _).keys_nodup
  rw [find?, Table.get?_eq_some_iff keys, (ofPairs_perm distinct).mem_iff, List.mem_map]
  constructor
  · intro given
    rcases given with ⟨source, member, same⟩
    cases same
    exact ⟨member, rfl⟩
  · intro given
    rcases given with ⟨member, rfl⟩
    exact ⟨pair, member, rfl⟩

end Signers

namespace Network

section Found

variable {set : ValidatorSet} (perm : set.validators.Perm (validatorsOf pairs))

include perm

theorem publicKeys_perm : (set.validators.map Validator.publicKey).Perm (pairs.map KeyPair.consensusKey) := by
  have keys := perm.map Validator.publicKey
  rw [validatorsOf, List.map_map] at keys
  exact keys

theorem nodup_addresses (distinct : (pairs.map fun pair => pair.consensusKey.address).Nodup) :
    (set.validators.map Validator.address).Nodup := by
  rw [(perm.map Validator.address).nodup_iff, validatorsOf, List.map_map]
  exact distinct

theorem find?_eq_some_iff_signer
    (distinct : (pairs.map fun pair => pair.consensusKey.address).Nodup) {address : String}
    {v : Validator} : set.find? address = some v ↔
      ∃ pair, (Signers.ofPairs pairs).find? address = some pair ∧ v = .ofKey pair.consensusKey 1 := by
  rw [ValidatorSet.find?_eq_some_iff (nodup_addresses perm distinct), perm.mem_iff, validatorsOf,
    List.mem_map]
  simp only [Signers.find?_ofPairs distinct]
  constructor
  · rintro ⟨⟨pair, member, rfl⟩, rfl⟩
    exact ⟨pair, ⟨member, rfl⟩, rfl⟩
  · rintro ⟨pair, ⟨member, rfl⟩, rfl⟩
    exact ⟨⟨pair, member, rfl⟩, rfl⟩

theorem map_find?_signers (distinct : (pairs.map fun pair => pair.consensusKey.address).Nodup)
    (address : String) : ((Signers.ofPairs pairs).find? address).map KeyPair.consensusKey =
      (set.find? address).map Validator.publicKey := by
  cases found : set.find? address with
  | some v =>
      rcases (find?_eq_some_iff_signer perm distinct).mp found with ⟨pair, signs, rfl⟩
      rw [signs]
      rfl
  | none =>
      cases signs : (Signers.ofPairs pairs).find? address with
      | none => rfl
      | some pair =>
          have present := (find?_eq_some_iff_signer perm distinct).mpr ⟨pair, signs, rfl⟩
          rw [found] at present
          cases present

end Found

/-- Key pairs with different addresses make a set of just their keys, with one unit of power each, and
as many signers. A text is the address of a signer exactly if it is that of a validator, and then both
have the same key. Only their number can be too large, where the powers do not add up within 64 bits. -/
theorem validatorsAndSigners_agree
    (distinct : (pairs.map fun pair => pair.consensusKey.address).Nodup) :
    (pairs.length < 2 ^ 63 → ∃ set signers, validatorsAndSigners pairs = .ok (set, signers) ∧
      (set.validators.map Validator.publicKey).Perm (pairs.map KeyPair.consensusKey) ∧
      (∀ v ∈ set.validators, v.address = v.publicKey.address ∧ v.votingPower = 1) ∧
      set.totalPower.toInt = pairs.length ∧ signers.length = pairs.length ∧
      ∀ address, (signers.find? address).map KeyPair.consensusKey =
        (set.find? address).map Validator.publicKey) ∧
    (validatorsAndSigners pairs = .error .powerOverflow ↔ 2 ^ 63 ≤ pairs.length) := by
  refine ⟨fun small => ?_, ?_⟩
  · rcases ValidatorSet.ofList?_validatorsOf small with ⟨set, made, perm⟩
    have total : set.totalPower.toInt = pairs.length := by
      rw [ValidatorSet.totalPower_of_ofList? made, ValidatorSet.total_validatorsOf]
    have count : (Signers.ofPairs pairs).length = pairs.length := by
      rw [(Signers.ofPairs_perm distinct).length_eq, List.length_map]
    have result : validatorsAndSigners pairs = .ok (set, .ofPairs pairs) := by
      rw [validatorsAndSigners, made]
    refine ⟨set, .ofPairs pairs, result, publicKeys_perm perm, fun v member => ?_, total, count,
      map_find?_signers perm distinct⟩
    rcases List.mem_map.mp (perm.mem_iff.mp member) with ⟨pair, -, rfl⟩
    exact ⟨rfl, rfl⟩
  · rw [← ValidatorSet.overflows_validatorsOf, ← ValidatorSet.ofList?_eq_none_iff,
      validatorsAndSigners]
    split <;> simp [*]

def smallPairs : List KeyPair := [.ofSeed (List.replicate 32 0), .ofSeed (List.replicate 32 1)]

theorem validatorsAndSigners_smallPairs : ∃ set signers,
    validatorsAndSigners smallPairs = .ok (set, signers) ∧ set.totalPower.toInt = 2 ∧
    signers.length = 2 ∧ (∃ v ∈ set.validators, v.publicKey =
      (KeyPair.ofSeed (List.replicate 32 1)).consensusKey ∧ v.votingPower = 1) ∧
    (signers.find? (KeyPair.ofSeed (List.replicate 32 1)).consensusKey.address.render).map
        KeyPair.consensusKey =
      (set.find? (KeyPair.ofSeed (List.replicate 32 1)).consensusKey.address.render).map
        Validator.publicKey := by
  have distinct : (smallPairs.map fun pair => pair.consensusKey.address).Nodup := by decide +kernel
  obtain ⟨set, signers, made, keys, each, total, count, agree⟩ :=
    (validatorsAndSigners_agree distinct).1 (by decide)
  have listed : (KeyPair.ofSeed (List.replicate 32 1)).consensusKey ∈
      smallPairs.map KeyPair.consensusKey := List.mem_cons_of_mem _ List.mem_cons_self
  obtain ⟨v, member, key⟩ := List.mem_map.mp (keys.mem_iff.mpr listed)
  exact ⟨set, signers, made, total, count, ⟨v, member, key, (each v member).2⟩, agree _⟩

end Network
end Devnet
