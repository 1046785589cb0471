import Devnet.Genesis.Staking
import Devnet.Proofs.Coin.Held
import Devnet.Proofs.Genesis.Seen
import Mathlib

namespace Devnet.Staking

theorem notBondedPool_ne_bondedPool : notBondedPool ≠ bondedPool := by decide +kernel

theorem Params.validate_standard {denom : String} (valid : Denom.isValid denom = true) :
    { Params.standard with bondDenom := denom }.validate = .ok () := by
  unfold validate
  rw [show Denom.validate denom = .ok () from Denom.validate_eq_ok.mpr valid]
  rfl

structure Validator.Valid (v : Validator) : Prop where
  operator : ∃ operator, Address.parse .operator v.operatorAddress = .ok operator
  free : ¬(v.jailed && v.isBonded) = true
  shared : ¬(v.delegatorShares.isZero && v.status ≠ .unbonding) = true
  commission : v.commission.validate = .ok ()

namespace Section

theorem checkValidator_eq_ok {known after : Known} {v : Validator} :
    checkValidator known v = .ok after ↔
      v.Valid ∧ v.operatorAddress ∉ known.1 ∧
        ∃ key, v.publicKey = .ok key ∧ key ∉ known.2 ∧
          after = (v.operatorAddress :: known.1, key :: known.2) := by
  unfold checkValidator
  simp only [bind_eq_ok, check_bind_eq_ok, discard_eq_ok, mapError_eq_ok, Seen.add_eq_ok, pure_eq_ok]
  constructor
  · intro given
    rcases given with ⟨_, operator, _, ⟨newOperator, rfl⟩, key, unpacked, _, ⟨newKey, rfl⟩, free,
      shared, _, commission, rfl⟩
    exact ⟨⟨operator, free, shared, commission⟩, newOperator, key, unpacked, newKey, rfl⟩
  · intro given
    rcases given with ⟨⟨operator, free, shared, commission⟩, newOperator, key, unpacked, newKey, rfl⟩
    exact ⟨(), operator, _, ⟨newOperator, rfl⟩, key, unpacked, _, ⟨newKey, rfl⟩, free, shared, (),
      commission, rfl⟩

theorem foldlM_checkValidator_eq_ok {validators : List Validator} {known after : Known} :
    validators.foldlM checkValidator known = .ok after ↔
      (∀ v ∈ validators, v.Valid) ∧ Seen.Fresh known.1 (validators.map Validator.operatorAddress) ∧
        ∃ keys, List.Forall₂ (fun v key => Validator.publicKey v = .ok key) validators keys ∧
          Seen.Fresh known.2 keys ∧
          after = ((validators.map Validator.operatorAddress).reverse ++ known.1,
            keys.reverse ++ known.2) := by
  induction validators generalizing known with
  | nil =>
      rw [List.foldlM_nil, pure_eq_ok]
      simp [Seen.fresh_nil, List.forall₂_nil_left_iff, eq_comm]
  | cons v validators ih =>
      simp only [List.foldlM_cons, bind_eq_ok, checkValidator_eq_ok, ih, List.map_cons,
        Seen.fresh_cons, List.forall_mem_cons, List.forall₂_cons_left_iff, List.reverse_cons,
        List.append_assoc]
      constructor
      · intro given
        rcases given with ⟨_, ⟨first, newOperator, key, unpacked, newKey, rfl⟩, others, operators,
          keys, unpackedRest, fresh, rfl⟩
        refine ⟨⟨first, others⟩, ⟨newOperator, operators⟩, key :: keys,
          ⟨key, keys, unpacked, unpackedRest, rfl⟩, ?_, ?_⟩
        · exact (Seen.fresh_cons _ _ _).mpr ⟨newKey, fresh⟩
        · rw [List.reverse_cons, List.append_assoc]
          rfl
      · intro given
        rcases given with ⟨⟨first, others⟩, ⟨newOperator, operators⟩, _,
          ⟨key, keys, unpacked, unpackedRest, rfl⟩, fresh, rfl⟩
        obtain ⟨newKey, freshRest⟩ := (Seen.fresh_cons _ _ _).mp fresh
        refine ⟨_, ⟨first, newOperator, key, unpacked, newKey, rfl⟩, others, operators, keys,
          unpackedRest, freshRest, ?_⟩
        rw [List.reverse_cons, List.append_assoc]
        rfl

theorem checkDelegation_eq_ok {operators : List String} {delegation : Delegation} {done : Unit} :
    checkDelegation operators delegation = .ok done ↔
      (∃ account, Address.parse .account delegation.delegatorAddress = .ok account) ∧
        delegation.validatorAddress ∈ operators := by
  unfold checkDelegation
  simp only [bind_eq_ok, check_eq_ok, discard_eq_ok, mapError_eq_ok, pure_eq_ok, not_not]
  constructor
  · intro given
    rcases given with ⟨_, account, known, -⟩
    exact ⟨account, known⟩
  · intro given
    rcases given with ⟨account, known⟩
    exact ⟨(), account, known, trivial⟩

structure Valid (s : Section) : Prop where
  params : s.params.validate = .ok ()
  validators : ∀ v ∈ s.validators, v.Valid
  operators : (s.validators.map Validator.operatorAddress).Nodup
  keys : ∃ keys, List.Forall₂ (fun v key => Validator.publicKey v = .ok key) s.validators keys ∧
    keys.Nodup
  delegators : ∀ delegation ∈ s.delegations,
    ∃ account, Address.parse .account delegation.delegatorAddress = .ok account
  delegations : ∀ delegation ∈ s.delegations,
    delegation.validatorAddress ∈ s.validators.map Validator.operatorAddress

theorem validate_eq_ok {s : Section} {done : Unit} : s.validate = .ok done ↔ s.Valid := by
  unfold validate
  simp only [bind_eq_ok, foldlM_checkValidator_eq_ok, forM_eq_ok, checkDelegation_eq_ok,
    Seen.fresh_empty, List.append_nil]
  constructor
  · intro given
    rcases given with ⟨⟨⟩, params, _, ⟨validators, operators, keys, unpacked, distinct, rfl⟩,
      delegations⟩
    exact ⟨params, validators, operators, ⟨keys, unpacked, distinct⟩,
      fun delegation member => (delegations delegation member).1,
      fun delegation member => List.mem_reverse.mp (delegations delegation member).2⟩
  · intro given
    rcases given with ⟨params, validators, operators, ⟨keys, unpacked, distinct⟩, delegators,
      delegations⟩
    exact ⟨(), params, _, ⟨validators, operators, keys, unpacked, distinct, rfl⟩,
      fun delegation member => ⟨delegators delegation member,
        List.mem_reverse.mpr (delegations delegation member)⟩⟩

end Section
end Devnet.Staking
