import Devnet.Proofs.Application.Validators
import Mathlib

/-! How much the order of the expected validators matters. Updates are compared after they are sorted
by the bytes of their keys, so only those that share their bytes, under keys of different types, have to
be listed in the order in which the chain has them. -/

namespace Devnet.Application

variable {app : Application} {store next : Store} {request : InitRequest} {response : InitResponse}

theorem Approves.expecting {genesis : Genesis} {sections : Sections}
    {updates listed : List ValidatorUpdate} (approved : app.Approves request genesis sections updates)
    (expected : checkExpected listed updates = .ok ()) :
    app.Approves { request with validators := listed } genesis sections updates :=
  { reads := approved.reads
    decodes := approved.decodes
    valid := approved.valid
    powers := approved.powers
    expected }

/-- A request that is taken is taken in the same way if it expects what it gets, and is refused if it
expects something else. -/
theorem initChain_expecting (taken : app.initChain store request = .ok (response, next))
    (listed : List ValidatorUpdate) :
    app.initChain store { request with validators := listed } =
      (checkExpected listed response.validators).map fun _ => (response, next) := by
  obtain ⟨chain, blank, genesis, sections, updates, approved, rfl, rfl⟩ := initChain_eq_ok.mp taken
  cases expected : checkExpected listed updates with
  | ok done =>
      exact initChain_eq_ok.mpr
        ⟨chain, blank, genesis, sections, updates, approved.expecting expected, rfl, rfl⟩
  | error fault =>
      have valid : sections.validate app.registry = .ok () := Sections.validate_eq_ok.mpr approved.valid
      have judged : app.judge { request with validators := listed } = .error fault := by
        simp only [judge, approved.reads, Except.mapError, approved.decodes, valid, approved.powers,
          expected, bind, Except.bind]
      simp only [initChain, ne_eq, chain, not_true, blank, Bool.false_eq_true, if_false] at judged ⊢
      rw [judged]
      rfl

theorem checkExpected_of_ne {expected found : List ValidatorUpdate} (some : expected ≠ [])
    (different : ValidatorUpdate.sorted expected ≠ ValidatorUpdate.sorted found) :
    checkExpected expected found =
      .error (.ofChain (.validatorMismatch expected.length found.length)) := by
  unfold checkExpected
  rw [if_neg]
  simp [some, different]

/-- The expected validators may come in another order than the chain has them, unless that swaps two
with the same bytes. -/
theorem initChain_reordered (taken : app.initChain store request = .ok (response, next))
    {listed : List ValidatorUpdate} (perm : listed.Perm response.validators) :
    ((∀ bytes, ValidatorUpdate.withBytes bytes listed =
        ValidatorUpdate.withBytes bytes response.validators) →
      app.initChain store { request with validators := listed } = .ok (response, next)) ∧
    (¬(∀ bytes, ValidatorUpdate.withBytes bytes listed =
        ValidatorUpdate.withBytes bytes response.validators) →
      app.initChain store { request with validators := listed } = .error
        (.ofChain (.validatorMismatch listed.length response.validators.length))) := by
  rw [initChain_expecting taken]
  constructor
  · intro same
    have agreed : checkExpected listed response.validators = .ok () :=
      checkExpected_eq_ok.mpr (Or.inr (ValidatorUpdate.sorted_eq_iff.mpr same))
    rw [agreed]
    rfl
  · intro swapped
    have some : listed ≠ [] := by
      rintro rfl
      rw [perm.nil_eq] at swapped
      exact swapped fun _ => rfl
    rw [checkExpected_of_ne some fun same => swapped (ValidatorUpdate.sorted_eq_iff.mp same)]
    rfl

/-- Two validators whose keys have the same bytes and different types. -/
def twinStaking : Staking.Section := .make .standard
  [uniformValidator 1 (10 ^ 18), { uniformValidator 2 (10 ^ 18) with
    consensusKey := (AppKey.secp256k1 (List.replicate AppKey.ed25519Size 1)).pack }] []

def twinUpdates : List ValidatorUpdate :=
  [⟨⟨.ed25519, List.replicate AppKey.ed25519Size 1⟩, 1⟩,
   ⟨⟨.secp256k1, List.replicate AppKey.ed25519Size 1⟩, 1⟩]

def twinRequest : InitRequest := stakingRequest (poolBank (2 * 10 ^ 18) 0) twinStaking []

theorem samples_twinStaking :
    List.Forall₂ (fun v source => IsSample v source.1 source.2) twinStaking.validators
      [(⟨List.replicate 20 1⟩, .ed25519 (List.replicate AppKey.ed25519Size 1)),
       (⟨List.replicate 20 2⟩, .secp256k1 (List.replicate AppKey.ed25519Size 1))] :=
  .cons (isSample_uniformValidator 1 _) (.cons (isSample_withKey 2 _ _) .nil)

theorem taken_twinRequest : ∃ appHash next,
    (fresh "evmos_9000-1" ".evmosd" .dropped).initChain .empty twinRequest =
      .ok (⟨twinUpdates, appHash⟩, next) := by
  have tokens : twinStaking.bondedTokens = 2 * 10 ^ 18 ∧ twinStaking.notBondedTokens = 0 := by decide
  have powers : twinStaking.updates = .ok twinUpdates := by decide +kernel
  exact initChain_samples samples_twinStaking (by decide) (by decide) (by decide) tokens.1 (by decide)
    (by decide) tokens.2 (by decide) (by decide) powers rfl

theorem swapped_twinUpdates : ¬∀ bytes, ValidatorUpdate.withBytes bytes twinUpdates.reverse =
    ValidatorUpdate.withBytes bytes twinUpdates := by
  intro same
  have shared := same (List.replicate AppKey.ed25519Size 1)
  revert shared
  decide

/-- A request that lists the two the other way round is refused. -/
theorem refused_twinRequest : ∃ response next listed,
    twinRequest.validators = [] ∧
    (fresh "evmos_9000-1" ".evmosd" .dropped).initChain .empty twinRequest = .ok (response, next) ∧
    response.validators ≠ [] ∧ listed.Perm response.validators ∧
    (fresh "evmos_9000-1" ".evmosd" .dropped).initChain .empty
      { twinRequest with validators := listed } = .error (.ofChain (.validatorMismatch 2 2)) := by
  obtain ⟨appHash, next, taken⟩ := taken_twinRequest
  refine ⟨_, next, twinUpdates.reverse, rfl, taken, List.cons_ne_nil _ _, List.reverse_perm _, ?_⟩
  have different : checkExpected twinUpdates.reverse twinUpdates =
      .error (.ofChain (.validatorMismatch 2 2)) :=
    checkExpected_of_ne (List.cons_ne_nil _ _) fun same =>
      swapped_twinUpdates (ValidatorUpdate.sorted_eq_iff.mp same)
  rw [initChain_expecting taken, different]
  rfl

theorem initChain_reordered_twinRequest : ∃ response next,
    (fresh "evmos_9000-1" ".evmosd" .dropped).initChain .empty twinRequest = .ok (response, next) ∧
    (fresh "evmos_9000-1" ".evmosd" .dropped).initChain .empty
      { twinRequest with validators := response.validators.reverse } = .error
        (.ofChain (.validatorMismatch 2 2)) := by
  obtain ⟨appHash, next, taken⟩ := taken_twinRequest
  exact ⟨_, next, taken, (initChain_reordered taken (List.reverse_perm _)).2 swapped_twinUpdates⟩

end Devnet.Application
