import Devnet.Proofs.Application.Requests
import Devnet.Proofs.Consensus.Sorted
import Devnet.Proofs.Genesis.Staking
import Devnet.Proofs.Genesis.Updates
import Mathlib

namespace Devnet

namespace Staking

def Validator.isActive (v : Validator) : Bool := v.isBonded && decide (10 ^ 18 ≤ v.tokens)

theorem Validator.isActive_iff {v : Validator} :
    v.isActive = true ↔ v.isBonded = true ∧ 10 ^ 18 ≤ v.tokens := by
  rw [isActive, Bool.and_eq_true, decide_eq_true_iff]

/-- An update with the key of a validator, and with the whole units of its tokens as power. -/
structure Validator.Has (v : Validator) (update : ValidatorUpdate) : Prop where
  key : v.publicKey = .ok update.publicKey
  power : update.power.toInt = v.tokens / 10 ^ 18
  least : 1 ≤ update.power.toInt
  most : update.power.toInt ≤ 2 ^ 63 - 1

theorem tdiv_powerReduction_eq {tokens : Int} (enough : 10 ^ 18 ≤ tokens) :
    tokens.tdiv Integer.powerReduction = tokens / 10 ^ 18 := by
  have reduction : Integer.powerReduction = 10 ^ 18 := by decide
  rw [reduction]
  exact Int.tdiv_eq_ediv_of_nonneg (by omega)

theorem Validator.update?_of_isActive {v : Validator} {result : Option ValidatorUpdate}
    (active : v.isActive = true) (read : v.update? = .ok result) :
    ∃ update, result = some update ∧ v.Has update := by
  obtain ⟨bonded, enough⟩ := isActive_iff.mp active
  obtain ⟨power, powered, outcome⟩ := update?_eq_ok.mp read
  rw [consensusPower_eq_ok, if_pos bonded, tdiv_powerReduction_eq enough] at powered
  have positive : 1 ≤ power.toInt := by omega
  have bound := power.toInt_lt
  have notIdle : ¬power ≤ 0 := fun idle => by
    have value : power.toInt ≤ 0 := Int64.le_iff_toInt_le.mp idle
    omega
  rw [if_neg notIdle] at outcome
  obtain ⟨key, unpacked, made⟩ := outcome
  exact ⟨⟨key, power⟩, made, unpacked, powered.2, positive, Int.le_sub_one_of_lt bound⟩

theorem Validator.update?_of_idle {v : Validator} {result : Option ValidatorUpdate}
    (idle : ¬v.isActive = true) (read : v.update? = .ok result) : result = none := by
  obtain ⟨power, powered, outcome⟩ := update?_eq_ok.mp read
  have powerless : power ≤ 0 := by
    apply Int64.le_iff_toInt_le.mpr
    rw [consensusPower_eq_ok] at powered
    split at powered
    · rename_i bonded
      have few : v.tokens < 10 ^ 18 := by
        by_contra enough
        exact idle (isActive_iff.mpr ⟨bonded, Int.not_lt.mp enough⟩)
      rw [powered.2]
      exact Integer.tdiv_nonpos_of_lt (by decide) few
    · rw [powered]
  rw [if_pos powerless] at outcome
  exact outcome

namespace Section

theorem has_updates {s : Section} {updates : List ValidatorUpdate} (given : s.updates = .ok updates) :
    List.Forall₂ Validator.Has (s.validators.filter Validator.isActive) updates := by
  obtain ⟨found, each, rfl⟩ := updates_eq_ok.mp given
  clear given
  generalize s.validators = validators at each ⊢
  induction each with
  | nil => exact .nil
  | @cons v result validators found read others ih =>
      by_cases active : v.isActive = true
      · obtain ⟨update, rfl, has⟩ := Validator.update?_of_isActive active read
        rw [List.filter_cons_of_pos active]
        exact .cons has ih
      · rw [Validator.update?_of_idle active read, List.filter_cons_of_neg active]
        exact ih

theorem map_publicKey_eq {validators : List Validator} {keys : List PublicKey}
    (unpacked : List.Forall₂ (fun v key => Validator.publicKey v = .ok key) validators keys) :
    validators.map Validator.publicKey = keys.map .ok := by
  rw [← List.forall₂_eq_eq_eq, List.forall₂_map_left_iff, List.forall₂_map_right_iff]
  exact unpacked

theorem Valid.nodup_map_publicKey {s : Section} (valid : s.Valid) :
    (s.validators.map Validator.publicKey).Nodup := by
  obtain ⟨keys, unpacked, distinct⟩ := valid.keys
  rw [map_publicKey_eq unpacked]
  exact distinct.map fun _ _ same => Except.ok.inj same

variable {s : Section} {updates : List ValidatorUpdate}

theorem nodup_publicKey_updates (valid : s.Valid) (given : s.updates = .ok updates) :
    (updates.map ValidatorUpdate.publicKey).Nodup := by
  have keys : List.Forall₂ (fun v key => Validator.publicKey v = .ok key)
      (s.validators.filter Validator.isActive) (updates.map ValidatorUpdate.publicKey) := by
    rw [List.forall₂_map_right_iff]
    exact (has_updates given).imp fun _ _ has => has.key
  have active : ((s.validators.filter Validator.isActive).map Validator.publicKey).Nodup :=
    valid.nodup_map_publicKey.sublist (List.filter_sublist.map _)
  rw [map_publicKey_eq keys] at active
  exact List.Nodup.of_map _ active

/-- Whoever has the key of an update is not jailed. -/
theorem jailed_eq_false (valid : s.Valid) (given : s.updates = .ok updates) {v : Validator}
    (present : v ∈ s.validators) {update : ValidatorUpdate} (member : update ∈ updates)
    (unpacked : v.publicKey = .ok update.publicKey) : v.jailed = false := by
  obtain ⟨source, inside, has⟩ := exists_of_forall₂ (has_updates given) member
  obtain ⟨present', active⟩ := List.mem_filter.mp inside
  have same : v = source := List.inj_on_of_nodup_map valid.nodup_map_publicKey present present'
    (unpacked.trans has.key.symm)
  have free := (valid.validators v present).free
  rw [← same, Validator.isActive_iff] at active
  simpa [active.1] using free

end Section
end Staking

namespace Application

theorem checkExpected_eq_ok {expected found : List ValidatorUpdate} {done : Unit} :
    checkExpected expected found = .ok done ↔
      expected = [] ∨ ValidatorUpdate.sorted expected = ValidatorUpdate.sorted found := by
  unfold checkExpected
  split <;> simp_all

/-- The validators of a chain are the active ones of its staking section, in order, each with its key
and its power; no key comes twice and nobody with such a key is jailed. A request that lists
validators lists these. -/
theorem initChain_validators {app : Application} {store next : Store} {request : InitRequest}
    {response : InitResponse} (taken : app.initChain store request = .ok (response, next)) :
    ∃ genesis sections, Genesis.ofAppStateBytes request.appState = .ok genesis ∧
      genesis.sections = .ok sections ∧
      List.Forall₂ Staking.Validator.Has
        (sections.staking.validators.filter Staking.Validator.isActive) response.validators ∧
      (response.validators.map ValidatorUpdate.publicKey).Nodup ∧
      (∀ update ∈ response.validators, ∀ v ∈ sections.staking.validators,
        v.publicKey = .ok update.publicKey → v.jailed = false) ∧
      (request.validators ≠ [] → request.validators.Perm response.validators) := by
  obtain ⟨-, -, genesis, sections, updates, approved, rfl, -⟩ := initChain_eq_ok.mp taken
  have valid := Staking.Section.validate_eq_ok.mp approved.valid.staking
  refine ⟨genesis, sections, approved.reads, approved.decodes,
    Staking.Section.has_updates approved.powers,
    Staking.Section.nodup_publicKey_updates valid approved.powers, ?_, ?_⟩
  · intro update member v present unpacked
    exact Staking.Section.jailed_eq_false valid approved.powers present member unpacked
  · intro listed
    have sorted := (checkExpected_eq_ok.mp approved.expected).resolve_left listed
    have perm := ValidatorUpdate.sorted_perm request.validators
    rw [sorted] at perm
    exact perm.symm.trans (ValidatorUpdate.sorted_perm updates)

def mixedStaking : Staking.Section := .make .standard
  [uniformValidator 1 (3 * 10 ^ 18 + 5), uniformValidator 2 (10 ^ 18 - 1),
   { uniformValidator 3 (7 * 10 ^ 18) with status := .unbonded, jailed := true },
   uniformValidator 4 (10 ^ 18), { uniformValidator 5 (2 * 10 ^ 18) with status := .unbonding }] []

def mixedRequest : InitRequest :=
  stakingRequest (poolBank (5 * 10 ^ 18 + 4) (9 * 10 ^ 18)) mixedStaking
    [⟨⟨.ed25519, List.replicate AppKey.ed25519Size 4⟩, 1⟩,
     ⟨⟨.ed25519, List.replicate AppKey.ed25519Size 1⟩, 3⟩]

theorem initChain_validators_mixedRequest : ∃ response next,
    (fresh "evmos_9000-1" ".evmosd" .dropped).initChain .empty mixedRequest =
      .ok (response, next) ∧
    mixedRequest.validators.Perm response.validators := by
  have samples : List.Forall₂ (fun v source => IsSample v source.1 source.2)
      mixedStaking.validators ([1, 2, 3, 4, 5].map fun byte => (⟨List.replicate 20 byte⟩,
        .ed25519 (List.replicate AppKey.ed25519Size byte))) := by
    refine .cons (isSample_uniformValidator 1 _) (.cons (isSample_uniformValidator 2 _)
      (.cons ?_ (.cons (isSample_uniformValidator 4 _) (.cons ?_ .nil))))
    · exact { isSample_uniformValidator 3 (7 * 10 ^ 18) with free := rfl }
    · exact { isSample_uniformValidator 5 (2 * 10 ^ 18) with free := rfl }
  have bonded : mixedStaking.bondedTokens = 5 * 10 ^ 18 + 4 ∧
      mixedStaking.notBondedTokens = 9 * 10 ^ 18 := by decide
  have powers : mixedStaking.updates = .ok mixedRequest.validators.reverse := by decide +kernel
  have expected : checkExpected mixedRequest.validators mixedRequest.validators.reverse = .ok () :=
    checkExpected_eq_ok.mpr (Or.inr (ValidatorUpdate.sorted_eq_of_perm
      (List.reverse_perm _).symm (by decide)))
  obtain ⟨appHash, next, taken⟩ := initChain_samples samples (by decide) (by decide)
    (by decide) bonded.1 (by decide) (by decide) bonded.2 (by decide) (by decide) powers expected
  obtain ⟨genesis, sections, -, -, -, -, -, listed⟩ := initChain_validators taken
  exact ⟨_, next, taken, listed (by decide)⟩

end Application
end Devnet
