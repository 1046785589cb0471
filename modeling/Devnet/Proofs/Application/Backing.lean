import Devnet.Proofs.Application.Expected
import Devnet.Proofs.Genesis.Updates
import Mathlib

/-! How far the bonded pool covers the power that is handed out. Each bonded validator loses the
fraction of a unit, or, if its tokens are below zero, all that it owes the pool. -/

namespace Devnet

def ValidatorUpdate.totalPower : List ValidatorUpdate → Int
  | [] => 0
  | update :: updates => update.power.toInt + totalPower updates

namespace Staking

def fractions : List Validator → Int
  | [] => 0
  | v :: rest =>
    (if v.isBonded = true ∧ 0 ≤ v.tokens then v.tokens % Integer.powerReduction else 0) +
      fractions rest

def owed : List Validator → Int
  | [] => 0
  | v :: rest => (if v.isBonded = true ∧ v.tokens < 0 then -v.tokens else 0) + owed rest

theorem fractions_nonneg (validators : List Validator) : 0 ≤ fractions validators := by
  induction validators with
  | nil => exact Int.le_refl 0
  | cons v rest ih =>
      have rest_nonneg := Int.emod_nonneg v.tokens (show Integer.powerReduction ≠ 0 by decide)
      rw [fractions]
      split <;> omega

theorem owed_eq_zero {validators : List Validator}
    (covered : ∀ v ∈ validators, v.isBonded = true → 0 ≤ v.tokens) : owed validators = 0 := by
  induction validators with
  | nil => rfl
  | cons v rest ih =>
      rw [owed, ih fun other member => covered other (List.mem_cons_of_mem _ member), if_neg]
      · rfl
      · intro given
        rcases given with ⟨bonded, negative⟩
        have positive := covered v List.mem_cons_self bonded
        omega

theorem max_tdiv_mul (tokens : Int) {reduction : Int} (positive : 0 < reduction) :
    max 0 (tokens.tdiv reduction) * reduction =
      tokens + (if tokens < 0 then -tokens else 0) -
        (if 0 ≤ tokens then tokens % reduction else 0) := by
  rcases Int.lt_or_le tokens 0 with negative | enough
  · have below : tokens.tdiv reduction ≤ 0 :=
      Integer.tdiv_nonpos_of_lt positive (negative.trans positive)
    rw [Int.max_eq_left below, if_pos negative, if_neg (by omega)]
    omega
  · have quotient : 0 ≤ tokens / reduction := Int.ediv_nonneg enough (by omega)
    have parts := Int.mul_ediv_add_emod tokens reduction
    rw [Int.tdiv_eq_ediv_of_nonneg enough, Int.max_eq_right quotient, if_neg (by omega),
      if_pos enough, Int.mul_comm]
    omega

/-- A validator without an update has no power, so power below zero is not handed out. -/
theorem totalPower_update? {v : Validator} {result : Option ValidatorUpdate}
    (read : v.update? = .ok result) :
    ValidatorUpdate.totalPower result.toList =
      if v.isBonded then max 0 (v.tokens.tdiv Integer.powerReduction) else 0 := by
  obtain ⟨power, powered, outcome⟩ := Validator.update?_eq_ok.mp read
  have sign : power ≤ 0 ↔ power.toInt ≤ 0 := Int64.le_iff_toInt_le
  have value : ValidatorUpdate.totalPower result.toList = max 0 power.toInt := by
    split at outcome
    · rename_i idle
      rw [outcome, Int.max_eq_left (sign.mp idle)]
      rfl
    · rename_i active
      obtain ⟨key, -, rfl⟩ := outcome
      have above : 0 ≤ power.toInt := by
        rw [sign] at active
        omega
      rw [Int.max_eq_right above]
      exact Int.add_zero _
  rw [Validator.consensusPower_eq_ok] at powered
  rw [value]
  split at powered
  · rename_i bonded
    rw [if_pos bonded, powered.2]
  · rename_i free
    rw [if_neg free, powered]
    rfl

theorem power_of_update? {v : Validator} {result : Option ValidatorUpdate}
    (read : v.update? = .ok result) :
    ValidatorUpdate.totalPower result.toList * Integer.powerReduction =
      (if v.isBonded then v.tokens else 0) +
        (if v.isBonded = true ∧ v.tokens < 0 then -v.tokens else 0) -
        (if v.isBonded = true ∧ 0 ≤ v.tokens then v.tokens % Integer.powerReduction else 0) := by
  rw [totalPower_update? read]
  by_cases bonded : v.isBonded = true
  · simp only [bonded, if_true, true_and]
    exact max_tdiv_mul v.tokens (by decide)
  · simp [bonded]

theorem totalPower_updates {s : Section} {updates : List ValidatorUpdate}
    (given : s.updates = .ok updates) :
    ValidatorUpdate.totalPower updates * Integer.powerReduction =
      s.bondedTokens + owed s.validators - fractions s.validators := by
  obtain ⟨found, each, rfl⟩ := Section.updates_eq_ok.mp given
  unfold Section.bondedTokens
  clear given
  generalize s.validators = validators at each ⊢
  -- on the validators together with what each of them is given
  induction each with
  | nil => rfl
  | cons read others ih =>
      rename_i v result validators found
      have one := power_of_update? read
      have power : ValidatorUpdate.totalPower ((result :: found).filterMap id) =
          ValidatorUpdate.totalPower result.toList +
            ValidatorUpdate.totalPower (found.filterMap id) := by
        cases result with
        | none => simp [ValidatorUpdate.totalPower]
        | some update => simp [ValidatorUpdate.totalPower]
      have tokens : tokensOf ((v :: validators).filter Validator.isBonded) =
          (if v.isBonded then v.tokens else 0) +
            tokensOf (validators.filter Validator.isBonded) := by
        cases bonded : v.isBonded <;> simp [bonded, tokensOf]
      rw [power, tokens, Int.add_mul, one, ih, owed, fractions]
      omega

end Staking

namespace Application

/-- Power that is handed out is covered by the bonded pool if and only if the fractions make up for
what bonded validators owe, so always if none of them has tokens below zero. -/
theorem initChain_backing {app : Application} {store next : Store} {request : InitRequest}
    {response : InitResponse} (taken : app.initChain store request = .ok (response, next)) :
    ∃ genesis sections, Genesis.ofAppStateBytes request.appState = .ok genesis ∧
      genesis.sections = .ok sections ∧
      (ValidatorUpdate.totalPower response.validators * Integer.powerReduction ≤
          (sections.bank.balanceOf Staking.bondedPool).amountOf sections.staking.params.bondDenom ↔
        Staking.owed sections.staking.validators ≤
          Staking.fractions sections.staking.validators) ∧
      ((∀ v ∈ sections.staking.validators, v.isBonded = true → 0 ≤ v.tokens) →
        ValidatorUpdate.totalPower response.validators * Integer.powerReduction ≤
          (sections.bank.balanceOf Staking.bondedPool).amountOf
            sections.staking.params.bondDenom) := by
  obtain ⟨-, -, genesis, sections, updates, approved, rfl, -⟩ := initChain_eq_ok.mp taken
  obtain ⟨-, ⟨-, balance⟩, -⟩ := Sections.checkPools_eq_ok.mp approved.valid.pools
  have amount : (sections.bank.balanceOf Staking.bondedPool).amountOf
      sections.staking.params.bondDenom = sections.staking.bondedTokens := by
    rw [balance]
    exact Coins.amountOf_single _
  have power := Staking.totalPower_updates approved.powers
  refine ⟨genesis, sections, approved.reads, approved.decodes, ?_, fun covered => ?_⟩
  · rw [amount, power]
    constructor
    · intro covered
      omega
    · intro enough
      omega
  · have lost := Staking.fractions_nonneg sections.staking.validators
    rw [amount, power, Staking.owed_eq_zero covered]
    omega

def overdrawnRequest : InitRequest where
  chainId := "evmos_9000-1"
  initialHeight := 1
  validators := []
  appState := Codec.members.toBytes
    [(Bank.moduleName, Bank.Section.codec.encode { Bank.Section.standard with
        balances := [.make Staking.bondedPool (.single ⟨"stake", Integer.powerReduction⟩)] }),
     (Staking.moduleName, Staking.Section.codec.encode (.make .standard
        [uniformValidator 1 (10 * Integer.powerReduction),
         uniformValidator 2 (-9 * Integer.powerReduction)] []))]

def overdrawnSections : Sections where
  auth := .standard
  bank := { Bank.Section.standard with
    balances := [.make Staking.bondedPool (.single ⟨"stake", Integer.powerReduction⟩)] }
  staking := .make .standard [uniformValidator 1 (10 * Integer.powerReduction),
    uniformValidator 2 (-9 * Integer.powerReduction)] []
  inflation := .standard
  evm := .standard

def overdrawnGenesis : Genesis := .ofValues
  [(Bank.moduleName, (Bank.Section.codec.encode overdrawnSections.bank).normal),
   (Staking.moduleName, (Staking.Section.codec.encode overdrawnSections.staking).normal)]

theorem settled_overdrawnSections :
    ∀ v ∈ overdrawnSections.staking.validators, v.consensusKey.Settled 0 := by
  intro v member
  rcases List.mem_pair.mp member with rfl | rfl
  · exact (isSample_uniformValidator 1 _).settled
  · exact (isSample_uniformValidator 2 _).settled

theorem reads_overdrawnRequest :
    Genesis.ofAppStateBytes overdrawnRequest.appState = .ok overdrawnGenesis :=
  reads_stakingRequest settled_overdrawnSections []

theorem decodes_overdrawnGenesis : overdrawnGenesis.sections = .ok overdrawnSections := by
  have bankInRange : overdrawnSections.bank.InRange := by
    refine ⟨?_, List.forall_mem_nil _⟩
    intro balance member
    rw [List.mem_singleton.mp member]
    exact Coins.inRange_single.mpr (by decide)
  have stakingInRange : overdrawnSections.staking.InRange := by
    apply Staking.Section.inRange_make Decimal.inRange_zero _ (List.forall_mem_nil _)
    intro v member
    rcases List.mem_pair.mp member with rfl | rfl
    · exact (isSample_uniformValidator 1 _).inRange (by decide)
    · exact (isSample_uniformValidator 2 _).inRange (by decide)
  exact decodes_stakingGenesis settled_overdrawnSections bankInRange stakingInRange

theorem balanceOf_overdrawnSections :
    overdrawnSections.bank.balanceOf Staking.bondedPool = .single ⟨"stake", Integer.powerReduction⟩ ∧
    overdrawnSections.bank.balanceOf Staking.notBondedPool = .single ⟨"stake", 0⟩ := by
  have first : (overdrawnSections.bank.balances.filter
      fun balance => balance.address == Staking.bondedPool.render) =
        [.make Staking.bondedPool (.single ⟨"stake", Integer.powerReduction⟩)] := by
    simp [overdrawnSections, Bank.Balance.make]
  have second : (overdrawnSections.bank.balances.filter
      fun balance => balance.address == Staking.notBondedPool.render) = [] := by
    simp [overdrawnSections, Bank.Balance.make, render_bondedPool_ne]
  constructor
  · rw [Bank.Section.balanceOf, first]
    rfl
  · rw [Bank.Section.balanceOf, second]
    rfl

theorem valid_overdrawnSections : overdrawnSections.Valid .standard := by
  have bank : overdrawnSections.bank.Valid :=
    { sendEnabled := List.forall_mem_nil _
      accounts := List.forall_mem_singleton.mpr ⟨_, parse_moduleAddress _⟩
      coins := List.forall_mem_singleton.mpr (validate_stake (by decide))
      addresses := List.nodup_singleton _
      metadata := List.forall_mem_nil _
      bases := List.nodup_nil
      supply := Or.inl rfl }
  have samples : List.Forall₂ (fun v source => IsSample v source.1 source.2)
      overdrawnSections.staking.validators
      ([1, 2].map fun byte => (⟨List.replicate 20 byte⟩,
        .ed25519 (List.replicate AppKey.ed25519Size byte))) :=
    .cons (isSample_uniformValidator 1 _) (.cons (isSample_uniformValidator 2 _) .nil)
  have tokens : overdrawnSections.staking.bondedTokens = Integer.powerReduction ∧
      overdrawnSections.staking.notBondedTokens = 0 := by decide
  obtain ⟨bonded, notBonded⟩ := balanceOf_overdrawnSections
  exact valid_samples bank bonded notBonded samples (by decide) (by decide) tokens.1 (by decide)
    tokens.2 (Int.le_refl 0)

theorem taken_overdrawnRequest : ∃ response next genesis sections,
    (fresh "evmos_9000-1" ".evmosd" .dropped).initChain .empty overdrawnRequest =
      .ok (response, next) ∧
    Genesis.ofAppStateBytes overdrawnRequest.appState = .ok genesis ∧
    genesis.sections = .ok sections ∧ ValidatorUpdate.totalPower response.validators = 10 ∧
    (sections.bank.balanceOf Staking.bondedPool).amountOf sections.staking.params.bondDenom =
      Integer.powerReduction := by
  have powers : overdrawnSections.staking.updates =
      .ok [⟨⟨.ed25519, List.replicate AppKey.ed25519Size 1⟩, 10⟩] := by decide +kernel
  have amount : (overdrawnSections.bank.balanceOf Staking.bondedPool).amountOf
      overdrawnSections.staking.params.bondDenom = Integer.powerReduction := by
    rw [balanceOf_overdrawnSections.1]
    exact Coins.amountOf_single ⟨"stake", Integer.powerReduction⟩
  have approved : (fresh "evmos_9000-1" ".evmosd" .dropped).Approves overdrawnRequest
      overdrawnGenesis overdrawnSections _ :=
    { reads := reads_overdrawnRequest
      decodes := decodes_overdrawnGenesis
      valid := valid_overdrawnSections
      powers
      expected := rfl }
  exact ⟨_, _, _, _, initChain_eq_ok.mpr ⟨rfl, rfl, _, _, _, approved, rfl, rfl⟩,
    reads_overdrawnRequest, decodes_overdrawnGenesis, rfl, amount⟩

/-- The power of ten units is handed out although the pool holds a single one. -/
theorem not_backed_overdrawnRequest : ∃ response next genesis sections,
    (fresh "evmos_9000-1" ".evmosd" .dropped).initChain .empty overdrawnRequest =
      .ok (response, next) ∧
    Genesis.ofAppStateBytes overdrawnRequest.appState = .ok genesis ∧
    genesis.sections = .ok sections ∧
    ¬ValidatorUpdate.totalPower response.validators * Integer.powerReduction ≤
      (sections.bank.balanceOf Staking.bondedPool).amountOf sections.staking.params.bondDenom := by
  obtain ⟨response, next, genesis, sections, taken, reads, decodes, power, amount⟩ :=
    taken_overdrawnRequest
  refine ⟨response, next, genesis, sections, taken, reads, decodes, ?_⟩
  rw [power, amount]
  decide

theorem initChain_backing_overdrawnRequest : (∃ response next,
    (fresh "evmos_9000-1" ".evmosd" .dropped).initChain .empty overdrawnRequest =
      .ok (response, next) ∧
    ∃ genesis sections, Genesis.ofAppStateBytes overdrawnRequest.appState = .ok genesis ∧
      genesis.sections = .ok sections ∧
      (ValidatorUpdate.totalPower response.validators * Integer.powerReduction ≤
          (sections.bank.balanceOf Staking.bondedPool).amountOf sections.staking.params.bondDenom ↔
        Staking.owed sections.staking.validators ≤
          Staking.fractions sections.staking.validators)) ∧
    ∃ response next,
      (fresh "evmos_9000-1" ".evmosd" .dropped).initChain .empty twinRequest = .ok (response, next) ∧
      ∃ genesis sections, Genesis.ofAppStateBytes twinRequest.appState = .ok genesis ∧
        genesis.sections = .ok sections ∧
        (∀ v ∈ sections.staking.validators, v.isBonded = true → 0 ≤ v.tokens) ∧
        ValidatorUpdate.totalPower response.validators * Integer.powerReduction ≤
          (sections.bank.balanceOf Staking.bondedPool).amountOf
            sections.staking.params.bondDenom := by
  obtain ⟨response, next, -, -, taken, -⟩ := taken_overdrawnRequest
  obtain ⟨appHash, next', taken'⟩ := taken_twinRequest
  obtain ⟨genesis, sections, reads, decodes, exactly, -⟩ := initChain_backing taken
  obtain ⟨genesis', sections', reads', decodes', -, backed⟩ := initChain_backing taken'
  have covered : ∀ v ∈ sections'.staking.validators, v.isBonded = true → 0 ≤ v.tokens := by
    rw [eq_of_reads_stakingRequest (settled_samples samples_twinStaking) reads'
      (Genesis.sections_eq_ok.mp decodes').2.2.1]
    decide
  exact ⟨⟨response, next, taken, genesis, sections, reads, decodes, exactly⟩, _, next', taken',
    genesis', sections', reads', decodes', covered, backed covered⟩

end Application
end Devnet
