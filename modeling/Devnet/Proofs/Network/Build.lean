import Devnet.Proofs.Application.Documents
import Devnet.Proofs.Genesis.Contents
import Devnet.Proofs.Genesis.Evm
import Devnet.Proofs.Genesis.Overrides
import Devnet.Proofs.Network.Founding
import Devnet.Proofs.Network.Signers
import Mathlib

/-! When a network can be set up: every step from the configuration to the first block is passed
exactly by those configurations that are listed at the end. -/

namespace Devnet

theorem NetworkConfig.validate_eq_ok {config : NetworkConfig} {done : Unit} :
    config.validate = .ok done ↔
      Text.isBlank config.chainId = false ∧ 0 < config.validatorCount ∧
        Denom.isValid config.denom = true ∧ 0 < config.initialBalance := by
  unfold validate
  simp only [check_bind_eq_ok, bind_eq_ok, check_eq_ok, pure_eq_ok, mapError_eq_ok,
    Denom.validate_eq_ok, exists_const, not_le, Bool.not_eq_true, and_true, Nat.pos_iff_ne_zero,
    ne_eq]

namespace Network

namespace Founding

variable (f : Founding)

/-- Balances and overrides come last; all that comes before them does not fail. -/
theorem genesisOf_eq : genesisOf f.config f.set f.delegator f.accounts =
    ({ Sections.standard with auth := f.auth, staking := f.staking }.genesis.withInflation
      f.config.overrides >>= fun genesis =>
        (genesis.withBalances f.balances (Bank.totalOf f.balances)).withEvm f.config.overrides) := by
  have balance : Coin.make f.config.denom f.config.initialBalance =
      .ok ⟨f.config.denom, f.config.initialBalance⟩ :=
    Coin.make_eq_ok.mpr ⟨f.isValid_denom, Int.le_of_lt f.balance_pos, rfl⟩
  have bonded : Coin.make f.config.denom f.bonded = .ok ⟨f.config.denom, f.bonded⟩ :=
    Coin.make_eq_ok.mpr ⟨f.isValid_denom, Int.le_of_lt f.bonded_pos, rfl⟩
  have founders := Staking.validatorsFrom_drawn f.drawn
  unfold genesisOf
  rw [balance, founders, Sections.genesis_standard]
  simp only [Sections.genesis_withAccounts, Sections.genesis_withValidators]
  show (do
    let bonded ← (Coin.make f.config.denom f.bonded).mapError Fault.coin
    _) = _
  rw [bonded]
  rfl

theorem genesisOf_eq_ok {genesis : Genesis} :
    genesisOf f.config f.set f.delegator f.accounts = .ok genesis ↔
      ∃ inflation evm, f.config.overrides.content? .inflation = .ok inflation ∧
        f.config.overrides.content? .evm = .ok evm ∧
        genesis = (f.sections (inflation.getD Inflation.Section.disabled)
          (evm.getD Evm.Section.standard)).genesis := by
  rw [genesisOf_eq, bind_eq_ok]
  simp only [Sections.genesis_withInflation_eq_ok]
  constructor
  · intro given
    rcases given with ⟨_, ⟨inflation, found, rfl⟩, last⟩
    rw [Sections.genesis_withBalances, Sections.genesis_withEvm_eq_ok] at last
    obtain ⟨evm, present, same⟩ := last
    exact ⟨inflation, evm, found, present, same⟩
  · intro given
    rcases given with ⟨inflation, evm, found, present, same⟩
    refine ⟨_, ⟨inflation, found, rfl⟩, ?_⟩
    rw [Sections.genesis_withBalances, Sections.genesis_withEvm_eq_ok]
    exact ⟨evm, present, same⟩

section Built

variable {home : String} {drawn : List AccountAddress} {pairs : List KeyPair}

theorem build_eq (valid : f.config.validate = .ok ())
    (settled : f.config.accounts.settle drawn = f.accounts)
    (paired : ValidatorSet.ofList? (validatorsOf pairs) = some f.set) :
    build f.config home drawn pairs =
      (genesisOf f.config f.set f.delegator f.accounts >>= fun genesis =>
        genesis.toAppStateBytes >>= fun appState =>
          (Application.fresh f.config.chainId home .forwarded).initChain .empty
              ⟨f.config.chainId, initialHeight, updatesOf f.set, appState⟩ >>= fun outcome =>
            pure ⟨f.config, .fresh f.config.chainId home .forwarded, outcome.2, f.set,
              .ofPairs pairs, genesis, outcome.1⟩) := by
  unfold build validatorsAndSigners
  rw [valid, settled, accounts, paired]
  rfl

theorem build_eq_ok (valid : f.config.validate = .ok ())
    (settled : f.config.accounts.settle drawn = f.accounts)
    (paired : ValidatorSet.ofList? (validatorsOf pairs) = some f.set) :
    (∃ network, build f.config home drawn pairs = .ok network) ↔
      ∃ inflation evm, f.config.overrides.content? .inflation = .ok inflation ∧
        f.config.overrides.content? .evm = .ok evm ∧
        ∃ response next, (Application.fresh f.config.chainId home .forwarded).initChain .empty
          ⟨f.config.chainId, initialHeight, updatesOf f.set,
            (f.sections (inflation.getD Inflation.Section.disabled)
              (evm.getD Evm.Section.standard)).appState⟩ = .ok (response, next) := by
  rw [f.build_eq valid settled paired]
  simp only [bind_eq_ok, pure_eq_ok, genesisOf_eq_ok]
  constructor
  · intro given
    rcases given with ⟨_, _, ⟨inflation, evm, inflates, runs, rfl⟩, appState, written,
      ⟨response, next⟩, taken, -⟩
    rw [Sections.toAppStateBytes_genesis f.settled_sections] at written
    rw [← Except.ok.inj written] at taken
    exact ⟨inflation, evm, inflates, runs, response, next, taken⟩
  · intro given
    rcases given with ⟨inflation, evm, inflates, runs, response, next, taken⟩
    exact ⟨_, _, ⟨inflation, evm, inflates, runs, rfl⟩, _,
      Sections.toAppStateBytes_genesis f.settled_sections, (response, next), taken, rfl⟩

end Built

theorem initChain_sections {home : String} {inflation : Inflation.Section} {evm : Evm.Section}
    (inflates : inflation.InRange) (runs : evm.InRange) :
    (∃ response next, (Application.fresh f.config.chainId home .forwarded).initChain .empty
        ⟨f.config.chainId, initialHeight, updatesOf f.set, (f.sections inflation evm).appState⟩ =
          .ok (response, next)) ↔
      Apart f.accounts ∧ f.supply < 2 ^ 256 ∧ inflation.validate = .ok () ∧
        evm.validate = .ok () := by
  have updates : (f.sections inflation evm).staking.updates = .ok (updatesOf f.set) :=
    f.updates_staking
  have matching := Application.checkExpected_self (updatesOf f.set)
  refine (Application.initChain_appState f.settled_sections updates).trans ?_
  show _ ∧ (f.sections inflation evm).Valid .standard ∧ _ ∧ _ ↔ _
  rw [valid_sections, inRange_sections]
  constructor
  · intro given
    rcases given with ⟨-, ⟨apart, valid⟩, ⟨supply, -⟩, -⟩
    exact ⟨apart, supply, valid⟩
  · intro given
    rcases given with ⟨apart, supply, valid⟩
    exact ⟨rfl, ⟨apart, valid⟩, ⟨supply, inflates, runs⟩, matching⟩

end Founding

/-- What a configuration and its accounts are checked for, one step after another. -/
structure Buildable (config : NetworkConfig) (accounts : List AccountAddress) : Prop where
  chainId : Text.isBlank config.chainId = false
  validators : 0 < config.validatorCount
  denom : Denom.isValid config.denom = true
  balance : 0 < config.initialBalance
  funded : accounts ≠ []
  apart : Apart accounts
  supply : accounts.length * config.initialBalance + config.validatorCount * 10 ^ 18 < 2 ^ 256
  inflation : config.overrides.Admits .inflation
  evm : config.overrides.Admits .evm

theorem validate_disabled : Module.inflation.validate Inflation.Section.disabled = .ok () := by
  decide +kernel

theorem validate_standardEvm : Module.evm.validate Evm.Section.standard = .ok () :=
  Evm.Section.validate_standard

theorem inRange_disabled : Inflation.Section.disabled.InRange := by
  refine ⟨⟨?_, ?_, ?_, ?_, ?_⟩, ?_, ?_⟩ <;> decide +kernel

theorem valid_of_build {config : NetworkConfig} {home : String} {drawn : List AccountAddress}
    {pairs : List KeyPair} {network : Network} (built : build config home drawn pairs = .ok network) :
    config.validate = .ok () ∧ config.accounts.settle drawn ≠ [] := by
  unfold build at built
  obtain ⟨⟨⟩, valid, rest⟩ := bind_eq_ok.mp built
  refine ⟨valid, ?_⟩
  intro none
  rw [none] at rest
  cases rest

theorem exists_founding {config : NetworkConfig} {drawn : List AccountAddress}
    {pairs : List KeyPair} (valid : config.validate = .ok ())
    (funded : config.accounts.settle drawn ≠ []) (count : pairs.length = config.validatorCount)
    (small : pairs.length < 2 ^ 63)
    (distinct : (pairs.map fun pair => pair.consensusKey.address).Nodup) :
    ∃ f : Founding, f.config = config ∧ config.accounts.settle drawn = f.accounts ∧
      ValidatorSet.ofList? (validatorsOf pairs) = some f.set ∧ f.set.size = config.validatorCount := by
  obtain ⟨-, some, denom, balance⟩ := NetworkConfig.validate_eq_ok.mp valid
  obtain ⟨delegator, others, settled⟩ := List.exists_cons_of_ne_nil funded
  obtain ⟨set, paired, perm⟩ := ValidatorSet.ofList?_validatorsOf small
  have size : set.validators.length = config.validatorCount := by
    rw [perm.length_eq, validatorsOf, List.length_map, count]
  have drawnAll : ∀ v ∈ set.validators, v.Drawn := by
    intro v member
    rcases List.mem_map.mp (perm.mem_iff.mp member) with ⟨pair, -, rfl⟩
    exact ⟨pair, rfl⟩
  have addresses := nodup_addresses perm distinct
  have populated : set.validators ≠ [] := List.ne_nil_of_length_pos (by omega)
  exact ⟨⟨config, set, delegator, others, denom, balance, drawnAll, addresses, populated⟩, rfl,
    settled, paired, size⟩

theorem Founding.exists_network_iff (f : Founding) {home : String} {drawn : List AccountAddress}
    {pairs : List KeyPair} (valid : f.config.validate = .ok ())
    (settled : f.config.accounts.settle drawn = f.accounts)
    (paired : ValidatorSet.ofList? (validatorsOf pairs) = some f.set)
    (size : f.set.size = f.config.validatorCount)
    (inflation : ∀ content : Inflation.Section,
      f.config.overrides.get? Inflation.moduleName = some ⟨.inflation, content⟩ → content.InRange)
    (evm : ∀ content : Evm.Section,
      f.config.overrides.get? Evm.moduleName = some ⟨.evm, content⟩ → content.InRange) :
    (∃ network, build f.config home drawn pairs = .ok network) ↔ Buildable f.config f.accounts := by
  have inflates : ∀ found, f.config.overrides.content? .inflation = .ok found →
      (found.getD Inflation.Section.disabled).InRange := by
    intro found given
    have held := Overrides.content?_eq_ok.mp given
    cases found with
    | none => exact inRange_disabled
    | some content => exact inflation content held
  have runs : ∀ found, f.config.overrides.content? .evm = .ok found →
      (found.getD Evm.Section.standard).InRange := by
    intro found given
    have held := Overrides.content?_eq_ok.mp given
    cases found with
    | none => exact Module.inRange_standard .evm
    | some content => exact evm content held
  have supply : f.supply =
      f.accounts.length * f.config.initialBalance + f.config.validatorCount * 10 ^ 18 := by
    rw [supply, bonded, size, bondedTokens_eq, Int.mul_comm (10 ^ 18)]
  obtain ⟨chainId, validators, denom, balance⟩ := NetworkConfig.validate_eq_ok.mp valid
  rw [f.build_eq_ok valid settled paired]
  constructor
  · intro given
    rcases given with ⟨found, other, given, present, taken⟩
    obtain ⟨apart, bounded, admitted, accepted⟩ :=
      (f.initChain_sections (inflates found given) (runs other present)).mp taken
    exact {
      chainId, validators, denom, balance, apart
      funded := List.cons_ne_nil _ _
      supply := supply ▸ bounded
      inflation := (Overrides.admits_iff validate_disabled).mpr ⟨found, given, admitted⟩
      evm := (Overrides.admits_iff validate_standardEvm).mpr ⟨other, present, accepted⟩ }
  · intro good
    obtain ⟨found, given, admitted⟩ := (Overrides.admits_iff validate_disabled).mp good.inflation
    obtain ⟨other, present, accepted⟩ := (Overrides.admits_iff validate_standardEvm).mp good.evm
    refine ⟨found, other, given, present, ?_⟩
    apply (f.initChain_sections (inflates found given) (runs other present)).mpr
    exact ⟨good.apart, supply ▸ good.supply, admitted, accepted⟩

/-- A network can be set up if and only if its configuration and its accounts are good, whatever
keys are drawn. A list of key pairs has fewer than `2 ^ 63` entries. -/
theorem build_iff {config : NetworkConfig} {home : String} {drawn : List AccountAddress}
    {pairs : List KeyPair} (count : pairs.length = config.validatorCount)
    (small : pairs.length < 2 ^ 63)
    (distinct : (pairs.map fun pair => pair.consensusKey.address).Nodup)
    (inflation : ∀ content : Inflation.Section,
      config.overrides.get? Inflation.moduleName = some ⟨.inflation, content⟩ → content.InRange)
    (evm : ∀ content : Evm.Section,
      config.overrides.get? Evm.moduleName = some ⟨.evm, content⟩ → content.InRange) :
    (∃ network, build config home drawn pairs = .ok network) ↔
      Buildable config (config.accounts.settle drawn) := by
  constructor
  · intro given
    rcases given with ⟨network, built⟩
    obtain ⟨valid, funded⟩ := valid_of_build built
    obtain ⟨f, rfl, settled, paired, size⟩ := exists_founding valid funded count small distinct
    rw [settled]
    exact (f.exists_network_iff valid settled paired size inflation evm).mp ⟨network, built⟩
  · intro good
    have valid : config.validate = .ok () :=
      NetworkConfig.validate_eq_ok.mpr ⟨good.chainId, good.validators, good.denom, good.balance⟩
    obtain ⟨f, rfl, settled, paired, size⟩ :=
      exists_founding valid good.funded count small distinct
    rw [settled] at good
    exact (f.exists_network_iff valid settled paired size inflation evm).mpr good

def smallConfig : NetworkConfig :=
  { NetworkConfig.standard "evmos_9000-1" with
    validatorCount := 2
    accounts := .listed [⟨[1]⟩, ⟨[2]⟩]
    initialBalance := 1
    overrides := [(Inflation.moduleName, ⟨.inflation, Inflation.Section.standard⟩)] }

theorem build_smallConfig : ∃ network, build smallConfig ".evmosd" [] smallPairs = .ok network := by
  have distinct : (smallPairs.map fun pair => pair.consensusKey.address).Nodup := by decide +kernel
  have inflation : ∀ content : Inflation.Section,
      smallConfig.overrides.get? Inflation.moduleName = some ⟨.inflation, content⟩ →
        content.InRange := by
    intro content held
    cases held
    refine ⟨⟨?_, ?_, ?_, ?_, ?_⟩, ?_, ?_⟩ <;> decide +kernel
  have evm : ∀ content : Evm.Section,
      smallConfig.overrides.get? Evm.moduleName = some ⟨.evm, content⟩ → content.InRange := by
    intro content held
    cases held
  have good : Buildable smallConfig (smallConfig.accounts.settle []) := {
    chainId := by decide +kernel
    validators := by decide
    denom := by decide +kernel
    balance := by decide
    funded := by decide
    apart := by
      refine ⟨?_, ?_⟩ <;> decide +kernel
    supply := by decide
    inflation := by
      intro given held
      cases held
      exact ⟨_, rfl, by decide +kernel⟩
    evm := by
      intro given held
      cases held }
  exact (build_iff rfl (by decide) distinct inflation evm).mpr good

end Network
end Devnet
