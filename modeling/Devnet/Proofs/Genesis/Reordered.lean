import Devnet.Proofs.Application.Verdict
import Devnet.Proofs.Coin.Totals
import Devnet.Proofs.Genesis.Auth
import Devnet.Proofs.Genesis.Bank
import Devnet.Proofs.Genesis.Evm
import Devnet.Proofs.Genesis.Staking
import Devnet.Proofs.Genesis.Updates
import Mathlib

namespace Devnet

theorem exists_forall₂_of_perm {α β : Type} {R : α → β → Prop} {items others : List α}
    {values : List β} (perm : others.Perm items) (each : List.Forall₂ R items values) :
    ∃ values', List.Forall₂ R others values' ∧ values'.Perm values :=
  List.perm_comp_forall₂ perm each

theorem forall_mem_of_perm {α : Type} {good : α → Prop} {items others : List α}
    (perm : others.Perm items) (each : ∀ item ∈ items, good item) : ∀ item ∈ others, good item :=
  fun item member => each item (perm.mem_iff.mp member)

theorem nodup_map_of_perm {α β : Type} {key : α → β} {items others : List α}
    (perm : others.Perm items) (distinct : (items.map key).Nodup) : (others.map key).Nodup :=
  (perm.map key).nodup_iff.mpr distinct

namespace Auth.Section

structure Reordered (s other : Section) : Prop where
  params : other.params = s.params
  accounts : other.accounts.Perm s.accounts

theorem Reordered.validate {s other : Section} (reordered : Reordered s other)
    (valid : s.validate = .ok ()) : other.validate = .ok () := by
  obtain ⟨params, accounts, unpacked, distinct⟩ := validate_eq_ok.mp valid
  obtain ⟨found, each, perm⟩ :=
    exists_forall₂_of_perm reordered.accounts (baseAccounts_eq_ok.mp unpacked)
  exact validate_eq_ok.mpr ⟨reordered.params ▸ params, found, baseAccounts_eq_ok.mpr each,
    nodup_map_of_perm perm distinct⟩

end Auth.Section

namespace Bank

theorem totalOf_perm {balances others : List Balance}
    (valid : ∀ balance ∈ balances, balance.coins.validate = .ok ()) (perm : others.Perm balances) :
    totalOf others = totalOf balances := by
  have each : ∀ coins ∈ balances.map Balance.coins, Coins.Sound coins.entries := by
    intro coins member
    rcases List.mem_map.mp member with ⟨balance, inside, rfl⟩
    exact Coins.sound_of_validate (valid balance inside)
  exact (Coins.total_perm each (perm.map Balance.coins).symm).symm

namespace Section

structure Reordered (s other : Section) : Prop where
  params : other.params = s.params
  balances : other.balances.Perm s.balances
  supply : other.supply = s.supply
  denomMetadata : other.denomMetadata = s.denomMetadata
  sendEnabled : other.sendEnabled = s.sendEnabled

variable {s other : Section}

theorem Reordered.valid (reordered : Reordered s other) (valid : s.Valid) : other.Valid where
  sendEnabled := by
    rw [reordered.params, reordered.sendEnabled]
    exact valid.sendEnabled
  accounts := forall_mem_of_perm reordered.balances valid.accounts
  coins := forall_mem_of_perm reordered.balances valid.coins
  addresses := nodup_map_of_perm reordered.balances valid.addresses
  metadata := by
    rw [reordered.denomMetadata]
    exact valid.metadata
  bases := by
    rw [reordered.denomMetadata]
    exact valid.bases
  supply := by
    have total : other.balancesTotal = s.balancesTotal :=
      totalOf_perm valid.coins reordered.balances
    rw [reordered.supply, total]
    exact valid.supply

theorem Reordered.balanceOf (reordered : Reordered s other) (valid : s.Valid)
    (address : AccountAddress) : other.balanceOf address = s.balanceOf address :=
  totalOf_perm (fun balance member => valid.coins balance (List.mem_filter.mp member).1)
    (reordered.balances.filter _)

end Section
end Bank

namespace Staking

theorem tokensOf_perm {validators others : List Validator} (perm : others.Perm validators) :
    tokensOf others = tokensOf validators := by
  induction perm with
  | nil => rfl
  | cons v _ ih => rw [tokensOf, tokensOf, ih]
  | swap a b validators =>
      simp only [tokensOf]
      omega
  | trans _ _ first second => rw [first, second]

def Validator.granted? (v : Validator) : Option ValidatorUpdate := v.update?.toOption.join

namespace Section

structure Reordered (s other : Section) : Prop where
  params : other.params = s.params
  lastTotalPower : other.lastTotalPower = s.lastTotalPower
  lastValidatorPowers : other.lastValidatorPowers = s.lastValidatorPowers
  validators : other.validators.Perm s.validators
  delegations : other.delegations.Perm s.delegations
  unbondingDelegations : other.unbondingDelegations = s.unbondingDelegations
  redelegations : other.redelegations = s.redelegations
  exported : other.exported = s.exported

variable {s other : Section}

theorem Reordered.valid (reordered : Reordered s other) (valid : s.Valid) : other.Valid where
  params := reordered.params ▸ valid.params
  validators := forall_mem_of_perm reordered.validators valid.validators
  operators := nodup_map_of_perm reordered.validators valid.operators
  keys := by
    obtain ⟨keys, unpacked, distinct⟩ := valid.keys
    obtain ⟨found, each, perm⟩ := exists_forall₂_of_perm reordered.validators unpacked
    exact ⟨found, each, perm.nodup_iff.mpr distinct⟩
  delegators := forall_mem_of_perm reordered.delegations valid.delegators
  delegations := by
    refine forall_mem_of_perm reordered.delegations fun delegation member => ?_
    exact (reordered.validators.map _).mem_iff.mpr (valid.delegations delegation member)

theorem Reordered.bondedTokens (reordered : Reordered s other) :
    other.bondedTokens = s.bondedTokens := tokensOf_perm (reordered.validators.filter _)

theorem Reordered.notBondedTokens (reordered : Reordered s other) :
    other.notBondedTokens = s.notBondedTokens := tokensOf_perm (reordered.validators.filter _)

theorem updates_eq_filterMap {updates : List ValidatorUpdate} (given : s.updates = .ok updates) :
    updates = s.validators.filterMap Validator.granted? := by
  obtain ⟨found, each, rfl⟩ := updates_eq_ok.mp given
  have granted : found = s.validators.map Validator.granted? := by
    rw [← List.forall₂_eq_eq_eq, List.forall₂_map_right_iff]
    apply each.flip.imp
    intro result v read
    rw [Validator.granted?, read]
    rfl
  rw [granted, List.filterMap_map]
  rfl

theorem Reordered.exists_updates (reordered : Reordered s other) {updates : List ValidatorUpdate}
    (given : s.updates = .ok updates) : ∃ updates', other.updates = .ok updates' := by
  obtain ⟨found, each, -⟩ := updates_eq_ok.mp given
  obtain ⟨found', each', -⟩ := exists_forall₂_of_perm reordered.validators each
  exact ⟨_, updates_eq_ok.mpr ⟨found', each', rfl⟩⟩

end Section
end Staking

namespace Evm.Section

structure Reordered (s other : Section) : Prop where
  accounts : other.accounts.Perm s.accounts
  params : other.params = s.params

theorem Reordered.validate {s other : Section} (reordered : Reordered s other)
    (valid : s.validate = .ok ()) : other.validate = .ok () := by
  obtain ⟨⟨each, distinct⟩, params⟩ := validate_eq_ok.mp valid
  exact validate_eq_ok.mpr ⟨⟨forall_mem_of_perm reordered.accounts each,
    nodup_map_of_perm reordered.accounts distinct⟩, reordered.params ▸ params⟩

end Evm.Section

/-- Contents of one module that differ in the order of their entries only. -/
def Module.Reordered : (m : Module) → m.Content → m.Content → Prop
  | .auth => Auth.Section.Reordered
  | .bank => Bank.Section.Reordered
  | .staking => Staking.Section.Reordered
  | .inflation => Eq
  | .evm => Evm.Section.Reordered

namespace Sections

structure Reordered (s other : Sections) : Prop where
  auth : s.auth.Reordered other.auth
  bank : s.bank.Reordered other.bank
  staking : s.staking.Reordered other.staking
  inflation : s.inflation = other.inflation
  evm : s.evm.Reordered other.evm

theorem Reordered.valid {registry : Registry} {s other : Sections} (reordered : s.Reordered other)
    (valid : s.Valid registry) : other.Valid registry := by
  have bank := Bank.Section.validate_eq_ok.mp valid.bank
  have staking := Staking.Section.validate_eq_ok.mp valid.staking
  have pools : other.checkPools = .ok () := by
    have checked := Sections.checkPools_eq_ok.mp valid.pools
    rw [Sections.checkPools_eq_ok, reordered.staking.params, reordered.staking.bondedTokens,
      reordered.staking.notBondedTokens, reordered.bank.balanceOf bank, reordered.bank.balanceOf bank]
    exact checked
  exact {
    accounts := forall_mem_of_perm reordered.auth.accounts valid.accounts
    auth := reordered.auth.validate valid.auth
    bank := Bank.Section.validate_eq_ok.mpr (reordered.bank.valid bank)
    keys := forall_mem_of_perm reordered.staking.validators valid.keys
    staking := Staking.Section.validate_eq_ok.mpr (reordered.staking.valid staking)
    pools
    inflation := reordered.inflation ▸ valid.inflation
    evm := reordered.evm.validate valid.evm }

end Sections
end Devnet
