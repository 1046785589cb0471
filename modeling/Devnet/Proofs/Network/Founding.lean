import Devnet.Proofs.Coin.Single
import Devnet.Proofs.Genesis.Auth
import Devnet.Proofs.Genesis.Bank
import Devnet.Proofs.Genesis.Registry
import Devnet.Proofs.Genesis.RoundTrip
import Devnet.Proofs.Network.Founders
import Mathlib

namespace Devnet

namespace Bank

variable (accounts : List AccountAddress) (denom : String) (amount bonded : Int)

theorem coins_balancesOf (coin : Coin) : (balancesOf accounts coin).map Balance.coins =
    List.replicate accounts.length (.single coin) := by
  rw [balancesOf, List.map_map]
  exact List.map_const'

theorem totalOf_balancesOf : totalOf (balancesOf accounts ⟨denom, amount⟩) =
    .single ⟨denom, accounts.length * amount⟩ := by
  have amounts := Coins.total_single denom (List.replicate accounts.length amount)
  rw [List.map_replicate, List.sum_replicate, nsmul_eq_mul] at amounts
  rw [totalOf, coins_balancesOf, amounts]

theorem totalOf_withBonded :
    totalOf (withBonded (balancesOf accounts ⟨denom, amount⟩) ⟨denom, bonded⟩) =
      .single ⟨denom, accounts.length * amount + bonded⟩ := by
  have amounts := Coins.total_single denom (List.replicate accounts.length amount ++ [bonded])
  rw [List.map_append, List.map_replicate, List.sum_append, List.sum_replicate, nsmul_eq_mul,
    List.sum_singleton] at amounts
  rw [totalOf, withBonded, List.map_append, coins_balancesOf]
  exact amounts

theorem filter_balancesOf (account : AccountAddress) (coin : Coin) :
    (balancesOf accounts coin).filter (fun balance => balance.address == account.render) =
      balancesOf (accounts.filter (· == account)) coin := by
  rw [balancesOf, List.filter_map]
  have same : (fun balance : Balance => balance.address == account.render) ∘
      (fun account => Balance.make account (.single coin)) = (· == account) := by
    funext other
    exact decide_eq_decide.mpr Address.render_injective.eq_iff
  rw [same]
  rfl

theorem filter_withBonded (account : AccountAddress) (balances : List Balance) (coin : Coin) :
    (withBonded balances coin).filter (fun balance => balance.address == account.render) =
      if account = Staking.bondedPool then
        withBonded (balances.filter fun balance => balance.address == account.render) coin
      else balances.filter fun balance => balance.address == account.render := by
  rw [withBonded, List.filter_append]
  by_cases pool : account = Staking.bondedPool
  · have same : (Balance.make Staking.bondedPool (.single coin)).address = account.render :=
      congrArg Address.render pool.symm
    rw [if_pos pool, withBonded, List.filter_cons_of_pos (by simpa using same), List.filter_nil]
  · have other : (Balance.make Staking.bondedPool (.single coin)).address ≠ account.render :=
      fun same => pool (Address.render_injective same).symm
    rw [if_neg pool, List.filter_cons_of_neg (by simpa using other), List.filter_nil,
      List.append_nil]

end Bank

namespace Network

def Apart (accounts : List AccountAddress) : Prop :=
  accounts.Nodup ∧ ∀ account ∈ accounts,
    account.Sized ∧ account ≠ Staking.bondedPool ∧ account ≠ Staking.notBondedPool

/-- What a genesis is made of: a configuration that passes, the validators of a network, and its
accounts, the first of which delegates to them. -/
structure Founding where
  config : NetworkConfig
  set : ValidatorSet
  delegator : AccountAddress
  others : List AccountAddress
  isValid_denom : Denom.isValid config.denom = true
  balance_pos : 0 < config.initialBalance
  drawn : ∀ v ∈ set.validators, v.Drawn
  distinct : (set.validators.map Validator.address).Nodup
  populated : set.validators ≠ []

namespace Founding

variable (f : Founding)

def accounts : List AccountAddress := f.delegator :: f.others

def bonded : Int := bondedTokens * f.set.size

def supply : Int := f.accounts.length * f.config.initialBalance + f.bonded

def balances : List Bank.Balance :=
  Bank.withBonded (Bank.balancesOf f.accounts ⟨f.config.denom, f.config.initialBalance⟩)
    ⟨f.config.denom, f.bonded⟩

def auth : Auth.Section := .ofAccounts .standard (f.accounts.map .ofAddress)

def bank : Bank.Section :=
  { Bank.Section.standard with balances := f.balances, supply := Bank.totalOf f.balances }

def staking : Staking.Section :=
  .make { Staking.Params.standard with bondDenom := f.config.denom }
    (f.set.validators.map .founder) (Staking.delegationsFrom f.delegator f.set.validators)

def sections (inflation : Inflation.Section) (evm : Evm.Section) : Sections :=
  ⟨f.auth, f.bank, f.staking, inflation, evm⟩

theorem bonded_pos : 0 < f.bonded := by
  have some := List.length_pos_of_ne_nil f.populated
  rw [bonded, bondedTokens_eq, ValidatorSet.size]
  omega

variable {inflation : Inflation.Section} {evm : Evm.Section}

theorem settled_sections : (f.sections inflation evm).Settled where
  accounts account member := by
    rcases List.mem_map.mp member with ⟨base, inside, rfl⟩
    rcases List.mem_map.mp inside with ⟨address, -, rfl⟩
    exact Auth.BaseAccount.settled_pack rfl
  keys founder member := by
    rcases List.mem_map.mp member with ⟨v, -, rfl⟩
    exact AppKey.settled_pack (.ed25519 v.publicKey.bytes)

theorem forall_mem_balances {good : Bank.Balance → Prop} :
    (∀ balance ∈ f.balances, good balance) ↔
      (∀ account ∈ f.accounts,
        good (.make account (.single ⟨f.config.denom, f.config.initialBalance⟩))) ∧
        good (.make Staking.bondedPool (.single ⟨f.config.denom, f.bonded⟩)) := by
  rw [balances, Bank.withBonded, Bank.balancesOf, List.forall_mem_append, List.forall_mem_map,
    List.forall_mem_singleton]

theorem addresses_balances : f.balances.map Bank.Balance.address =
    (f.accounts ++ [Staking.bondedPool]).map Address.render := by
  rw [balances, Bank.withBonded, Bank.balancesOf, List.map_append, List.map_append, List.map_map]
  rfl

theorem totalOf_balances : Bank.totalOf f.balances = .single ⟨f.config.denom, f.supply⟩ :=
  Bank.totalOf_withBonded f.accounts f.config.denom f.config.initialBalance f.bonded

theorem balanceOf_bank (account : AccountAddress) :
    f.bank.balanceOf account = .single ⟨f.config.denom,
      f.accounts.count account * f.config.initialBalance +
        if account = Staking.bondedPool then f.bonded else 0⟩ := by
  have held : f.bank.balanceOf account = Bank.totalOf (f.balances.filter
      fun balance => balance.address == account.render) := rfl
  rw [held, balances, Bank.filter_withBonded, Bank.filter_balancesOf, List.count_eq_countP,
    List.countP_eq_length_filter]
  by_cases pool : account = Staking.bondedPool
  · rw [if_pos pool, if_pos pool]
    exact Bank.totalOf_withBonded _ f.config.denom f.config.initialBalance f.bonded
  · rw [if_neg pool, if_neg pool, Int.add_zero]
    exact Bank.totalOf_balancesOf _ f.config.denom f.config.initialBalance

theorem validate_auth : f.auth.validate = .ok () ↔
    (∀ account ∈ f.accounts, account.Sized) ∧ f.accounts.Nodup := by
  have keyless : ∀ account ∈ f.accounts.map Auth.BaseAccount.ofAddress, account.Keyless := by
    intro account member
    rcases List.mem_map.mp member with ⟨address, -, rfl⟩
    rfl
  have params : f.auth.params.validate = .ok () := rfl
  have addresses : (f.accounts.map Auth.BaseAccount.ofAddress).map Auth.BaseAccount.address =
      f.accounts := by
    rw [List.map_map]
    exact List.map_id f.accounts
  rw [Auth.Section.validate_eq_ok]
  simp only [auth, Auth.Section.baseAccounts_ofAccounts keyless, List.forall_mem_map] at params ⊢
  constructor
  · intro given
    rcases given with ⟨-, _, ⟨sized, rfl⟩, distinct⟩
    rw [addresses] at distinct
    exact ⟨sized, distinct⟩
  · intro given
    rcases given with ⟨sized, distinct⟩
    exact ⟨params, _, ⟨sized, rfl⟩, addresses.symm ▸ distinct⟩

theorem validate_bank : f.bank.validate = .ok () ↔
    (∀ account ∈ f.accounts, account.Sized) ∧ f.accounts.Nodup ∧
      Staking.bondedPool ∉ f.accounts := by
  have written : (∀ balance ∈ f.balances,
      ∃ account, Address.parse .account balance.address = .ok account) ↔
        ∀ account ∈ f.accounts, account.Sized := by
    have pool : Staking.bondedPool.Sized := Address.sized_moduleAddress _
    simp only [f.forall_mem_balances, Bank.Balance.make, Address.parse_render_eq_ok,
      exists_eq_right, pool, and_true]
  have valid {amount : Int} (positive : 0 < amount) : (Coin.mk f.config.denom amount).validate = .ok () :=
    Coin.validate_eq_ok.mpr ⟨f.isValid_denom, positive.le⟩
  have coins : ∀ balance ∈ f.balances, balance.coins.validate = .ok () :=
    f.forall_mem_balances.mpr ⟨fun _ _ => Coins.validate_single (valid f.balance_pos),
      Coins.validate_single (valid f.bonded_pos)⟩
  have distinct : (f.balances.map Bank.Balance.address).Nodup ↔
      f.accounts.Nodup ∧ Staking.bondedPool ∉ f.accounts := by
    rw [addresses_balances, List.nodup_map_iff Address.render_injective, List.nodup_append_comm,
      List.singleton_append, List.nodup_cons, and_comm]
  rw [Bank.Section.validate_eq_ok]
  constructor
  · intro valid
    exact ⟨written.mp valid.accounts, distinct.mp valid.addresses⟩
  · intro given
    rcases given with ⟨sized, apart⟩
    exact {
      sendEnabled := fun _ member => by cases member
      accounts := written.mpr sized
      coins
      addresses := distinct.mpr apart
      metadata := fun _ member => by cases member
      bases := List.nodup_nil
      supply := Or.inr rfl }

theorem bondedTokens_staking : f.staking.bondedTokens = f.bonded :=
  (Staking.bondedTokens_startSection (Staking.counterparts_drawn f.drawn)).trans (Int.mul_comm _ _)

theorem notBondedTokens_staking : f.staking.notBondedTokens = 0 := by
  have none : (f.set.validators.map Staking.Validator.founder).filter (fun v => !v.isBonded) = [] := by
    rw [List.filter_eq_nil_iff]
    intro founder member
    rcases List.mem_map.mp member with ⟨v, -, rfl⟩
    exact Bool.false_ne_true
  show Staking.tokensOf ((f.set.validators.map Staking.Validator.founder).filter _) = _
  rw [none, Staking.tokensOf]

/-- A further balance of a pool would not be covered by tokens of validators. -/
theorem checkPools_sections : (f.sections inflation evm).checkPools = .ok () ↔
    Staking.bondedPool ∉ f.accounts ∧ Staking.notBondedPool ∉ f.accounts := by
  have covered : ∀ (pool : AccountAddress) (tokens : Int),
      Coins.single ⟨f.config.denom, f.accounts.count pool * f.config.initialBalance + tokens⟩ =
        .single ⟨f.config.denom, tokens⟩ ↔ pool ∉ f.accounts := by
    intro pool tokens
    rw [← List.count_eq_zero]
    constructor
    · intro same
      have amounts := Coins.single_injective same
      have nothing : (f.accounts.count pool : Int) * f.config.initialBalance = 0 := by omega
      have positive := f.balance_pos
      rcases Int.mul_eq_zero.mp nothing with none | none <;> omega
    · intro none
      rw [none, Nat.cast_zero, Int.zero_mul, Int.zero_add]
  have denom : (f.sections inflation evm).staking.params.bondDenom = f.config.denom := rfl
  have bank : (f.sections inflation evm).bank = f.bank := rfl
  have staking : (f.sections inflation evm).staking = f.staking := rfl
  rw [Sections.checkPools_eq_ok, denom, bank, staking, bondedTokens_staking,
    notBondedTokens_staking, balanceOf_bank, balanceOf_bank, if_pos rfl,
    if_neg Staking.notBondedPool_ne_bondedPool, covered, covered]
  constructor
  · intro given
    rcases given with ⟨-, ⟨-, bonded⟩, -, notBonded⟩
    exact ⟨bonded, notBonded⟩
  · intro given
    rcases given with ⟨bonded, notBonded⟩
    exact ⟨f.isValid_denom, ⟨Int.le_of_lt f.bonded_pos, bonded⟩, Int.le_refl 0, notBonded⟩

theorem validate_staking : f.staking.validate = .ok () ↔ f.delegator.Sized := by
  constructor
  · intro valid
    obtain ⟨v, member⟩ := List.exists_mem_of_ne_nil f.set.validators f.populated
    obtain ⟨account, read⟩ :=
      (Staking.Section.validate_eq_ok.mp valid).delegators _ (List.mem_map_of_mem member)
    exact (Address.parse_render_eq_ok.mp read).1
  · exact Staking.validate_startSection (fun v member => (f.drawn v member).made)
      (Staking.counterparts_drawn f.drawn) f.distinct f.isValid_denom

theorem valid_sections : (f.sections inflation evm).Valid .standard ↔
    Apart f.accounts ∧ inflation.validate = .ok () ∧ evm.validate = .ok () := by
  constructor
  · intro valid
    obtain ⟨sized, distinct⟩ := f.validate_auth.mp valid.auth
    obtain ⟨bonded, notBonded⟩ := f.checkPools_sections.mp valid.pools
    refine ⟨⟨distinct, fun account member => ⟨sized account member, ?_, ?_⟩⟩, valid.inflation,
      valid.evm⟩
    · rintro rfl
      exact bonded member
    · rintro rfl
      exact notBonded member
  · intro given
    rcases given with ⟨⟨distinct, each⟩, inflates, runs⟩
    have sized : ∀ account ∈ f.accounts, account.Sized := fun account member => (each account member).1
    have bonded : Staking.bondedPool ∉ f.accounts := fun member => (each _ member).2.1 rfl
    have notBonded : Staking.notBondedPool ∉ f.accounts := fun member => (each _ member).2.2 rfl
    refine {
      accounts := ?_
      auth := f.validate_auth.mpr ⟨sized, distinct⟩
      bank := f.validate_bank.mpr ⟨sized, distinct, bonded⟩
      keys := ?_
      staking := f.validate_staking.mpr (sized f.delegator List.mem_cons_self)
      pools := f.checkPools_sections.mpr ⟨bonded, notBonded⟩
      inflation := inflates
      evm := runs }
    · intro envelope member
      rcases List.mem_map.mp member with ⟨base, inside, rfl⟩
      rcases List.mem_map.mp inside with ⟨account, present, rfl⟩
      have keyless : (Auth.BaseAccount.ofAddress account).Keyless := rfl
      refine ⟨.ofAddress account, Registry.unpack_eq_ok.mpr ⟨?_, ?_⟩⟩
      · exact Registry.mem_typeUrls_standard.mpr (Or.inr (Or.inr rfl))
      · exact (Auth.BaseAccount.unpack_pack keyless.keyFormed).mpr ⟨sized account present, rfl⟩
    · intro founder member
      rcases List.mem_map.mp member with ⟨v, -, rfl⟩
      exact Registry.check_standard_pack (.ed25519 v.publicKey.bytes)

theorem inRange_sections : (f.sections inflation evm).InRange ↔
    f.supply < 2 ^ 256 ∧ inflation.InRange ∧ evm.InRange := by
  have some : 0 < f.accounts.length := Nat.succ_pos _
  have balance_pos := f.balance_pos
  have bonded_pos := f.bonded_pos
  have balance_le : f.config.initialBalance ≤ f.accounts.length * f.config.initialBalance :=
    le_mul_of_one_le_left (by omega) (by omega)
  have supply_eq : f.supply = f.accounts.length * f.config.initialBalance + f.bonded := rfl
  have small : ∀ n : Int, 0 ≤ n → (Integer.InRange n ↔ n < 2 ^ 256) := by
    intro n nonneg
    rw [Integer.InRange, Integer.limit_eq]
    omega
  have bank : f.bank.InRange ↔ f.supply < 2 ^ 256 := by
    show (∀ balance ∈ f.balances, balance.coins.InRange) ∧ (Bank.totalOf f.balances).InRange ↔ _
    rw [totalOf_balances, Coins.inRange_single, small f.supply (by omega), and_iff_right_iff_imp]
    intro bounded
    refine f.forall_mem_balances.mpr ⟨fun _ _ => Coins.inRange_single.mpr ?_,
      Coins.inRange_single.mpr ?_⟩
    · exact (small f.config.initialBalance (by omega)).mpr (by omega)
    · exact (small f.bonded (by omega)).mpr (by omega)
  have staking : f.staking.InRange := by
    apply Staking.Section.inRange_make Decimal.inRange_zero
    · intro founder member
      rcases List.mem_map.mp member with ⟨v, -, rfl⟩
      exact Staking.Validator.inRange_founder v
    · intro delegation member
      rcases List.mem_map.mp member with ⟨v, -, rfl⟩
      exact Decimal.inRange_one
  constructor
  · intro given
    rcases given with ⟨supply, -, inflation, evm⟩
    exact ⟨bank.mp supply, inflation, evm⟩
  · intro given
    rcases given with ⟨supply, inflation, evm⟩
    exact ⟨bank.mpr supply, staking, inflation, evm⟩

theorem updates_staking : f.staking.updates =
    .ok (f.set.validators.map fun v => ⟨v.publicKey, v.votingPower⟩) := by
  rw [Staking.Section.updates_eq_ok]
  refine ⟨f.set.validators.map fun v => some ⟨v.publicKey, v.votingPower⟩, ?_, ?_⟩
  · show List.Forall₂ _ (f.set.validators.map Staking.Validator.founder) _
    rw [List.forall₂_map_left_iff, List.forall₂_map_right_iff, List.forall₂_same]
    intro v member
    rw [(f.drawn v member).votingPower_eq]
    exact Staking.Validator.update?_founder (f.drawn v member)
  · rw [List.filterMap_map]
    exact (congrFun List.filterMap_eq_map f.set.validators).symm

end Founding
end Network
end Devnet
