import Devnet.Genesis.Section
import Devnet.Proofs.Address.Texts
import Devnet.Proofs.Json.Envelopes
import Devnet.Proofs.Text.Base64
import Mathlib

namespace Devnet

open Codec Fields

theorem Codec.exact_base64 : base64.Exact Always Always 0 := by
  apply exact_text _ fun _ _ _ => trivial
  intro bytes found
  rw [Base64.decode_encode]
  simp [eq_comm]

theorem Codec.exact_address (kind : AddressKind) : (address kind).Exact Always Address.Sized 0 :=
  exact_text (fun _ _ => by rw [mapError_eq_ok, Address.parse_render_eq_ok])
    fun _ _ read => Address.sized_of_parse (mapError_eq_ok.mp read)

namespace Coin

def InRange (coin : Coin) : Prop := Integer.InRange coin.amount

theorem exact_codec : codec.Exact Always InRange 1 :=
  (exact_record (exact_cons exact_string <| exact_cons exact_integer exact_nil) (by decide)
    (fun _ => rfl) fun _ => rfl).weaken
    (fun _ _ => by simp [Always]) (fun _ => by simp [Always, InRange]) (by decide)

end Coin

namespace Coins

def InRange (coins : Coins) : Prop := ∀ coin ∈ coins.entries, coin.InRange

theorem exact_codec : codec.Exact Always InRange 2 where
  tidy coins _ := (exact_list Coin.exact_codec).tidy coins.entries fun _ _ => trivial
  echoes a room coins found enough _ := by
    have entries := (exact_list Coin.exact_codec).echoes a room coins.entries
    change ((Codec.list Coin.codec).echo a room coins.entries).map Coins.mk = _ ↔ _
    rw [map_eq_ok]
    simp only [entries _ enough fun _ _ => trivial]
    constructor
    · intro given
      rcases given with ⟨_, ⟨legal, rfl⟩, rfl⟩
      exact ⟨legal, rfl⟩
    · intro given
      rcases given with ⟨legal, rfl⟩
      exact ⟨_, ⟨legal, rfl⟩, rfl⟩
  sound room raw coins read := by
    obtain ⟨entries, taken, rfl⟩ := map_eq_ok.mp read
    exact (exact_list Coin.exact_codec).sound room raw entries taken
  absent coins left := by cases left

end Coins

namespace Auth

theorem Params.exact_codec : Params.codec.Exact Always Always 1 :=
  (exact_record (exact_cons exact_uint64Text <| exact_cons exact_uint64Text <|
    exact_cons exact_uint64Text <| exact_cons exact_uint64Text <| exact_cons exact_uint64Text exact_nil)
    (by decide) (fun _ => rfl) fun _ => rfl).weaken
    (fun _ _ => by simp [Always]) (fun _ => by simp [Always]) (by decide)

theorem Section.exact_codec {depth : Nat} : Section.codec.Exact
    (fun s => ∀ account ∈ s.accounts, account.Settled depth) Always (depth + 3) :=
  (exact_record (exact_cons Params.exact_codec <| exact_cons (exact_list (Envelope.exact_codec depth))
    exact_nil) (by decide) (fun _ => rfl) fun _ => rfl).weaken
    (fun _ settled => by simpa [Always] using settled) (fun _ => by simp [Always]) (by omega)

end Auth

namespace Bank

theorem SendEnabled.exact_codec : SendEnabled.codec.Exact Always Always 1 :=
  (exact_record (exact_cons exact_string <| exact_cons exact_bool exact_nil) (by decide)
    (fun _ => rfl) fun _ => rfl).weaken
    (fun _ _ => by simp [Always]) (fun _ => by simp [Always]) (by decide)

theorem Params.exact_codec : Params.codec.Exact Always Always 3 :=
  (exact_record (exact_cons (exact_list SendEnabled.exact_codec) <| exact_cons exact_bool exact_nil)
    (by decide) (fun _ => rfl) fun _ => rfl).weaken
    (fun _ _ => by simp [Always]) (fun _ => by simp [Always]) (by decide)

theorem Balance.exact_codec : Balance.codec.Exact Always (fun balance => balance.coins.InRange) 3 :=
  (exact_record (exact_cons exact_string <| exact_cons Coins.exact_codec exact_nil) (by decide)
    (fun _ => rfl) fun _ => rfl).weaken
    (fun _ _ => by simp [Always]) (fun _ => by simp [Always]) (by decide)

theorem DenomUnit.exact_codec : DenomUnit.codec.Exact Always Always 2 :=
  (exact_record (exact_cons exact_string <| exact_cons exact_uint32 <|
    exact_cons (exact_list exact_string) exact_nil) (by decide) (fun _ => rfl) fun _ => rfl).weaken
    (fun _ _ => by simp [Always]) (fun _ => by simp [Always]) (by decide)

theorem Metadata.exact_codec : Metadata.codec.Exact Always Always 4 :=
  (exact_record (exact_cons exact_string <| exact_cons (exact_list DenomUnit.exact_codec) <|
    exact_cons exact_string <| exact_cons exact_string <| exact_cons exact_string <|
    exact_cons exact_string exact_nil) (by decide) (fun _ => rfl) fun _ => rfl).weaken
    (fun _ _ => by simp [Always]) (fun _ => by simp [Always]) (by decide)

def Section.InRange (s : Section) : Prop :=
  (∀ balance ∈ s.balances, balance.coins.InRange) ∧ s.supply.InRange

theorem Section.exact_codec : Section.codec.Exact Always InRange 6 :=
  (exact_record (exact_cons Params.exact_codec <| exact_cons (exact_list Balance.exact_codec) <|
    exact_cons Coins.exact_codec <| exact_cons (exact_list Metadata.exact_codec) <|
    exact_cons (exact_list SendEnabled.exact_codec) exact_nil) (by decide) (fun _ => rfl) fun _ => rfl).weaken
    (fun _ _ => by simp [Always]) (fun _ => by simp [Always, InRange]) (by decide)

end Bank

namespace Staking

theorem BondStatus.exact_codec : BondStatus.codec.Exact Always Always 0 :=
  .of_ok (fun status => .string 0 status.name) fun a _ status _ => by
    cases status <;> cases a <;> rfl

theorem Description.exact_codec : Description.codec.Exact Always Always 1 :=
  (exact_record (exact_cons exact_string <| exact_cons exact_string <| exact_cons exact_string <|
    exact_cons exact_string <| exact_cons exact_string exact_nil) (by decide) (fun _ => rfl) fun _ => rfl).weaken
    (fun _ _ => by simp [Always]) (fun _ => by simp [Always]) (by decide)

def CommissionRates.InRange (rates : CommissionRates) : Prop :=
  rates.rate.InRange ∧ rates.maxRate.InRange ∧ rates.maxChangeRate.InRange

theorem Commission.inRange_free : Commission.free.rates.InRange :=
  ⟨Decimal.inRange_zero, Decimal.inRange_zero, Decimal.inRange_zero⟩

theorem CommissionRates.exact_codec : CommissionRates.codec.Exact Always InRange 1 :=
  (exact_record (exact_cons exact_decimal <| exact_cons exact_decimal <| exact_cons exact_decimal
    exact_nil) (by decide) (fun _ => rfl) fun _ => rfl).weaken
    (fun _ _ => by simp [Always]) (fun _ => by simp [Always, InRange]) (by decide)

theorem Commission.exact_codec : Commission.codec.Exact Always (fun c => c.rates.InRange) 2 :=
  (exact_record (exact_cons CommissionRates.exact_codec <| exact_cons exact_string exact_nil)
    (by decide) (fun _ => rfl) fun _ => rfl).weaken
    (fun _ _ => by simp [Always]) (fun _ => by simp [Always]) (by decide)

def Validator.InRange (v : Validator) : Prop :=
  Integer.InRange v.tokens ∧ v.delegatorShares.InRange ∧ v.commission.rates.InRange ∧
    Integer.InRange v.minSelfDelegation

theorem Validator.exact_codec {depth : Nat} : Validator.codec.Exact
    (fun v => v.consensusKey.Settled depth) InRange (max (depth + 2) 3) :=
  (exact_record (exact_cons exact_string <| exact_cons (Envelope.exact_codec depth) <|
    exact_cons exact_bool <| exact_cons BondStatus.exact_codec <| exact_cons exact_integer <|
    exact_cons exact_decimal <| exact_cons Description.exact_codec <| exact_cons exact_int64Text <|
    exact_cons exact_string <| exact_cons Commission.exact_codec <| exact_cons exact_integer exact_nil)
    (by decide) (fun _ => rfl) fun _ => rfl).weaken
    (fun _ settled => by simpa [Always] using settled)
    (fun _ => by simp [Always, InRange]) (by omega)

theorem Delegation.exact_codec : Delegation.codec.Exact Always (fun d => d.shares.InRange) 1 :=
  (exact_record (exact_cons exact_string <| exact_cons exact_string <| exact_cons exact_decimal
    exact_nil) (by decide) (fun _ => rfl) fun _ => rfl).weaken
    (fun _ _ => by simp [Always]) (fun _ => by simp [Always]) (by decide)

def UnbondingEntry.InRange (e : UnbondingEntry) : Prop :=
  Integer.InRange e.initialBalance ∧ Integer.InRange e.balance

theorem UnbondingEntry.exact_codec : UnbondingEntry.codec.Exact Always InRange 1 :=
  (exact_record (exact_cons exact_int64Text <| exact_cons exact_string <| exact_cons exact_integer <|
    exact_cons exact_integer exact_nil) (by decide) (fun _ => rfl) fun _ => rfl).weaken
    (fun _ _ => by simp [Always]) (fun _ => by simp [Always, InRange]) (by decide)

theorem UnbondingDelegation.exact_codec :
    UnbondingDelegation.codec.Exact Always (fun d => ∀ entry ∈ d.entries, entry.InRange) 3 :=
  (exact_record (exact_cons exact_string <| exact_cons exact_string <|
    exact_cons (exact_list UnbondingEntry.exact_codec) exact_nil) (by decide) (fun _ => rfl) fun _ => rfl).weaken
    (fun _ _ => by simp [Always]) (fun _ => by simp [Always]) (by decide)

def RedelegationEntry.InRange (e : RedelegationEntry) : Prop :=
  Integer.InRange e.initialBalance ∧ e.sharesDst.InRange

theorem RedelegationEntry.exact_codec : RedelegationEntry.codec.Exact Always InRange 1 :=
  (exact_record (exact_cons exact_int64Text <| exact_cons exact_string <| exact_cons exact_integer <|
    exact_cons exact_decimal exact_nil) (by decide) (fun _ => rfl) fun _ => rfl).weaken
    (fun _ _ => by simp [Always]) (fun _ => by simp [Always, InRange]) (by decide)

theorem Redelegation.exact_codec :
    Redelegation.codec.Exact Always (fun d => ∀ entry ∈ d.entries, entry.InRange) 3 :=
  (exact_record (exact_cons exact_string <| exact_cons exact_string <| exact_cons exact_string <|
    exact_cons (exact_list RedelegationEntry.exact_codec) exact_nil) (by decide) (fun _ => rfl) fun _ => rfl).weaken
    (fun _ _ => by simp [Always]) (fun _ => by simp [Always]) (by decide)

theorem LastPower.exact_codec : LastPower.codec.Exact Always Always 1 :=
  (exact_record (exact_cons exact_string <| exact_cons exact_int64Text exact_nil) (by decide)
    (fun _ => rfl) fun _ => rfl).weaken
    (fun _ _ => by simp [Always]) (fun _ => by simp [Always]) (by decide)

theorem Params.exact_codec : Params.codec.Exact Always (fun p => p.minCommissionRate.InRange) 1 :=
  (exact_record (exact_cons exact_string <| exact_cons exact_uint32 <| exact_cons exact_uint32 <|
    exact_cons exact_uint32 <| exact_cons exact_string <| exact_cons exact_decimal exact_nil)
    (by decide) (fun _ => rfl) fun _ => rfl).weaken
    (fun _ _ => by simp [Always]) (fun _ => by simp [Always]) (by decide)

structure Section.InRange (s : Section) : Prop where
  params : s.params.minCommissionRate.InRange
  lastTotalPower : Integer.InRange s.lastTotalPower
  validators : ∀ v ∈ s.validators, v.InRange
  delegations : ∀ d ∈ s.delegations, d.shares.InRange
  unbondingDelegations : ∀ d ∈ s.unbondingDelegations, ∀ entry ∈ d.entries, entry.InRange
  redelegations : ∀ d ∈ s.redelegations, ∀ entry ∈ d.entries, entry.InRange

theorem Section.inRange_make {params : Params} {validators : List Validator}
    {delegations : List Delegation} (bounded : params.minCommissionRate.InRange)
    (each : ∀ v ∈ validators, v.InRange) (shares : ∀ d ∈ delegations, d.shares.InRange) :
    (make params validators delegations).InRange where
  params := bounded
  lastTotalPower := Integer.inRange_zero
  validators := each
  delegations := shares
  unbondingDelegations := List.forall_mem_nil _
  redelegations := List.forall_mem_nil _

theorem Section.exact_codec {depth : Nat} : Section.codec.Exact
    (fun s => ∀ v ∈ s.validators, v.consensusKey.Settled depth) InRange (max (depth + 4) 5) :=
  (exact_record (exact_cons Params.exact_codec <| exact_cons exact_integer <|
    exact_cons (exact_list LastPower.exact_codec) <| exact_cons (exact_list Validator.exact_codec) <|
    exact_cons (exact_list Delegation.exact_codec) <|
    exact_cons (exact_list UnbondingDelegation.exact_codec) <|
    exact_cons (exact_list Redelegation.exact_codec) <| exact_cons exact_bool exact_nil)
    (by decide) (fun _ => rfl) fun _ => rfl).weaken
    (fun _ settled => by simpa [Always] using settled)
    (fun s => by
      constructor
      · intro given
        rcases given with ⟨params, lastTotalPower, -, validators, delegations, unbonding,
          redelegations, -, -⟩
        exact ⟨params, lastTotalPower, validators, delegations, unbonding, redelegations⟩
      · intro given
        rcases given with ⟨params, lastTotalPower, validators, delegations, unbonding, redelegations⟩
        exact ⟨params, lastTotalPower, fun _ _ => trivial, validators, delegations, unbonding,
          redelegations, trivial, trivial⟩) (by omega)

end Staking

namespace Inflation

def Schedule.InRange (s : Schedule) : Prop :=
  s.a.InRange ∧ s.r.InRange ∧ s.c.InRange ∧ s.bondingTarget.InRange ∧ s.maxVariance.InRange

theorem Schedule.exact_codec : Schedule.codec.Exact Always InRange 1 :=
  (exact_record (exact_cons exact_decimal <| exact_cons exact_decimal <| exact_cons exact_decimal <|
    exact_cons exact_decimal <| exact_cons exact_decimal exact_nil) (by decide) (fun _ => rfl) fun _ => rfl).weaken
    (fun _ _ => by simp [Always]) (fun _ => by simp [Always, InRange]) (by decide)

def Distribution.InRange (d : Distribution) : Prop :=
  d.stakingRewards.InRange ∧ d.communityPool.InRange

theorem Distribution.exact_codec : Distribution.codec.Exact Always InRange 1 :=
  (exact_record (exact_cons exact_decimal <| exact_cons exact_decimal exact_nil) (by decide)
    (fun _ => rfl) fun _ => rfl).weaken
    (fun _ _ => by simp [Always]) (fun _ => by simp [Always, InRange]) (by decide)

theorem Params.exact_codec :
    Params.codec.Exact Always (fun p => p.schedule.InRange ∧ p.distribution.InRange) 2 :=
  (exact_record (exact_cons exact_string <| exact_cons Schedule.exact_codec <|
    exact_cons Distribution.exact_codec <| exact_cons exact_bool exact_nil) (by decide)
    (fun _ => rfl) fun _ => rfl).weaken
    (fun _ _ => by simp [Always]) (fun _ => by simp [Always]) (by decide)

def Section.InRange (s : Section) : Prop :=
  s.params.schedule.InRange ∧ s.params.distribution.InRange

theorem Section.exact_codec : Section.codec.Exact Always InRange 3 :=
  (exact_record (exact_cons Params.exact_codec <| exact_cons exact_uint64Text <|
    exact_cons exact_string <| exact_cons exact_int64Text <| exact_cons exact_uint64Text exact_nil)
    (by decide) (fun _ => rfl) fun _ => rfl).weaken
    (fun _ _ => by simp [Always]) (fun _ => by simp [Always, InRange]) (by decide)

end Inflation

namespace Evm

theorem Slot.exact_codec : Slot.codec.Exact Always Always 1 :=
  (exact_record (exact_cons exact_string <| exact_cons exact_string exact_nil) (by decide)
    (fun _ => rfl) fun _ => rfl).weaken
    (fun _ _ => by simp [Always]) (fun _ => by simp [Always]) (by decide)

theorem Account.exact_codec : Account.codec.Exact Always Always 3 :=
  (exact_record (exact_cons exact_string <| exact_cons exact_string <|
    exact_cons (exact_list Slot.exact_codec) exact_nil) (by decide) (fun _ => rfl) fun _ => rfl).weaken
    (fun _ _ => by simp [Always]) (fun _ => by simp [Always]) (by decide)

namespace ChainConfig

def HeightInRange (height : Option Int) : Prop := ∀ n ∈ height, Integer.InRange n

theorem exact_height : height.Exact Always HeightInRange 0 :=
  (exact_option exact_integer fun a _ same => by cases a <;> cases same).weaken
    (fun _ _ _ _ => trivial) (fun _ => Iff.rfl) (by decide)

def heights (c : ChainConfig) : List (Option Int) :=
  [c.homestead, c.daoFork, c.eip150, c.eip155, c.eip158, c.byzantium, c.constantinople, c.petersburg,
    c.istanbul, c.muirGlacier, c.berlin, c.london, c.arrowGlacier, c.grayGlacier, c.mergeNetsplit,
    c.shanghai, c.cancun]

def InRange (c : ChainConfig) : Prop := ∀ height ∈ c.heights, HeightInRange height

theorem exact_codec : codec.Exact Always InRange 1 :=
  (exact_record (exact_cons exact_height <| exact_cons exact_height <| exact_cons exact_bool <|
    exact_cons exact_height <| exact_cons exact_string <| exact_cons exact_height <|
    exact_cons exact_height <| exact_cons exact_height <| exact_cons exact_height <|
    exact_cons exact_height <| exact_cons exact_height <| exact_cons exact_height <|
    exact_cons exact_height <| exact_cons exact_height <| exact_cons exact_height <|
    exact_cons exact_height <| exact_cons exact_height <| exact_cons exact_height <|
    exact_cons exact_height exact_nil) (by decide) (fun _ => rfl) fun _ => rfl).weaken
    (fun _ _ => by simp [Always]) (fun _ => by simp [Always, InRange, heights]) (by decide)

end ChainConfig

theorem Params.exact_codec : Params.codec.Exact Always (fun p => p.chainConfig.InRange) 2 :=
  (exact_record (exact_cons exact_string <| exact_cons (exact_list exact_int64) <|
    exact_cons ChainConfig.exact_codec <| exact_cons exact_bool <|
    exact_cons (exact_list exact_string) <| exact_cons (exact_list exact_string) exact_nil)
    (by decide) (fun _ => rfl) fun _ => rfl).weaken
    (fun _ _ => by simp [Always]) (fun _ => by simp [Always]) (by decide)

def Section.InRange (s : Section) : Prop := s.params.chainConfig.InRange

theorem Section.exact_codec : Section.codec.Exact Always InRange 5 :=
  (exact_record (exact_cons (exact_list Account.exact_codec) <| exact_cons Params.exact_codec exact_nil)
    (by decide) (fun _ => rfl) fun _ => rfl).weaken
    (fun _ _ => by simp [Always]) (fun _ => by simp [Always, InRange]) (by decide)

end Evm
end Devnet
