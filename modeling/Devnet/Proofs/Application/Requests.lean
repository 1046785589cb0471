import Devnet.Proofs.Application.Pools
import Devnet.Proofs.Coin.Single
import Devnet.Proofs.Consensus.AppKeys
import Devnet.Proofs.Genesis.Evm
import Devnet.Proofs.Genesis.Registry
import Devnet.Proofs.Genesis.RoundTrip
import Devnet.Proofs.Genesis.Staking
import Mathlib

namespace Devnet

namespace Sections

def ofStaking (bank : Bank.Section) (staking : Staking.Section) : Sections :=
  { standard with bank, staking }

def stakingGenesis (bank : Bank.Section) (staking : Staking.Section) : Genesis := .ofValues
  [(Bank.moduleName, (Bank.Section.codec.encode bank).normal),
   (Staking.moduleName, (Staking.Section.codec.encode staking).normal)]

end Sections

namespace Application

def stakingRequest (bank : Bank.Section) (staking : Staking.Section)
    (validators : List ValidatorUpdate) : InitRequest where
  chainId := "evmos_9000-1"
  initialHeight := 1
  validators
  appState := Codec.members.toBytes [(Bank.moduleName, Bank.Section.codec.encode bank),
    (Staking.moduleName, Staking.Section.codec.encode staking)]

variable {bank : Bank.Section} {staking : Staking.Section}

theorem tidy_stakingRequest (settled : ∀ v ∈ staking.validators, v.consensusKey.Settled 0) :
    ∀ entry ∈ [(Bank.moduleName, Bank.Section.codec.encode bank),
      (Staking.moduleName, Staking.Section.codec.encode staking)],
      entry.2.Tidy Genesis.innerDepth := by
  intro entry member
  rcases List.mem_pair.mp member with rfl | rfl
  · exact (Bank.Section.exact_codec.tidy bank trivial).mono (by decide)
  · exact (Staking.Section.exact_codec.tidy staking settled).mono (by decide)

theorem reads_stakingRequest (settled : ∀ v ∈ staking.validators, v.consensusKey.Settled 0)
    (validators : List ValidatorUpdate) :
    Genesis.ofAppStateBytes (stakingRequest bank staking validators).appState =
      .ok (Sections.stakingGenesis bank staking) := by
  have less : Bank.moduleName < Staking.moduleName := by decide
  exact Genesis.ofAppStateBytes_toBytes (List.pairwise_pair.mpr less) (tidy_stakingRequest settled)

theorem whole_stakingRequest (settled : ∀ v ∈ staking.validators, v.consensusKey.Settled 0)
    (validators : List ValidatorUpdate) :
    (RawJson.Document.ofBytes (stakingRequest bank staking validators).appState).body.Numbers
      JsonNumber.Whole := by
  have tidy : (Json.object [(Bank.moduleName, Bank.Section.codec.encode bank),
      (Staking.moduleName, Staking.Section.codec.encode staking)]).Tidy Codec.maxDepth :=
    .object (tidy_stakingRequest settled)
  have document : RawJson.Document.ofBytes (stakingRequest bank staking validators).appState =
      ⟨.ofJson _, true⟩ := RawJson.ofBytes_encode tidy
  rw [document]
  exact RawJson.numbers_ofJson tidy

theorem decodes_stakingGenesis (settled : ∀ v ∈ staking.validators, v.consensusKey.Settled 0)
    (bankInRange : bank.InRange) (stakingInRange : staking.InRange) :
    (Sections.stakingGenesis bank staking).sections = .ok (Sections.ofStaking bank staking) := by
  have bankRead : (Sections.stakingGenesis bank staking).sectionOrStandard .bank = .ok bank :=
    (Genesis.sectionOrStandard_eq_ok .bank Bank.Section.exact_codec (by decide) trivial rfl).mpr
      ⟨bankInRange, rfl⟩
  have stakingRead : (Sections.stakingGenesis bank staking).sectionOrStandard .staking = .ok staking :=
    (Genesis.sectionOrStandard_eq_ok .staking Staking.Section.exact_codec (by decide) settled
      rfl).mpr ⟨stakingInRange, rfl⟩
  exact Genesis.sections_eq_ok.mpr ⟨Genesis.sectionOrStandard_of_absent rfl, bankRead, stakingRead,
    Genesis.sectionOrStandard_of_absent rfl, Genesis.sectionOrStandard_of_absent rfl⟩

theorem eq_of_reads_stakingRequest (settled : ∀ v ∈ staking.validators, v.consensusKey.Settled 0)
    {validators : List ValidatorUpdate} {genesis : Genesis} {found : Staking.Section}
    (reads : Genesis.ofAppStateBytes (stakingRequest bank staking validators).appState = .ok genesis)
    (decodes : genesis.sectionOrStandard .staking = .ok found) : found = staking := by
  obtain rfl := Except.ok.inj ((reads_stakingRequest settled validators).symm.trans reads)
  exact ((Genesis.sectionOrStandard_eq_ok .staking Staking.Section.exact_codec (by decide) settled
    rfl).mp decodes).2

theorem initChain_stakingRequest (settled : ∀ v ∈ staking.validators, v.consensusKey.Settled 0)
    (bankInRange : bank.InRange) (stakingInRange : staking.InRange)
    (valid : (Sections.ofStaking bank staking).Valid .standard)
    {updates : List ValidatorUpdate} (powers : staking.updates = .ok updates)
    {validators : List ValidatorUpdate} (expected : checkExpected validators updates = .ok ()) :
    ∃ next, (fresh "evmos_9000-1" ".evmosd" .dropped).initChain .empty
        (stakingRequest bank staking validators) =
      .ok (⟨updates, Sha256.digest (stakingRequest bank staking validators).appState⟩, next) := by
  have approved : (fresh "evmos_9000-1" ".evmosd" .dropped).Approves
      (stakingRequest bank staking validators) (Sections.stakingGenesis bank staking)
      (Sections.ofStaking bank staking) updates :=
    { reads := reads_stakingRequest settled validators
      decodes := decodes_stakingGenesis settled bankInRange stakingInRange
      valid
      powers
      expected }
  exact ⟨_, initChain_eq_ok.mpr ⟨rfl, rfl, _, _, _, approved, rfl, rfl⟩⟩

def uniformValidator (byte : UInt8) (tokens : Int) : Staking.Validator where
  operatorAddress := (⟨List.replicate 20 byte⟩ : OperatorAddress).render
  consensusKey := (AppKey.ed25519 (List.replicate AppKey.ed25519Size byte)).pack
  jailed := false
  status := .bonded
  tokens
  delegatorShares := .one
  description := .blank
  unbondingHeight := 0
  unbondingTime := Staking.noTime
  commission := .free
  minSelfDelegation := 0

/-- A validator with some operator and key that is good otherwise. -/
structure IsSample (v : Staking.Validator) (operator : OperatorAddress) (key : AppKey) : Prop where
  address : v.operatorAddress = operator.render
  sized : operator.Sized
  packed : v.consensusKey = key.pack
  free : (v.jailed && v.isBonded) = false
  shares : v.delegatorShares = .one
  commission : v.commission = .free
  minSelfDelegation : v.minSelfDelegation = 0

theorem isSample_uniformValidator (byte : UInt8) (tokens : Int) :
    IsSample (uniformValidator byte tokens) ⟨List.replicate 20 byte⟩
      (.ed25519 (List.replicate AppKey.ed25519Size byte)) where
  address := rfl
  sized := by simp [Address.Sized]
  packed := rfl
  free := rfl
  shares := rfl
  commission := rfl
  minSelfDelegation := rfl

theorem isSample_withKey (byte : UInt8) (tokens : Int) (key : AppKey) :
    IsSample { uniformValidator byte tokens with consensusKey := key.pack } ⟨List.replicate 20 byte⟩
      key :=
  { isSample_uniformValidator byte tokens with packed := rfl }

namespace IsSample

variable {v : Staking.Validator} {operator : OperatorAddress} {key : AppKey}

theorem settled (sample : IsSample v operator key) : v.consensusKey.Settled 0 := by
  rw [sample.packed]
  exact AppKey.settled_pack key

theorem inRange (sample : IsSample v operator key) (bounded : Integer.InRange v.tokens) :
    v.InRange := by
  refine ⟨bounded, ?_, ?_, ?_⟩
  · rw [sample.shares]
    exact Decimal.inRange_one
  · rw [sample.commission]
    exact Staking.Commission.inRange_free
  · rw [sample.minSelfDelegation]
    exact Integer.inRange_zero

theorem publicKey_eq (sample : IsSample v operator key) : v.publicKey = .ok key.toPublicKey := by
  unfold Staking.Validator.publicKey
  rw [sample.packed, AppKey.unpack_pack]
  rfl

theorem valid (sample : IsSample v operator key) : v.Valid where
  operator := by
    rw [sample.address]
    exact ⟨operator, Address.parse_render_eq_ok.mpr ⟨sample.sized, rfl⟩⟩
  free := by simp [sample.free]
  shared := by
    rw [sample.shares]
    simp [Decimal.isZero, Decimal.one, Decimal.scale, tenTo]
  commission := by
    rw [sample.commission]
    rfl

end IsSample

def poolBank (bonded notBonded : Int) : Bank.Section := { Bank.Section.standard with
  balances := [.make Staking.bondedPool (.single ⟨"stake", bonded⟩),
    .make Staking.notBondedPool (.single ⟨"stake", notBonded⟩)] }

variable {bonded notBonded : Int}

theorem forall_mem_balances_poolBank {good : Bank.Balance → Prop} :
    (∀ balance ∈ (poolBank bonded notBonded).balances, good balance) ↔
      good (.make Staking.bondedPool (.single ⟨"stake", bonded⟩)) ∧
      good (.make Staking.notBondedPool (.single ⟨"stake", notBonded⟩)) := by
  rw [poolBank, List.forall_mem_cons, List.forall_mem_singleton]

theorem inRange_poolBank (bounded : Integer.InRange bonded) (bounded' : Integer.InRange notBonded) :
    (poolBank bonded notBonded).InRange :=
  ⟨forall_mem_balances_poolBank.mpr
    ⟨Coins.inRange_single.mpr bounded, Coins.inRange_single.mpr bounded'⟩, List.forall_mem_nil _⟩

theorem render_bondedPool_ne : Staking.bondedPool.render ≠ Staking.notBondedPool.render :=
  fun same => Staking.notBondedPool_ne_bondedPool (Address.render_injective same).symm

theorem validate_stake {amount : Int} (nonneg : 0 ≤ amount) :
    (Coins.single ⟨"stake", amount⟩).validate = .ok () := by
  have known : Denom.isValid "stake" = true := by decide
  exact Coins.validate_single (Coin.validate_eq_ok.mpr ⟨known, nonneg⟩)

theorem valid_poolBank (nonneg : 0 ≤ bonded) (nonneg' : 0 ≤ notBonded) :
    (poolBank bonded notBonded).Valid where
  sendEnabled := List.forall_mem_nil _
  accounts := forall_mem_balances_poolBank.mpr
    ⟨⟨_, parse_moduleAddress _⟩, ⟨_, parse_moduleAddress _⟩⟩
  coins := forall_mem_balances_poolBank.mpr ⟨validate_stake nonneg, validate_stake nonneg'⟩
  addresses := List.nodup_cons.mpr ⟨fun member => render_bondedPool_ne (List.mem_singleton.mp member),
    List.nodup_singleton _⟩
  metadata := List.forall_mem_nil _
  bases := List.nodup_nil
  supply := Or.inl rfl

theorem balanceOf_poolBank (bonded notBonded : Int) :
    (poolBank bonded notBonded).balanceOf Staking.bondedPool = .single ⟨"stake", bonded⟩ ∧
    (poolBank bonded notBonded).balanceOf Staking.notBondedPool = .single ⟨"stake", notBonded⟩ := by
  have first : ((poolBank bonded notBonded).balances.filter
      fun balance => balance.address == Staking.bondedPool.render) =
        [.make Staking.bondedPool (.single ⟨"stake", bonded⟩)] := by
    simp [poolBank, Bank.Balance.make, render_bondedPool_ne.symm]
  have second : ((poolBank bonded notBonded).balances.filter
      fun balance => balance.address == Staking.notBondedPool.render) =
        [.make Staking.notBondedPool (.single ⟨"stake", notBonded⟩)] := by
    simp [poolBank, Bank.Balance.make, render_bondedPool_ne]
  constructor
  · have total := Coins.total_single "stake" [bonded]
    rw [List.sum_singleton] at total
    rw [Bank.Section.balanceOf, first]
    exact total
  · have total := Coins.total_single "stake" [notBonded]
    rw [List.sum_singleton] at total
    rw [Bank.Section.balanceOf, second]
    exact total

section Samples

variable {validators : List Staking.Validator} {sources : List (OperatorAddress × AppKey)}

theorem settled_samples
    (samples : List.Forall₂ (fun v source => IsSample v source.1 source.2) validators sources) :
    ∀ v ∈ validators, v.consensusKey.Settled 0 := by
  intro v member
  obtain ⟨source, -, sample⟩ := exists_of_forall₂ samples.flip member
  exact sample.settled

theorem valid_samples (bankValid : bank.Valid)
    (bondedPool : bank.balanceOf Staking.bondedPool = .single ⟨"stake", bonded⟩)
    (notBondedPool : bank.balanceOf Staking.notBondedPool = .single ⟨"stake", notBonded⟩)
    (samples : List.Forall₂ (fun v source => IsSample v source.1 source.2) validators sources)
    (operators : (sources.map Prod.fst).Nodup)
    (keys : (sources.map fun source => source.2.toPublicKey).Nodup)
    (bonds : (Staking.Section.make .standard validators []).bondedTokens = bonded)
    (nonneg : 0 ≤ bonded)
    (others : (Staking.Section.make .standard validators []).notBondedTokens = notBonded)
    (nonneg' : 0 ≤ notBonded) :
    (Sections.ofStaking bank (.make .standard validators [])).Valid .standard := by
  have addresses : (validators.map Staking.Validator.operatorAddress).Nodup := by
    have written : validators.map Staking.Validator.operatorAddress =
        (sources.map Prod.fst).map Address.render := by
      rw [List.map_map, ← List.forall₂_eq_eq_eq, List.forall₂_map_left_iff,
        List.forall₂_map_right_iff]
      exact samples.imp fun _ _ sample => sample.address
    rw [written]
    exact operators.map Address.render_injective
  have unpacked : List.Forall₂ (fun v key => Staking.Validator.publicKey v = .ok key) validators
      (sources.map fun source => source.2.toPublicKey) := by
    rw [List.forall₂_map_right_iff]
    exact samples.imp fun _ _ sample => sample.publicKey_eq
  have staking : (Staking.Section.make .standard validators []).Valid :=
    { params := Staking.Params.validate_standard (by decide)
      validators := fun v member => by
        obtain ⟨source, -, sample⟩ := exists_of_forall₂ samples.flip member
        exact sample.valid
      operators := addresses
      keys := ⟨_, unpacked, keys⟩
      delegators := List.forall_mem_nil _
      delegations := List.forall_mem_nil _ }
  have known : ∀ v ∈ validators, Registry.standard.check v.consensusKey = .ok () := by
    intro v member
    obtain ⟨source, -, sample⟩ := exists_of_forall₂ samples.flip member
    rw [sample.packed]
    exact Registry.check_standard_pack source.2
  have pools : (Sections.ofStaking bank (.make .standard validators [])).checkPools = .ok () := by
    have denom : Denom.isValid Staking.Params.standard.bondDenom = true := by decide
    rw [Sections.checkPools_eq_ok]
    subst bonds others
    exact ⟨denom, ⟨nonneg, bondedPool⟩, nonneg', notBondedPool⟩
  have inflation : Inflation.Section.standard.validate = .ok () := by decide
  exact
    { accounts := List.forall_mem_nil _
      auth := rfl
      bank := Bank.Section.validate_eq_ok.mpr bankValid
      keys := known
      staking := Staking.Section.validate_eq_ok.mpr staking
      pools
      inflation
      evm := Evm.Section.validate_standard }

theorem initChain_samples
    (samples : List.Forall₂ (fun v source => IsSample v source.1 source.2) validators sources)
    (operators : (sources.map Prod.fst).Nodup)
    (keys : (sources.map fun source => source.2.toPublicKey).Nodup)
    (tokens : ∀ v ∈ validators, Integer.InRange v.tokens)
    (bonds : (Staking.Section.make .standard validators []).bondedTokens = bonded)
    (nonneg : 0 ≤ bonded) (bounded : Integer.InRange bonded)
    (others : (Staking.Section.make .standard validators []).notBondedTokens = notBonded)
    (nonneg' : 0 ≤ notBonded) (bounded' : Integer.InRange notBonded)
    {updates : List ValidatorUpdate}
    (powers : (Staking.Section.make .standard validators []).updates = .ok updates)
    {listed : List ValidatorUpdate} (expected : checkExpected listed updates = .ok ()) :
    ∃ appHash next, (fresh "evmos_9000-1" ".evmosd" .dropped).initChain .empty
        (stakingRequest (poolBank bonded notBonded) (.make .standard validators []) listed) =
      .ok (⟨updates, appHash⟩, next) := by
  have inRange : (Staking.Section.make .standard validators []).InRange := by
    apply Staking.Section.inRange_make Decimal.inRange_zero _ (List.forall_mem_nil _)
    intro v member
    obtain ⟨source, -, sample⟩ := exists_of_forall₂ samples.flip member
    exact sample.inRange (tokens v member)
  obtain ⟨first, second⟩ := balanceOf_poolBank bonded notBonded
  have valid := valid_samples (valid_poolBank nonneg nonneg') first second samples operators keys
    bonds nonneg others nonneg'
  obtain ⟨next, taken⟩ := initChain_stakingRequest (settled_samples samples)
    (inRange_poolBank bounded bounded') inRange valid powers expected
  exact ⟨_, next, taken⟩

end Samples

end Application
end Devnet
