import Devnet.Coin.Basic
import Devnet.Fault.Basic
import Devnet.Genesis.Seen

namespace Devnet.Staking

def moduleName : String := "staking"

def bondedPoolName : String := "bonded_tokens_pool"

def notBondedPoolName : String := "not_bonded_tokens_pool"

def bondedPool : AccountAddress := moduleAddress bondedPoolName

def notBondedPool : AccountAddress := moduleAddress notBondedPoolName

def noTime : String := "1970-01-01T00:00:00Z"

inductive BondStatus
  | unspecified
  | unbonded
  | unbonding
  | bonded
  deriving DecidableEq, Repr

namespace BondStatus

def name : BondStatus → String
  | .unspecified => "BOND_STATUS_UNSPECIFIED"
  | .unbonded => "BOND_STATUS_UNBONDED"
  | .unbonding => "BOND_STATUS_UNBONDING"
  | .bonded => "BOND_STATUS_BONDED"

def all : List BondStatus := [.unspecified, .unbonded, .unbonding, .bonded]

def codec : Codec BondStatus := .named name (all.map fun status => (status.name, status))

end BondStatus

structure Description where
  moniker : String
  identity : String
  website : String
  securityContact : String
  details : String
  deriving DecidableEq, Repr

namespace Description

def blank : Description := ⟨"", "", "", "", ""⟩

def codec : Codec Description :=
  .record "Description"
    (.cons "moniker" .string <| .cons "identity" .string <| .cons "website" .string <|
      .cons "security_contact" .string <| .cons "details" .string .nil)
    (fun d => (d.moniker, d.identity, d.website, d.securityContact, d.details, ()))
    fun (moniker, identity, website, securityContact, details, ()) =>
      ⟨moniker, identity, website, securityContact, details⟩

end Description

structure CommissionRates where
  rate : Decimal
  maxRate : Decimal
  maxChangeRate : Decimal
  deriving DecidableEq, Repr

def CommissionRates.codec : Codec CommissionRates :=
  .record "CommissionRates"
    (.cons "rate" .decimal <| .cons "max_rate" .decimal <| .cons "max_change_rate" .decimal .nil)
    (fun r => (r.rate, r.maxRate, r.maxChangeRate, ()))
    fun (rate, maxRate, maxChangeRate, ()) => ⟨rate, maxRate, maxChangeRate⟩

structure Commission where
  rates : CommissionRates
  updateTime : String
  deriving DecidableEq, Repr

namespace Commission

def free : Commission := ⟨⟨.zero, .zero, .zero⟩, noTime⟩

def outside (value most : Decimal) : Bool := value.isNegative || most.lt value

def validate (commission : Commission) : Except Fault Unit := do
  let rates := commission.rates
  if outside rates.maxRate .one then throw (.ofStaking .maxRate)
  if outside rates.rate rates.maxRate then throw (.ofStaking .rate)
  if outside rates.maxChangeRate rates.maxRate then throw (.ofStaking .maxChangeRate)

def codec : Codec Commission :=
  .record "Commission" (.cons "commission_rates" CommissionRates.codec <| .cons "update_time" .string .nil)
    (fun c => (c.rates, c.updateTime, ())) fun (rates, updateTime, ()) => ⟨rates, updateTime⟩

end Commission

structure Validator where
  operatorAddress : String
  consensusKey : Envelope
  jailed : Bool
  status : BondStatus
  tokens : Int
  delegatorShares : Decimal
  description : Description
  unbondingHeight : Int64
  unbondingTime : String
  commission : Commission
  minSelfDelegation : Int
  deriving Repr

namespace Validator

def isBonded (v : Validator) : Bool := v.status = .bonded

def publicKey (v : Validator) : Except Fault PublicKey :=
  ((AppKey.unpack v.consensusKey).map AppKey.toPublicKey).mapError .ofUnpack

/-- Tokens over the power reduction, without the fraction; nothing unless bonded. -/
def consensusPower (v : Validator) (reduction : Int) : Except Fault Int64 := do
  if !v.isBonded then return 0
  let power ← (Integer.quo v.tokens reduction).mapError .number
  match Integer.toInt64? power with
  | some power => return power
  | none => throw (.ofStaking (.powerOverflow v.operatorAddress))

def codec : Codec Validator :=
  .record "Validator"
    (.cons "operator_address" .string <| .cons "consensus_pubkey" Envelope.codec <| .cons "jailed" .bool <|
      .cons "status" BondStatus.codec <| .cons "tokens" .integer <| .cons "delegator_shares" .decimal <|
      .cons "description" Description.codec <| .cons "unbonding_height" .int64Text <|
      .cons "unbonding_time" .string <| .cons "commission" Commission.codec <|
      .cons "min_self_delegation" .integer .nil)
    (fun v => (v.operatorAddress, v.consensusKey, v.jailed, v.status, v.tokens, v.delegatorShares,
      v.description, v.unbondingHeight, v.unbondingTime, v.commission, v.minSelfDelegation, ()))
    fun (operatorAddress, consensusKey, jailed, status, tokens, delegatorShares, description,
        unbondingHeight, unbondingTime, commission, minSelfDelegation, ()) =>
      ⟨operatorAddress, consensusKey, jailed, status, tokens, delegatorShares, description,
        unbondingHeight, unbondingTime, commission, minSelfDelegation⟩

end Validator

structure Delegation where
  delegatorAddress : String
  validatorAddress : String
  shares : Decimal
  deriving DecidableEq, Repr

def Delegation.codec : Codec Delegation :=
  .record "Delegation"
    (.cons "delegator_address" .string <| .cons "validator_address" .string <| .cons "shares" .decimal .nil)
    (fun d => (d.delegatorAddress, d.validatorAddress, d.shares, ()))
    fun (delegatorAddress, validatorAddress, shares, ()) => ⟨delegatorAddress, validatorAddress, shares⟩

structure UnbondingEntry where
  creationHeight : Int64
  completionTime : String
  initialBalance : Int
  balance : Int
  deriving DecidableEq, Repr

def UnbondingEntry.codec : Codec UnbondingEntry :=
  .record "UnbondingDelegationEntry"
    (.cons "creation_height" .int64Text <| .cons "completion_time" .string <|
      .cons "initial_balance" .integer <| .cons "balance" .integer .nil)
    (fun e => (e.creationHeight, e.completionTime, e.initialBalance, e.balance, ()))
    fun (creationHeight, completionTime, initialBalance, balance, ()) =>
      ⟨creationHeight, completionTime, initialBalance, balance⟩

structure UnbondingDelegation where
  delegatorAddress : String
  validatorAddress : String
  entries : List UnbondingEntry
  deriving DecidableEq, Repr

def UnbondingDelegation.codec : Codec UnbondingDelegation :=
  .record "UnbondingDelegation"
    (.cons "delegator_address" .string <| .cons "validator_address" .string <|
      .cons "entries" (.list UnbondingEntry.codec) .nil)
    (fun d => (d.delegatorAddress, d.validatorAddress, d.entries, ()))
    fun (delegatorAddress, validatorAddress, entries, ()) => ⟨delegatorAddress, validatorAddress, entries⟩

structure RedelegationEntry where
  creationHeight : Int64
  completionTime : String
  initialBalance : Int
  sharesDst : Decimal
  deriving DecidableEq, Repr

def RedelegationEntry.codec : Codec RedelegationEntry :=
  .record "RedelegationEntry"
    (.cons "creation_height" .int64Text <| .cons "completion_time" .string <|
      .cons "initial_balance" .integer <| .cons "shares_dst" .decimal .nil)
    (fun e => (e.creationHeight, e.completionTime, e.initialBalance, e.sharesDst, ()))
    fun (creationHeight, completionTime, initialBalance, sharesDst, ()) =>
      ⟨creationHeight, completionTime, initialBalance, sharesDst⟩

structure Redelegation where
  delegatorAddress : String
  validatorSrcAddress : String
  validatorDstAddress : String
  entries : List RedelegationEntry
  deriving DecidableEq, Repr

def Redelegation.codec : Codec Redelegation :=
  .record "Redelegation"
    (.cons "delegator_address" .string <| .cons "validator_src_address" .string <|
      .cons "validator_dst_address" .string <| .cons "entries" (.list RedelegationEntry.codec) .nil)
    (fun d => (d.delegatorAddress, d.validatorSrcAddress, d.validatorDstAddress, d.entries, ()))
    fun (delegatorAddress, validatorSrcAddress, validatorDstAddress, entries, ()) =>
      ⟨delegatorAddress, validatorSrcAddress, validatorDstAddress, entries⟩

structure LastPower where
  address : String
  power : Int64
  deriving DecidableEq, Repr

def LastPower.codec : Codec LastPower :=
  .record "LastValidatorPower" (.cons "address" .string <| .cons "power" .int64Text .nil)
    (fun p => (p.address, p.power, ())) fun (address, power, ()) => ⟨address, power⟩

structure Params where
  unbondingTime : String
  maxValidators : UInt32
  maxEntries : UInt32
  historicalEntries : UInt32
  bondDenom : String
  minCommissionRate : Decimal
  deriving DecidableEq, Repr

namespace Params

def standard : Params := ⟨"1814400s", 100, 7, 10000, "stake", .zero⟩

def validate (params : Params) : Except Fault Unit := do
  (Denom.validate params.bondDenom).mapError .coin
  if params.maxValidators = 0 then throw (.ofStaking .noValidators)
  if params.maxEntries = 0 then throw (.ofStaking .noEntries)
  if Commission.outside params.minCommissionRate .one then
    throw (.ofStaking (.minCommissionRate params.minCommissionRate))

def codec : Codec Params :=
  .record "Params"
    (.cons "unbonding_time" .string <| .cons "max_validators" .uint32 <| .cons "max_entries" .uint32 <|
      .cons "historical_entries" .uint32 <| .cons "bond_denom" .string <|
      .cons "min_commission_rate" .decimal .nil)
    (fun p => (p.unbondingTime, p.maxValidators, p.maxEntries, p.historicalEntries, p.bondDenom,
      p.minCommissionRate, ()))
    fun (unbondingTime, maxValidators, maxEntries, historicalEntries, bondDenom, minCommissionRate, ()) =>
      ⟨unbondingTime, maxValidators, maxEntries, historicalEntries, bondDenom, minCommissionRate⟩

end Params

structure Section where
  params : Params
  lastTotalPower : Int
  lastValidatorPowers : List LastPower
  validators : List Validator
  delegations : List Delegation
  unbondingDelegations : List UnbondingDelegation
  redelegations : List Redelegation
  exported : Bool
  deriving Repr

def tokensOf : List Validator → Int
  | [] => 0
  | v :: rest => v.tokens + tokensOf rest

namespace Section

def make (params : Params) (validators : List Validator) (delegations : List Delegation) : Section :=
  ⟨params, 0, [], validators, delegations, [], [], false⟩

def standard : Section := make .standard [] []

def bondedTokens (s : Section) : Int := tokensOf (s.validators.filter Validator.isBonded)

def notBondedTokens (s : Section) : Int := tokensOf (s.validators.filter fun v => !v.isBonded)

abbrev Known := List String × List PublicKey

def checkValidator (known : Known) (v : Validator) : Except Fault Known := do
  discard <| (Address.parse .operator v.operatorAddress).mapError .address
  let operators ← Seen.add known.1 v.operatorAddress (.ofStaking (.duplicateOperator v.operatorAddress))
  let key ← v.publicKey
  let keys ← Seen.add known.2 key (.ofStaking (.duplicateKey v.operatorAddress))
  if v.jailed && v.isBonded then throw (.ofStaking (.bondedAndJailed v.operatorAddress))
  if v.delegatorShares.isZero && v.status ≠ .unbonding then throw (.ofStaking (.noShares v.operatorAddress))
  v.commission.validate
  return (operators, keys)

def checkDelegation (operators : List String) (delegation : Delegation) : Except Fault Unit := do
  discard <| (Address.parse .account delegation.delegatorAddress).mapError .address
  if delegation.validatorAddress ∉ operators then
    throw (.ofStaking (.unknownValidator delegation.validatorAddress))

def validate (s : Section) : Except Fault Unit := do
  s.params.validate
  let known ← s.validators.foldlM checkValidator ([], [])
  s.delegations.forM (checkDelegation known.1)

def codec : Codec Section :=
  .record "GenesisState"
    (.cons "params" Params.codec <| .cons "last_total_power" .integer <|
      .cons "last_validator_powers" (.list LastPower.codec) <| .cons "validators" (.list Validator.codec) <|
      .cons "delegations" (.list Delegation.codec) <|
      .cons "unbonding_delegations" (.list UnbondingDelegation.codec) <|
      .cons "redelegations" (.list Redelegation.codec) <| .cons "exported" .bool .nil)
    (fun s => (s.params, s.lastTotalPower, s.lastValidatorPowers, s.validators, s.delegations,
      s.unbondingDelegations, s.redelegations, s.exported, ()))
    fun (params, lastTotalPower, lastValidatorPowers, validators, delegations, unbondingDelegations,
        redelegations, exported, ()) =>
      ⟨params, lastTotalPower, lastValidatorPowers, validators, delegations, unbondingDelegations,
        redelegations, exported⟩

end Section
end Devnet.Staking
