import Devnet.Number.Decimal

namespace Devnet

inductive AuthViolation
  | zeroParameter (name : String)
  | duplicateAccount (address : String)
  deriving DecidableEq, Repr

def AuthViolation.message : AuthViolation → String
  | .zeroParameter name => s!"invalid {name}: must be positive"
  | .duplicateAccount address => s!"duplicate account found in genesis state; address: {address}"

inductive BankViolation
  | duplicateBalance (address : String)
  | duplicateMetadata (denom : String)
  | wrongSupply (expected found : String)
  deriving DecidableEq, Repr

def BankViolation.message : BankViolation → String
  | .duplicateBalance address => s!"duplicate balance for address {address}"
  | .duplicateMetadata denom => s!"duplicate client metadata for denom {denom}"
  | .wrongSupply expected found => s!"genesis supply is incorrect, expected {expected}, got {found}"

inductive StakingViolation
  | maxRate
  | rate
  | maxChangeRate
  | noValidators
  | noEntries
  | minCommissionRate (value : Decimal)
  | powerOverflow (operator : String)
  | duplicateOperator (operator : String)
  | duplicateKey (operator : String)
  | bondedAndJailed (operator : String)
  | noShares (operator : String)
  | unknownValidator (operator : String)
  deriving DecidableEq, Repr

def StakingViolation.message : StakingViolation → String
  | .maxRate => "commission max rate must be within [0, 1]"
  | .rate => "commission rate must be within [0, max rate]"
  | .maxChangeRate => "commission max change rate must be within [0, max rate]"
  | .noValidators => "max validators must be positive"
  | .noEntries => "max entries must be positive"
  | .minCommissionRate value => s!"minimum commission rate out of range: {value.render}"
  | .powerOverflow operator => s!"consensus power of {operator} overflows"
  | .duplicateOperator operator => s!"duplicate validator in genesis state: {operator}"
  | .duplicateKey operator => s!"duplicate consensus key for validator {operator}"
  | .bondedAndJailed operator => s!"validator is bonded and jailed in genesis state: {operator}"
  | .noShares operator =>
    s!"bonded/unbonded genesis validator cannot have zero delegator shares: {operator}"
  | .unknownValidator operator => s!"delegation to unknown validator {operator}"

inductive InflationViolation
  | negativeInitial (value : Decimal)
  | reduction (value : Decimal)
  | negativeLongTerm (value : Decimal)
  | bondingTarget (value : Decimal)
  | negativeVariance (value : Decimal)
  | negativeShare
  | wrongTotal (value : Decimal)
  | blankEpoch
  | noEpochs (count : Int64)
  deriving DecidableEq, Repr

def InflationViolation.message : InflationViolation → String
  | .negativeInitial value => s!"initial value cannot be negative: {value.render}"
  | .reduction value => s!"reduction factor must be within [0, 1]: {value.render}"
  | .negativeLongTerm value => s!"long term inflation cannot be negative: {value.render}"
  | .bondingTarget value => s!"bonding target must be within (0, 1]: {value.render}"
  | .negativeVariance value => s!"max variance cannot be negative: {value.render}"
  | .negativeShare => "inflation distribution shares cannot be negative"
  | .wrongTotal value => s!"inflation distribution must sum to one, got {value.render}"
  | .blankEpoch => "epoch identifier cannot be blank"
  | .noEpochs count => s!"epochs per period must be positive: {count.toInt}"

inductive EvmViolation
  | storageKey (key account : String)
  | duplicateStorageKey (key account : String)
  | negativeFork (fork : String) (height : Int)
  | forkOrder (earlier : String) (earlierHeight : Int) (later : String) (laterHeight : Int)
  | forkHash (hash : String)
  | duplicateEip (number : Int64)
  | precompile (address : String)
  | duplicateAccount (address : String)
  deriving DecidableEq, Repr

def EvmViolation.message : EvmViolation → String
  | .storageKey key account => s!"invalid storage key {key} for account {account}"
  | .duplicateStorageKey key account => s!"duplicate storage key {key} for account {account}"
  | .negativeFork fork height => s!"{fork} block cannot be negative: {height}"
  | .forkOrder earlier earlierHeight later laterHeight =>
    s!"unsupported fork ordering: {earlier} enabled at {earlierHeight}, but {later} enabled at {laterHeight}"
  | .forkHash hash => s!"invalid eip150 hash: {hash}"
  | .duplicateEip number => s!"duplicate EIP: {number.toInt}"
  | .precompile address => s!"invalid or duplicate precompile address: {address}"
  | .duplicateAccount address => s!"duplicated genesis account {address}"

inductive ChainViolation
  | wrongChain (expected found : String)
  | alreadyInitialized (chainId : String)
  | noStandard (module : String)
  | bondedPool (balance bonded : String)
  | notBondedPool (balance notBonded : String)
  | validatorMismatch (requested computed : Nat)
  deriving DecidableEq, Repr

def ChainViolation.message : ChainViolation → String
  | .wrongChain expected found => s!"invalid chain-id on InitChain; expected: {expected}, got: {found}"
  | .alreadyInitialized chainId => s!"chain {chainId} is already initialized"
  | .noStandard module => s!"no default genesis for {module}"
  | .bondedPool balance bonded =>
    s!"bonded pool balance is different from bonded coins: {balance} (balance) vs {bonded} (bonded coins)"
  | .notBondedPool balance notBonded =>
    s!"not bonded pool balance is different from not bonded coins: {balance} (balance) vs {notBonded} (not bonded coins)"
  | .validatorMismatch requested computed =>
    s!"genesis validator set mismatch: {requested} requested, {computed} from staking genesis"

inductive Violation
  | auth (cause : AuthViolation)
  | bank (cause : BankViolation)
  | staking (cause : StakingViolation)
  | inflation (cause : InflationViolation)
  | evm (cause : EvmViolation)
  | chain (cause : ChainViolation)
  deriving DecidableEq, Repr

def Violation.message : Violation → String
  | .auth cause => cause.message
  | .bank cause => cause.message
  | .staking cause => cause.message
  | .inflation cause => cause.message
  | .evm cause => cause.message
  | .chain cause => cause.message

end Devnet
