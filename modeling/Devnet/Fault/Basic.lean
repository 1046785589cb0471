import Devnet.Coin.Basic
import Devnet.Consensus.PublicKey
import Devnet.Fault.Kind
import Devnet.Genesis.Violation

namespace Devnet

inductive StoreFault
  | chainIdText (cause : Utf8Fault)
  | moduleName (cause : Utf8Fault)
  | otherChain (stored wanted : String)
  deriving DecidableEq, Repr

def StoreFault.message : StoreFault → String
  | .chainIdText cause => s!"Invalid chain id format: {cause.message}"
  | .moduleName cause => s!"Invalid module name: {cause.message}"
  | .otherChain stored wanted => s!"store belongs to chain {stored}, not {wanted}"

inductive ConfigFault
  | toml
  | blankChainId
  | noValidators
  | noAccounts
  | balance (amount : Int)
  | unreadable (path reason : String)
  deriving DecidableEq, Repr

def ConfigFault.message : ConfigFault → String
  | .toml => "<toml error>"
  | .blankChainId => "chain id cannot be blank"
  | .noValidators => "network needs at least one validator"
  | .noAccounts => "network needs a pre-funded account to delegate from"
  | .balance amount => s!"initial balance must be positive, got {amount}"
  | .unreadable path reason => s!"failed to read {path}: {reason}"

inductive Fault
  | privateKey
  | key (cause : KeyFault)
  | override (module found : String)
  | violation (cause : Violation)
  | coin (cause : CoinFault)
  | number (cause : NumberFault)
  | address (cause : AddressFault)
  | decode (cause : DecodeFault)
  | badSection (module : String) (cause : DecodeFault)
  | envelope (cause : Envelope.Fault)
  | storedRecord
  | store (cause : StoreFault)
  | config (cause : ConfigFault)
  | powerOverflow
  deriving DecidableEq, Repr

namespace Fault

def kind : Fault → FaultKind
  | .privateKey => .crypto
  | .key _ => .keyConversion
  | .override .. => .override
  | .violation _ => .genesis
  | .coin _ => .coin
  | .number _ => .number
  | .address _ => .address
  | .decode _ | .badSection .. | .envelope _ | .storedRecord => .serialization
  | .store _ => .database
  | .config _ => .config
  | .powerOverflow => .overflow

def cause : Fault → String
  | .privateKey => "Failed to create key pair from PKCS8: <ring error>"
  | .key cause => cause.message
  | .override module found => overrideCause module found
  | .violation cause => cause.message
  | .coin cause => cause.message
  | .number cause => cause.message
  | .address cause => cause.message
  | .decode cause => cause.message
  | .badSection module cause => s!"invalid {module} genesis section: {cause.message}"
  | .envelope cause => cause.message
  | .storedRecord => "Deserialization failed: <bincode error>"
  | .store cause => cause.message
  | .config cause => cause.message
  | .powerOverflow => "voting powers overflow"

def message (fault : Fault) : String := fault.kind.message fault.cause

def ofAuth (cause : AuthViolation) : Fault := .violation (.auth cause)

def ofBank (cause : BankViolation) : Fault := .violation (.bank cause)

def ofStaking (cause : StakingViolation) : Fault := .violation (.staking cause)

def ofInflation (cause : InflationViolation) : Fault := .violation (.inflation cause)

def ofEvm (cause : EvmViolation) : Fault := .violation (.evm cause)

def ofChain (cause : ChainViolation) : Fault := .violation (.chain cause)

def ofUnpack : AppKey.UnpackFault → Fault
  | .key cause => .key cause
  | .envelope cause => .envelope cause

end Fault
end Devnet
