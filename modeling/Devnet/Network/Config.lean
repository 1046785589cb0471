import Devnet.Genesis.Overrides
import Devnet.Text.Blank
import Devnet.Toml.Reader

namespace Devnet

/-- Accounts that are funded from the start: given ones, or some that have yet to be drawn. -/
inductive Accounts
  | listed (addresses : List AccountAddress)
  | drawn (count : Nat)
  deriving DecidableEq, Repr

namespace Accounts

def size : Accounts → Nat
  | .listed addresses => addresses.length
  | .drawn count => count

def drawCount : Accounts → Nat
  | .listed _ => 0
  | .drawn count => count

def settle (drawn : List AccountAddress) : Accounts → List AccountAddress
  | .listed addresses => addresses
  | .drawn _ => drawn

end Accounts

structure NetworkConfig where
  chainId : String
  validatorCount : Nat
  accounts : Accounts
  initialBalance : Int
  denom : String
  overrides : Overrides

namespace NetworkConfig

def standard (chainId : String) : NetworkConfig where
  chainId
  validatorCount := 3
  accounts := .drawn 3
  initialBalance := tenTo 23
  denom := "aevmos"
  overrides := []

def withOverride (config : NetworkConfig) (content : ModuleSection) : NetworkConfig :=
  { config with overrides := config.overrides.insert content.moduleName content }

def validate (config : NetworkConfig) : Except Fault Unit := do
  if Text.isBlank config.chainId then throw (.config .blankChainId)
  if config.validatorCount = 0 then throw (.config .noValidators)
  (Denom.validate config.denom).mapError .coin
  if config.initialBalance ≤ 0 then throw (.config (.balance config.initialBalance))

def chainIdKey : String := "chain_id"

def validatorsKey : String := "amount_of_validators"

def accountsKey : String := "pre_funded_accounts"

def balanceKey : String := "initial_balance"

def denomKey : String := "denom"

/-- The keys of a written configuration. Sections that override others are not written. -/
def keys : List String := [chainIdKey, validatorsKey, accountsKey, balanceKey, denomKey]

def readAccount : Toml → Option AccountAddress
  | .string text => (Address.parse .account text).toOption
  | _ => none

/-- Takes over one entry; entries under other keys are left aside. -/
def readEntry (config : NetworkConfig) (entry : String × Toml) : Option NetworkConfig :=
  let (key, value) := entry
  if key = chainIdKey then
    match value with
    | .string chainId => some { config with chainId }
    | _ => none
  else if key = validatorsKey then
    match value with
    | .integer count => if 0 ≤ count then some { config with validatorCount := count.toNat } else none
    | _ => none
  else if key = accountsKey then
    match value with
    | .array items => (items.mapM readAccount).map fun listed => { config with accounts := .listed listed }
    | _ => none
  else if key = balanceKey then
    match value with
    | .string text => (Integer.parse text).toOption.map fun initialBalance => { config with initialBalance }
    | _ => none
  else if key = denomKey then
    match value with
    | .string denom => some { config with denom }
    | _ => none
  else some config

def readToml (config : NetworkConfig) (text : String) : Option NetworkConfig := do
  let entries ← Toml.ofString? text
  entries.foldlM readEntry config

/-- A written configuration; what it leaves out is standard. -/
def ofToml (chainId text : String) : Except Fault NetworkConfig := do
  match (standard chainId).readToml text with
  | none => throw (.config .toml)
  | some config =>
    config.validate
    return config

def ofFile (chainId : String) : Option (Except ConfigFault String) → Except Fault NetworkConfig
  | none => .ok (standard chainId)
  | some (.error cause) => .error (.config cause)
  | some (.ok text) => ofToml chainId text

end NetworkConfig
end Devnet
