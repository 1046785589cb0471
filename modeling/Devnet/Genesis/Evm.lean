import Devnet.Coin.Basic
import Devnet.Fault.Basic
import Devnet.Genesis.Seen

namespace Devnet.Evm

def moduleName : String := "evm"

/-- Leaves one mark in front of the digits out. -/
def hexDigits (text : String) : String :=
  match text.toList with
  | '0' :: 'x' :: digits => String.ofList digits
  | _ => text

def decodeHex (text : String) : Except Fault Bytes :=
  (Hex.decode (hexDigits text)).mapError fun cause => .address (.notHex text cause)

def encodeHex (bytes : Bytes) : String := "0x" ++ Hex.encode bytes

def addressSize : Nat := 20

def hashSize : Nat := 32

structure Slot where
  key : String
  value : String
  deriving DecidableEq, Repr

namespace Slot

def ofBytes (key value : Bytes) : Slot := ⟨encodeHex key, encodeHex value⟩

def codec : Codec Slot :=
  .record "State" (.cons "key" .string <| .cons "value" .string .nil)
    (fun s => (s.key, s.value, ())) fun (key, value, ()) => ⟨key, value⟩

end Slot

structure Account where
  address : String
  code : String
  storage : List Slot
  deriving DecidableEq, Repr

namespace Account

def ofBytes (address code : Bytes) (storage : List Slot) : Account :=
  ⟨encodeHex address, encodeHex code, storage⟩

/-- Keys that differ in the case of their digits only are the same. -/
def checkSlot (account : String) (seen : List String) (slot : Slot) : Except Fault (List String) := do
  let key ← decodeHex slot.key
  if key.length ≠ hashSize then throw (.ofEvm (.storageKey slot.key account))
  discard <| decodeHex slot.value
  Seen.add seen slot.key.toLower (.ofEvm (.duplicateStorageKey slot.key account))

def validate (account : Account) : Except Fault Unit := do
  let address ← decodeHex account.address
  if address.length ≠ addressSize then throw (.address (.wrongHexLength account.address))
  discard <| decodeHex account.code
  discard <| account.storage.foldlM (checkSlot account.address) []

def codec : Codec Account :=
  .record "GenesisAccount"
    (.cons "address" .string <| .cons "code" .string <| .cons "storage" (.list Slot.codec) .nil)
    (fun a => (a.address, a.code, a.storage, ())) fun (address, code, storage, ()) => ⟨address, code, storage⟩

end Account

/-- The heights at which forks take effect; a fork without a height is not scheduled. -/
structure ChainConfig where
  homestead : Option Int
  daoFork : Option Int
  daoForkSupport : Bool
  eip150 : Option Int
  eip150Hash : String
  eip155 : Option Int
  eip158 : Option Int
  byzantium : Option Int
  constantinople : Option Int
  petersburg : Option Int
  istanbul : Option Int
  muirGlacier : Option Int
  berlin : Option Int
  london : Option Int
  arrowGlacier : Option Int
  grayGlacier : Option Int
  mergeNetsplit : Option Int
  shanghai : Option Int
  cancun : Option Int
  deriving DecidableEq, Repr

namespace ChainConfig

def standard : ChainConfig where
  homestead := some 0
  daoFork := some 0
  daoForkSupport := true
  eip150 := some 0
  eip150Hash := encodeHex (List.replicate hashSize 0)
  eip155 := some 0
  eip158 := some 0
  byzantium := some 0
  constantinople := some 0
  petersburg := some 0
  istanbul := some 0
  muirGlacier := some 0
  berlin := some 0
  london := some 0
  arrowGlacier := some 0
  grayGlacier := some 0
  mergeNetsplit := some 0
  shanghai := none
  cancun := none

/-- The forks that have to come in this order. -/
def forks (c : ChainConfig) : List (String × Option Int) :=
  [("homestead", c.homestead), ("eip150", c.eip150), ("eip155", c.eip155), ("eip158", c.eip158),
   ("byzantium", c.byzantium), ("constantinople", c.constantinople), ("petersburg", c.petersburg),
   ("istanbul", c.istanbul), ("muir glacier", c.muirGlacier), ("berlin", c.berlin), ("london", c.london),
   ("arrow glacier", c.arrowGlacier), ("gray glacier", c.grayGlacier),
   ("merge netsplit", c.mergeNetsplit), ("shanghai", c.shanghai), ("cancun", c.cancun)]

def scheduled (c : ChainConfig) : List (String × Int) :=
  c.forks.filterMap fun (fork, height) => height.map fun height => (fork, height)

/-- Each height has to reach the one before it. -/
def checkForks : Option (String × Int) → List (String × Int) → Except EvmViolation Unit
  | _, [] => .ok ()
  | none, (fork, height) :: rest =>
    if height < 0 then .error (.negativeFork fork height) else checkForks (some (fork, height)) rest
  | some (earlier, earlierHeight), (fork, height) :: rest =>
    if height < 0 then .error (.negativeFork fork height)
    else if height < earlierHeight then .error (.forkOrder earlier earlierHeight fork height)
    else checkForks (some (fork, height)) rest

def validate (c : ChainConfig) : Except Fault Unit := do
  (checkForks none c.scheduled).mapError .ofEvm
  let hash ← decodeHex c.eip150Hash
  if hash.length ≠ hashSize then throw (.ofEvm (.forkHash c.eip150Hash))

def height : Codec (Option Int) := .option .integer

def codec : Codec ChainConfig :=
  .record "ChainConfig"
    (.cons "homestead_block" height <| .cons "dao_fork_block" height <| .cons "dao_fork_support" .bool <|
      .cons "eip150_block" height <| .cons "eip150_hash" .string <| .cons "eip155_block" height <|
      .cons "eip158_block" height <| .cons "byzantium_block" height <| .cons "constantinople_block" height <|
      .cons "petersburg_block" height <| .cons "istanbul_block" height <| .cons "muir_glacier_block" height <|
      .cons "berlin_block" height <| .cons "london_block" height <| .cons "arrow_glacier_block" height <|
      .cons "gray_glacier_block" height <| .cons "merge_netsplit_block" height <|
      .cons "shanghai_block" height <| .cons "cancun_block" height .nil)
    (fun c => (c.homestead, c.daoFork, c.daoForkSupport, c.eip150, c.eip150Hash, c.eip155, c.eip158,
      c.byzantium, c.constantinople, c.petersburg, c.istanbul, c.muirGlacier, c.berlin, c.london,
      c.arrowGlacier, c.grayGlacier, c.mergeNetsplit, c.shanghai, c.cancun, ()))
    fun (homestead, daoFork, daoForkSupport, eip150, eip150Hash, eip155, eip158, byzantium, constantinople,
        petersburg, istanbul, muirGlacier, berlin, london, arrowGlacier, grayGlacier, mergeNetsplit,
        shanghai, cancun, ()) =>
      ⟨homestead, daoFork, daoForkSupport, eip150, eip150Hash, eip155, eip158, byzantium, constantinople,
        petersburg, istanbul, muirGlacier, berlin, london, arrowGlacier, grayGlacier, mergeNetsplit,
        shanghai, cancun⟩

end ChainConfig

structure Params where
  evmDenom : String
  extraEips : List Int64
  chainConfig : ChainConfig
  allowUnprotectedTxs : Bool
  activePrecompiles : List String
  evmChannels : List String
  deriving DecidableEq, Repr

namespace Params

def standard : Params := ⟨"aevmos", [], .standard, false, [], []⟩

def checkEip (seen : List Int64) (eip : Int64) : Except Fault (List Int64) :=
  Seen.add seen eip (.ofEvm (.duplicateEip eip))

def checkPrecompile (seen : List Bytes) (precompile : String) : Except Fault (List Bytes) := do
  let address ← decodeHex precompile
  if address.length ≠ addressSize then throw (.ofEvm (.precompile precompile))
  Seen.add seen address (.ofEvm (.precompile precompile))

def validate (params : Params) : Except Fault Unit := do
  (Denom.validate params.evmDenom).mapError .coin
  discard <| params.extraEips.foldlM checkEip []
  discard <| params.activePrecompiles.foldlM checkPrecompile []
  params.chainConfig.validate

def codec : Codec Params :=
  .record "Params"
    (.cons "evm_denom" .string <| .cons "extra_eips" (.list .int64) <|
      .cons "chain_config" ChainConfig.codec <| .cons "allow_unprotected_txs" .bool <|
      .cons "active_precompiles" (.list .string) <| .cons "evm_channels" (.list .string) .nil)
    (fun p => (p.evmDenom, p.extraEips, p.chainConfig, p.allowUnprotectedTxs, p.activePrecompiles,
      p.evmChannels, ()))
    fun (evmDenom, extraEips, chainConfig, allowUnprotectedTxs, activePrecompiles, evmChannels, ()) =>
      ⟨evmDenom, extraEips, chainConfig, allowUnprotectedTxs, activePrecompiles, evmChannels⟩

end Params

structure Section where
  accounts : List Account
  params : Params
  deriving DecidableEq, Repr

namespace Section

def standard : Section := ⟨[], .standard⟩

def checkAccount (seen : List String) (account : Account) : Except Fault (List String) := do
  account.validate
  Seen.add seen account.address.toLower (.ofEvm (.duplicateAccount account.address))

def validate (s : Section) : Except Fault Unit := do
  discard <| s.accounts.foldlM checkAccount []
  s.params.validate

def codec : Codec Section :=
  .record "GenesisState" (.cons "accounts" (.list Account.codec) <| .cons "params" Params.codec .nil)
    (fun s => (s.accounts, s.params, ())) fun (accounts, params, ()) => ⟨accounts, params⟩

end Section
end Devnet.Evm
