import Devnet.Coin.Coins
import Devnet.Fault.Basic
import Devnet.Genesis.Seen

namespace Devnet.Bank

def moduleName : String := "bank"

structure SendEnabled where
  denom : String
  enabled : Bool
  deriving DecidableEq, Repr

def SendEnabled.codec : Codec SendEnabled :=
  .record "SendEnabled" (.cons "denom" .string <| .cons "enabled" .bool .nil)
    (fun e => (e.denom, e.enabled, ())) fun (denom, enabled, ()) => ⟨denom, enabled⟩

structure Params where
  sendEnabled : List SendEnabled
  defaultSendEnabled : Bool
  deriving DecidableEq, Repr

namespace Params

def standard : Params := ⟨[], true⟩

def codec : Codec Params :=
  .record "Params"
    (.cons "send_enabled" (.list SendEnabled.codec) <| .cons "default_send_enabled" .bool .nil)
    (fun p => (p.sendEnabled, p.defaultSendEnabled, ()))
    fun (sendEnabled, defaultSendEnabled, ()) => ⟨sendEnabled, defaultSendEnabled⟩

end Params

structure Balance where
  /-- The account as it is written; a section can be read before its addresses are checked. -/
  address : String
  coins : Coins
  deriving DecidableEq, Repr

namespace Balance

def make (address : AccountAddress) (coins : Coins) : Balance := ⟨address.render, coins⟩

def codec : Codec Balance :=
  .record "Balance" (.cons "address" .string <| .cons "coins" Coins.codec .nil)
    (fun b => (b.address, b.coins, ())) fun (address, coins, ()) => ⟨address, coins⟩

end Balance

structure DenomUnit where
  denom : String
  exponent : UInt32
  aliases : List String
  deriving DecidableEq, Repr

def DenomUnit.codec : Codec DenomUnit :=
  .record "DenomUnit" (.cons "denom" .string <| .cons "exponent" .uint32 <| .cons "aliases" (.list .string) .nil)
    (fun u => (u.denom, u.exponent, u.aliases, ()))
    fun (denom, exponent, aliases, ()) => ⟨denom, exponent, aliases⟩

structure Metadata where
  description : String
  denomUnits : List DenomUnit
  base : String
  display : String
  name : String
  symbol : String
  deriving DecidableEq, Repr

def Metadata.codec : Codec Metadata :=
  .record "Metadata"
    (.cons "description" .string <| .cons "denom_units" (.list DenomUnit.codec) <| .cons "base" .string <|
      .cons "display" .string <| .cons "name" .string <| .cons "symbol" .string .nil)
    (fun m => (m.description, m.denomUnits, m.base, m.display, m.name, m.symbol, ()))
    fun (description, denomUnits, base, display, name, symbol, ()) =>
      ⟨description, denomUnits, base, display, name, symbol⟩

structure Section where
  params : Params
  balances : List Balance
  supply : Coins
  denomMetadata : List Metadata
  sendEnabled : List SendEnabled
  deriving DecidableEq, Repr

def totalOf (balances : List Balance) : Coins := Coins.total (balances.map Balance.coins)

namespace Section

def standard : Section := ⟨.standard, [], .empty, [], []⟩

def balancesTotal (s : Section) : Coins := totalOf s.balances

def balanceOf (s : Section) (address : AccountAddress) : Coins :=
  totalOf (s.balances.filter fun balance => balance.address == address.render)

def checkBalance (seen : List String) (balance : Balance) : Except Fault (List String) := do
  discard <| (Address.parse .account balance.address).mapError .address
  let seen ← Seen.add seen balance.address (.ofBank (.duplicateBalance balance.address))
  balance.coins.validate.mapError .coin
  return seen

def checkMetadata (seen : List String) (metadata : Metadata) : Except Fault (List String) := do
  (Denom.validate metadata.base).mapError .coin
  Seen.add seen metadata.base (.ofBank (.duplicateMetadata metadata.base))

/-- A supply that is given has to be what the balances add up to. -/
def checkSupply (s : Section) : Except Fault Unit :=
  if s.supply.isEmpty || s.supply = s.balancesTotal then .ok ()
  else .error (.ofBank (.wrongSupply s.supply.render s.balancesTotal.render))

def validate (s : Section) : Except Fault Unit := do
  (s.params.sendEnabled ++ s.sendEnabled).forM fun entry => (Denom.validate entry.denom).mapError .coin
  discard <| s.balances.foldlM checkBalance []
  discard <| s.denomMetadata.foldlM checkMetadata []
  s.checkSupply

def codec : Codec Section :=
  .record "GenesisState"
    (.cons "params" Params.codec <| .cons "balances" (.list Balance.codec) <| .cons "supply" Coins.codec <|
      .cons "denom_metadata" (.list Metadata.codec) <| .cons "send_enabled" (.list SendEnabled.codec) .nil)
    (fun s => (s.params, s.balances, s.supply, s.denomMetadata, s.sendEnabled, ()))
    fun (params, balances, supply, denomMetadata, sendEnabled, ()) =>
      ⟨params, balances, supply, denomMetadata, sendEnabled⟩

end Section
end Devnet.Bank
