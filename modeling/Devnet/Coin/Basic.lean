import Devnet.Json.Record

namespace Devnet

inductive CoinFault
  | invalidDenom (denom : String)
  | negativeAmount (amount : Int)
  | duplicateDenom (denom : String)
  | zeroAmount (denom : String)
  | notSorted (coins : String)
  deriving DecidableEq, Repr

def CoinFault.message : CoinFault → String
  | .invalidDenom denom => s!"invalid denom: {denom}"
  | .negativeAmount amount => s!"negative coin amount: {amount}"
  | .duplicateDenom denom => s!"duplicate denomination {denom}"
  | .zeroAmount denom => s!"zero amount for {denom}"
  | .notSorted coins => s!"coins are not sorted or contain duplicates: {coins}"

namespace Denom

def isAllowed (c : Char) : Bool :=
  c.isAlphanum || c == '/' || c == ':' || c == '.' || c == '_' || c == '-'

/-- A letter, then letters, digits and a few marks: 3 to 128 characters of ASCII. -/
def isValid (denom : String) : Bool :=
  match denom.toList with
  | [] => false
  | first :: rest => first.isAlpha && rest.all isAllowed && 2 ≤ rest.length && rest.length ≤ 127

def validate (denom : String) : Except CoinFault Unit :=
  if isValid denom then .ok () else .error (.invalidDenom denom)

end Denom

structure Coin where
  denom : String
  amount : Int
  deriving DecidableEq, Repr

namespace Coin

def validate (coin : Coin) : Except CoinFault Unit := do
  Denom.validate coin.denom
  if coin.amount < 0 then throw (.negativeAmount coin.amount)

def make (denom : String) (amount : Int) : Except CoinFault Coin := do
  let coin : Coin := ⟨denom, amount⟩
  coin.validate
  return coin

def isZero (coin : Coin) : Bool := coin.amount == 0

def render (coin : Coin) : String := s!"{coin.amount}{coin.denom}"

def codec : Codec Coin :=
  .record "Coin" (.cons "denom" .string <| .cons "amount" .integer .nil)
    (fun coin => (coin.denom, coin.amount, ())) fun (denom, amount, ()) => ⟨denom, amount⟩

end Coin
end Devnet
