import Devnet.Coin.Basic

/-! Sets of coins. A valid set is sorted by denomination, names each one once, and holds positive
amounts only; documents may carry sets that are not valid. -/
namespace Devnet

structure Coins where
  entries : List Coin
  deriving DecidableEq, Repr

namespace Coins

def empty : Coins := ⟨[]⟩

def single (coin : Coin) : Coins := if coin.isZero then empty else ⟨[coin]⟩

def firstRepeat? : List Coin → Option String
  | a :: b :: rest => if a.denom = b.denom then some a.denom else firstRepeat? (b :: rest)
  | _ => none

/-- Drops zero amounts and sorts the others, which have to be valid and of different denominations. -/
def ofList (coins : List Coin) : Except CoinFault Coins := do
  let sorted := (coins.filter fun coin => !coin.isZero).mergeSort fun a b => !decide (b.denom < a.denom)
  sorted.forM Coin.validate
  match firstRepeat? sorted with
  | some denom => throw (.duplicateDenom denom)
  | none => return ⟨sorted⟩

def keep (coin : Coin) (coins : List Coin) : List Coin := if coin.isZero then coins else coin :: coins

/-- Merges a coin into a list; `rest` merges the coins after it into what is then left. -/
def mergeCoin (a : Coin) (rest : List Coin → List Coin) : List Coin → List Coin
  | [] => keep a (rest [])
  | b :: bs =>
    if a.denom = b.denom then keep ⟨a.denom, a.amount + b.amount⟩ (rest bs)
    else if a.denom < b.denom then keep a (rest (b :: bs))
    else keep b (mergeCoin a rest bs)

/-- Goes through both lists, the smaller denomination first; coins that meet under one are added up. -/
def merge : List Coin → List Coin → List Coin
  | [], coins => coins.filter fun coin => !coin.isZero
  | a :: as, coins => mergeCoin a (merge as) coins

def add (a b : Coins) : Coins := ⟨merge a.entries b.entries⟩

def total (sets : List Coins) : Coins := sets.foldl add empty

def amountOf (coins : Coins) (denom : String) : Int :=
  match coins.entries.find? fun coin => coin.denom == denom with
  | some coin => coin.amount
  | none => 0

def render (coins : Coins) : String := ",".intercalate (coins.entries.map Coin.render)

def isAscending : List Coin → Bool
  | a :: b :: rest => decide (a.denom < b.denom) && isAscending (b :: rest)
  | _ => true

def validateEntry (coin : Coin) : Except CoinFault Unit := do
  coin.validate
  if coin.isZero then throw (.zeroAmount coin.denom)

def validate (coins : Coins) : Except CoinFault Unit := do
  coins.entries.forM validateEntry
  if !isAscending coins.entries then throw (.notSorted coins.render)

def isEmpty (coins : Coins) : Bool := coins.entries.isEmpty

def size (coins : Coins) : Nat := coins.entries.length

def codec : Codec Coins where
  encode coins := (Codec.list Coin.codec).encode coins.entries
  decode room raw := ((Codec.list Coin.codec).decode room raw).map Coins.mk

end Coins
end Devnet
