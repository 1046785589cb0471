import Devnet.Consensus.ValidatorSet
import Devnet.Genesis.Section

namespace Devnet

def Validator.operator (v : Validator) : OperatorAddress := ⟨v.address.bytes⟩

/-- The bonded counterpart of a consensus validator, with one delegated share. -/
def Staking.Validator.ofConsensus (v : Devnet.Validator) (tokens : Int) :
    Except KeyFault Staking.Validator := do
  let key ← AppKey.ofPublicKey v.publicKey
  return {
    operatorAddress := v.operator.render
    consensusKey := key.pack
    jailed := false
    status := .bonded
    tokens
    delegatorShares := .one
    description := .blank
    unbondingHeight := 0
    unbondingTime := Staking.noTime
    commission := .free
    minSelfDelegation := 0 }

def Staking.validatorsFrom (validators : List Devnet.Validator) (tokens : Int) :
    Except KeyFault (List Staking.Validator) :=
  validators.mapM fun v => Staking.Validator.ofConsensus v tokens

def Staking.delegationsFrom (delegator : AccountAddress) (validators : List Devnet.Validator) :
    List Staking.Delegation :=
  validators.map fun v => ⟨delegator.render, v.operator.render, .one⟩

def Bank.balancesOf (accounts : List AccountAddress) (coin : Coin) : List Bank.Balance :=
  accounts.map fun account => .make account (.single coin)

def Bank.withBonded (balances : List Bank.Balance) (coin : Coin) : List Bank.Balance :=
  balances ++ [.make Staking.bondedPool (.single coin)]

end Devnet
