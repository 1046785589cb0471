import Devnet.Application.Basic
import Devnet.Consensus.Signer
import Devnet.Network.Config
import Devnet.Network.Founding

namespace Devnet

structure Network where
  config : NetworkConfig
  app : Application
  store : Store
  validators : ValidatorSet
  signers : Signers
  genesis : Genesis
  response : InitResponse

namespace Network

def initialHeight : Int64 := 1

def bondedTokens : Int := Integer.tokensOfPower 1 Integer.powerReduction

def validatorsAndSigners (pairs : List KeyPair) : Except Fault (ValidatorSet × Signers) :=
  match ValidatorSet.ofList? (validatorsOf pairs) with
  | some set => .ok (set, .ofPairs pairs)
  | none => .error .powerOverflow

/-- The account that delegates to the validators; there has to be one. -/
def checkConfig (config : NetworkConfig) : Except Fault Unit := do
  config.validate
  if config.accounts.size = 0 then throw (.config .noAccounts)

/-- The genesis of a network with some validators and some funded accounts, the first of which
delegates. -/
def genesisOf (config : NetworkConfig) (validators : ValidatorSet) (delegator : AccountAddress)
    (accounts : List AccountAddress) : Except Fault Genesis := do
  let balance ← (Coin.make config.denom config.initialBalance).mapError .coin
  let bonded ← (Coin.make config.denom (bondedTokens * validators.size)).mapError .coin
  let balances := Bank.withBonded (Bank.balancesOf accounts balance) bonded
  let founders ← (Staking.validatorsFrom validators.validators bondedTokens).mapError .key
  let delegations := Staking.delegationsFrom delegator validators.validators
  let genesis := Genesis.standard.withAccounts (accounts.map .ofAddress)
  let genesis := genesis.withValidators config.denom founders delegations
  let genesis ← genesis.withInflation config.overrides
  let genesis := genesis.withBalances balances (Bank.totalOf balances)
  genesis.withEvm config.overrides

def updatesOf (validators : ValidatorSet) : List ValidatorUpdate :=
  validators.validators.map fun v => ⟨v.publicKey, v.votingPower⟩

/-- Sets a network up from a key pair for each validator, and an address for each account that has to
be drawn. -/
def build (config : NetworkConfig) (home : String) (drawn : List AccountAddress)
    (pairs : List KeyPair) : Except Fault Network := do
  config.validate
  match config.accounts.settle drawn with
  | [] => throw (.config .noAccounts)
  | delegator :: others =>
    let (validators, signers) ← validatorsAndSigners pairs
    let genesis ← genesisOf config validators delegator (delegator :: others)
    let app := Application.fresh config.chainId home .forwarded
    let appState ← genesis.toAppStateBytes
    let request : InitRequest := ⟨config.chainId, initialHeight, updatesOf validators, appState⟩
    let (response, store) ← app.initChain .empty request
    return { config, app, store, validators, signers, genesis, response }

def document (network : Network) : Except Fault Json := do
  let appState ← network.genesis.toAppState
  let document : Json := .object
    [("chain_id", .string network.config.chainId),
     ("initial_height", .string s!"{initialHeight.toInt}"),
     ("app_hash", .string (Hex.encodeUpper network.response.appHash)),
     ("validators", (Codec.list ValidatorUpdate.codec).encode network.response.validators),
     ("app_state", appState)]
  return document.normal

end Network
end Devnet
