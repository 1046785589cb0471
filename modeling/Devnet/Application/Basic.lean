import Devnet.Application.Verdict
import Devnet.Store.Basic

/-! An application over a store. It takes one genesis, checks it, and remembers what it took. -/
namespace Devnet

inductive Reports
  | dropped
  | forwarded
  deriving DecidableEq, Repr

structure AppOptions where
  home : String
  invCheckPeriod : UInt32
  skipUpgradeHeights : List Int64
  loadLatest : Bool
  deriving DecidableEq, Repr

namespace AppOptions

def standardPeriod : UInt32 := 5

def standard (home : String) : AppOptions := ⟨home, standardPeriod, [], true⟩

end AppOptions

structure Application where
  chainId : String
  registry : Registry
  options : AppOptions
  reports : Reports
  deriving Repr

structure InitRequest where
  chainId : String
  initialHeight : Int64
  /-- The validators to expect; none means that any will do. -/
  validators : List ValidatorUpdate
  appState : Bytes
  deriving DecidableEq, Repr

structure InitResponse where
  validators : List ValidatorUpdate
  appHash : Bytes
  deriving DecidableEq, Repr

namespace Application

def lastChainId (chainIds : List String) : String := chainIds.getLast?.getD ""

def open? (store : Store) (reports : Reports) (options : AppOptions) (chainIds : List String) :
    Except StoreFault Application := do
  let app : Application := ⟨lastChainId chainIds, .standard, options, reports⟩
  if options.loadLatest then
    match ← store.chainId? with
    | some stored => if stored ≠ app.chainId then throw (.otherChain stored app.chainId)
    | none => pure ()
  return app

def fresh (chainId home : String) (reports : Reports) : Application :=
  ⟨chainId, .standard, .standard home, reports⟩

/-- The order of the expected validators does not matter. -/
def checkExpected (expected found : List ValidatorUpdate) : Except Fault Unit :=
  if expected.isEmpty || ValidatorUpdate.sorted expected = ValidatorUpdate.sorted found then .ok ()
  else .error (.ofChain (.validatorMismatch expected.length found.length))

def judge (app : Application) (request : InitRequest) :
    Except Fault (Genesis × List ValidatorUpdate) := do
  let genesis ← (Genesis.ofAppStateBytes request.appState).mapError .decode
  let sections ← genesis.sections
  sections.validate app.registry
  let updates ← sections.staking.updates
  checkExpected request.validators updates
  return (genesis, updates)

/-- Sets up the chain, once. A request that fails leaves the store as it is. -/
def initChain (app : Application) (store : Store) (request : InitRequest) :
    Except Fault (InitResponse × Store) := do
  if request.chainId ≠ app.chainId then throw (.ofChain (.wrongChain app.chainId request.chainId))
  if store.isInitialized then throw (.ofChain (.alreadyInitialized app.chainId))
  let (genesis, updates) ← app.judge request
  let appHash := Sha256.digest request.appState
  return (⟨updates, appHash⟩, store.record app.chainId request.initialHeight genesis updates appHash)

end Application
end Devnet
