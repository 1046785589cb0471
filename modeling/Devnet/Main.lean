import Devnet.CommandLine.Parse
import Devnet.Network.Basic
import Devnet.Network.Settings

/-! The command line program. It draws keys and addresses, reads files and the environment, and prints. -/
namespace Devnet.Program

def seedSize : Nat := 32

def addressSize : Nat := 20

def drawBytes (count : Nat) : IO Bytes := do
  let bytes ← IO.getRandomBytes count.toUSize
  return bytes.toList

def drawMany {α : Type} (draw : IO α) (count : Nat) : IO (List α) := (List.replicate count draw).mapM id

def drawPairs (count : Nat) : IO (List KeyPair) :=
  drawMany (do return .ofSeed (← drawBytes seedSize)) count

def drawAccounts (count : Nat) : IO (List AccountAddress) :=
  drawMany (do return ⟨← drawBytes addressSize⟩) count

def reasonOf : IO.Error → String
  | .noFileOrDirectory _ code details | .inappropriateType _ code details
  | .permissionDenied _ code details | .invalidArgument _ code details =>
    s!"{details} (os error {code.toNat})"
  | other => other.toString

def readConfig (path : String) : IO (Except ConfigFault String) := do
  try
    let bytes ← IO.FS.readBinFile path
    match Utf8.text bytes.toList with
    | .ok text => return .ok text
    | .error _ => return .error (.unreadable path "stream did not contain valid UTF-8")
  catch failure => return .error (.unreadable path (reasonOf failure))

def settings : IO Settings := do
  let chainId ← IO.getEnv "TESTNET_CHAIN_ID"
  let nodeHome ← IO.getEnv "TESTNET_NODE_HOME"
  let home ← IO.getEnv "HOME"
  let workingDirectory ← IO.currentDir
  return .ofEnvironment
    (fun name =>
      if name = "TESTNET_CHAIN_ID" then chainId
      else if name = "TESTNET_NODE_HOME" then nodeHome
      else if name = "HOME" then home
      else none)
    workingDirectory.toString

def finish : Except Fault String → IO UInt32
  | .ok text => do
    IO.println text
    return 0
  | .error fault => do
    IO.eprintln s!"Error: {fault.message}"
    return 1

def runGenesis (options : GenesisOptions) : IO UInt32 := do
  let settings ← settings
  let file ← options.config.mapM readConfig
  match (NetworkConfig.ofFile settings.chainId file).map options.applyTo with
  | .error fault => finish (.error fault)
  | .ok config =>
    match Network.checkConfig config with
    | .error fault => finish (.error fault)
    | .ok () =>
      let accounts ← drawAccounts config.accounts.drawCount
      let pairs ← drawPairs config.validatorCount
      finish <| do
        let network ← Network.build config settings.home accounts pairs
        let document ← network.document
        return document.pretty

def runValidators (count : Nat) : IO UInt32 := do
  let pairs ← drawPairs count
  finish ((Network.validatorsAndSigners pairs).map fun (set, _) => (ValidatorSet.codec.encode set).pretty)

end Devnet.Program

open Devnet in
def main (arguments : List String) : IO UInt32 := do
  match Command.ofArguments arguments with
  | .ok (.genesis options) => Program.runGenesis options
  | .ok (.validators count) => Program.runValidators count
  | .error fault =>
    if fault.exitCode = 0 then IO.println fault.message else IO.eprintln fault.message
    return fault.exitCode
