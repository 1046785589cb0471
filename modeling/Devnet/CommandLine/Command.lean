import Devnet.Network.Config

namespace Devnet

structure GenesisOptions where
  config : Option String
  validators : Option Nat
  accounts : Option Nat
  chainId : Option String
  deriving DecidableEq, Repr

inductive Command
  | genesis (options : GenesisOptions)
  | validators (count : Nat)
  deriving DecidableEq, Repr

/-- Options on the command line go before what the configuration says. -/
def GenesisOptions.applyTo (options : GenesisOptions) (config : NetworkConfig) : NetworkConfig where
  chainId := options.chainId.getD config.chainId
  validatorCount := options.validators.getD config.validatorCount
  accounts := (options.accounts.map .drawn).getD config.accounts
  initialBalance := config.initialBalance
  denom := config.denom
  overrides := config.overrides

inductive UsageFault
  | helpWanted
  | noCommand
  | unknownCommand (name : String)
  | unknownArgument (argument : String)
  | missingValue (option : String)
  | invalidValue (option value : String)
  | valueNotWanted (option : String)
  | givenTwice (option : String)
  deriving DecidableEq, Repr

namespace UsageFault

def help : String := String.intercalate "\n"
  ["Sets up networks for tests and prints what they start with.",
   "",
   "Commands:",
   "  genesis     Build and initialise a test network, then print its genesis document",
   "    --config <FILE>       TOML file describing the network",
   "    --validators <COUNT>  Number of genesis validators",
   "    --accounts <COUNT>    Number of random pre-funded accounts",
   "    --chain-id <ID>       Chain identifier, e.g. evmos_9000-1",
   "  validators  Generate and print a validator set",
   "    --count <COUNT>       Number of validators (1 unless given)",
   "  help        Print this help"]

def message : UsageFault → String
  | .helpWanted => help
  | .noCommand => help
  | .unknownCommand name => s!"unrecognized subcommand {name}"
  | .unknownArgument argument => s!"unexpected argument {argument}"
  | .missingValue option => s!"a value is required for {option}"
  | .invalidValue option value => s!"invalid value {value} for {option}"
  | .valueNotWanted option => s!"{option} takes no value"
  | .givenTwice option => s!"{option} cannot be used more than once"

def exitCode : UsageFault → UInt32
  | .helpWanted => 0
  | _ => 2

end UsageFault
end Devnet
