namespace Devnet

structure Settings where
  chainId : String
  /-- The directory that applications call their home; nothing is written there. -/
  home : String
  deriving DecidableEq, Repr

namespace Settings

def standardChainId : String := "evmos_9000-1"

def homeName : String := ".evmosd"

def join (directory name : String) : String :=
  match directory.toList.getLast? with
  | none => name
  | some last => if last = '/' then directory ++ name else directory ++ "/" ++ name

/-- Reads the variables of an environment; without a home the working directory takes its place. -/
def ofEnvironment (get : String → Option String) (workingDirectory : String) : Settings where
  chainId := (get "TESTNET_CHAIN_ID").getD standardChainId
  home := (get "TESTNET_NODE_HOME").getD (join ((get "HOME").getD workingDirectory) homeName)

end Settings
end Devnet
