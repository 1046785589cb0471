import Devnet.Consensus.ValidatorSet
import Devnet.Crypto.KeyPair

namespace Devnet

abbrev Signers := Table String KeyPair

def KeyPair.consensusKey (pair : KeyPair) : PublicKey := ⟨.ed25519, pair.publicKey⟩

namespace Signers

def ofPairs (pairs : List KeyPair) : Signers :=
  Table.ofEntries (pairs.map fun pair => (pair.consensusKey.address.render, pair))

def find? (signers : Signers) (address : String) : Option KeyPair := signers.get? address

end Signers

def validatorsOf (pairs : List KeyPair) : List Validator :=
  pairs.map fun pair => .ofKey pair.consensusKey 1

end Devnet
