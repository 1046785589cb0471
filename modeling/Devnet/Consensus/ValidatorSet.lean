import Devnet.Consensus.PublicKey

namespace Devnet

structure Validator where
  address : ConsensusAddress
  publicKey : PublicKey
  votingPower : Int64
  proposerPriority : Int64
  deriving DecidableEq, Repr

namespace Validator

def ofKey (key : PublicKey) (power : Int64) : Validator := ⟨key.address, key, power, 0⟩

/-- More power comes first; of equal powers the smaller address. -/
def precedes (a b : Validator) : Bool :=
  b.votingPower < a.votingPower ||
    (a.votingPower == b.votingPower && !decide (b.address.bytes < a.address.bytes))

def codec : Codec Validator :=
  .record "Validator"
    (.cons "address" ConsensusAddress.codec <| .cons "pub_key" PublicKey.codec <|
      .cons "voting_power" .int64 <| .cons "proposer_priority" .int64 .nil)
    (fun v => (v.address, v.publicKey, v.votingPower, v.proposerPriority, ()))
    fun (address, publicKey, votingPower, proposerPriority, ()) =>
      ⟨address, publicKey, votingPower, proposerPriority⟩

end Validator

structure ValidatorSet where
  validators : List Validator
  totalPower : Int64
  deriving DecidableEq, Repr

namespace ValidatorSet

/-- Adds numbers up one by one; none as soon as a sum leaves the 64-bit range. -/
def sumFrom? (sum : Int) : List Int → Option Int
  | [] => some sum
  | n :: rest => if Integer.fitsInt64 (sum + n) then sumFrom? (sum + n) rest else none

def ofList? (validators : List Validator) : Option ValidatorSet :=
  let sorted := validators.mergeSort Validator.precedes
  (sumFrom? 0 (sorted.map fun v => v.votingPower.toInt)).map fun total => ⟨sorted, Int64.ofInt total⟩

def size (set : ValidatorSet) : Nat := set.validators.length

def isEmpty (set : ValidatorSet) : Bool := set.validators.isEmpty

def find? (set : ValidatorSet) (address : String) : Option Validator :=
  set.validators.find? fun v => v.address.render == address

def codec : Codec ValidatorSet :=
  .record "ValidatorSet" (.cons "validators" (.list Validator.codec) <| .cons "total_voting_power" .int64 .nil)
    (fun set => (set.validators, set.totalPower, ())) fun (validators, total, ()) => ⟨validators, total⟩

end ValidatorSet
end Devnet
