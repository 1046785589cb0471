import Devnet.Consensus.PublicKey

namespace Devnet

structure ValidatorUpdate where
  publicKey : PublicKey
  power : Int64
  deriving DecidableEq, Repr

namespace ValidatorUpdate

def codec : Codec ValidatorUpdate :=
  .record "ValidatorUpdate" (.cons "pub_key" PublicKey.codec <| .cons "power" .int64 .nil)
    (fun u => (u.publicKey, u.power, ())) fun (publicKey, power, ()) => ⟨publicKey, power⟩

/-- In the order of key bytes; equal keys stay as they are. -/
def sorted (updates : List ValidatorUpdate) : List ValidatorUpdate :=
  updates.mergeSort fun a b => !decide (b.publicKey.bytes < a.publicKey.bytes)

end ValidatorUpdate
end Devnet
