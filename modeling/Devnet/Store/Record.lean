import Devnet.Consensus.Update
import Devnet.Store.Varint

namespace Devnet.ValidatorUpdate

def schemeTag (scheme : KeyScheme) : Nat := KeyScheme.all.idxOf scheme

def toRecord (update : ValidatorUpdate) : Bytes :=
  Varint.encode (schemeTag update.publicKey.scheme) ++ Varint.encode update.publicKey.bytes.length ++
    update.publicKey.bytes ++ Varint.encode (Varint.zigzag update.power)

/-- Bytes after the record are not looked at. -/
def ofRecord? (bytes : Bytes) : Option ValidatorUpdate := do
  let (tag, rest) ← Varint.decode 4 bytes
  let scheme ← KeyScheme.all[tag]?
  let (length, rest) ← Varint.decode 8 rest
  let (key, rest) ← Varint.splitBytes length rest
  let (power, _) ← Varint.decode 8 rest
  some ⟨⟨scheme, key⟩, Varint.ofZigzag power⟩

end Devnet.ValidatorUpdate
