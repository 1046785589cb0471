import Devnet.Text.Utf8

namespace Devnet.Bytes

def blocks (size : Nat) : (count : Nat) → Bytes → List Bytes
  | 0, _ => []
  | count + 1, bytes => bytes.take size :: blocks size count (bytes.drop size)

def toNatBig (bytes : Bytes) : Nat := bytes.foldl (fun n b => n * 256 + b.toNat) 0

def toNatLittle (bytes : Bytes) : Nat := bytes.foldr (fun b n => b.toNat + 256 * n) 0

def ofNatLittle : (width : Nat) → Nat → Bytes
  | 0, _ => []
  | width + 1, n => (n % 256).toUInt8 :: ofNatLittle width (n / 256)

def ofNatBig (width n : Nat) : Bytes := (ofNatLittle width n).reverse

/-- A message followed by a one bit, zeros, and its length in bits; the whole fills blocks. -/
def padded (block : Nat) (lengthBytes : Bytes) (message : Bytes) : Bytes :=
  let rest := (message.length + 1 + lengthBytes.length) % block
  message ++ 0x80 :: List.replicate ((block - rest) % block) 0 ++ lengthBytes

end Devnet.Bytes
