import Devnet.Crypto.Ed25519
import Devnet.Text.Hex

/-! Ed25519 key pairs, and the private key document (PKCS #8, version 2) that carries one. -/
namespace Devnet

structure KeyPair where
  seed : Bytes
  publicKey : Bytes
  publicKey_eq : publicKey = Ed25519.publicKey seed

namespace KeyPair

def ofSeed (seed : Bytes) : KeyPair := ⟨seed, Ed25519.publicKey seed, rfl⟩

def sign (pair : KeyPair) (message : Bytes) : Bytes := Ed25519.sign pair.seed pair.publicKey message

/-- The length of an element in its shortest form, up to two bytes. -/
def readLength : Bytes → Option (Nat × Bytes)
  | a :: b :: c :: rest =>
    if a < 0x80 then some (a.toNat, b :: c :: rest)
    else if a = 0x81 then if 0x80 ≤ b then some (b.toNat, c :: rest) else none
    else if a = 0x82 then if b = 0 then none else some (b.toNat * 256 + c.toNat, rest)
    else none
  | [a, b] =>
    if a < 0x80 then some (a.toNat, [b])
    else if a = 0x81 && 0x80 ≤ b then some (b.toNat, [])
    else none
  | [a] => if a < 0x80 then some (a.toNat, []) else none
  | [] => none

def readElement (tag : UInt8) : Bytes → Option (Bytes × Bytes)
  | [] => none
  | first :: rest => do
    if first != tag then none
    let (length, rest) ← readLength rest
    if rest.length < length then none
    some (rest.take length, rest.drop length)

def readWhole (tag : UInt8) (bytes : Bytes) : Option Bytes := do
  let (content, rest) ← readElement tag bytes
  if rest.isEmpty then some content else none

def algorithm : Bytes := [0x06, 0x03, 0x2b, 0x65, 0x70]

def wholeBits : Bytes → Option Bytes
  | 0 :: bytes => some bytes
  | _ => none

/-- The public key in either of its two taggings. -/
def readPublicKey (bytes : Bytes) : Option Bytes :=
  if bytes.head? = some 0xa1 then
    ((readWhole 0xa1 bytes).bind (readWhole 0x03)).bind wholeBits
  else (readWhole 0x81 bytes).bind wholeBits

def readDocument (bytes : Bytes) : Option (Bytes × Bytes) := do
  let content ← readWhole 0x30 bytes
  let (version, rest) ← readElement 0x02 content
  if version != [1] then none
  let (identifier, rest) ← readElement 0x30 rest
  if identifier != algorithm then none
  let (secret, rest) ← readElement 0x04 rest
  let rest ← if rest.head? = some 0xa0 then (readElement 0xa0 rest).map (·.2) else some rest
  let publicKey ← readPublicKey rest
  let seed ← readWhole 0x04 secret
  some (seed, publicKey)

/-- A document is taken only with a seed of 32 bytes and the public key that belongs to it. -/
def ofDocument? (bytes : Bytes) : Option KeyPair :=
  match readDocument bytes with
  | some (seed, publicKey) =>
    if h : publicKey = Ed25519.publicKey seed then
      if seed.length = 32 then some ⟨seed, publicKey, h⟩ else none
    else none
  | none => none

/-- The seed is not shown. -/
def render (pair : KeyPair) : String := s!"[REDACTED] {Hex.encode pair.publicKey}"

instance : ToString KeyPair := ⟨render⟩

end KeyPair
end Devnet
