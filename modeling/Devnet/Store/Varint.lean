import Devnet.Text.Utf8

/-! Numbers of varying width. A small number is one byte; of a larger one the first byte tells the
width, and its bytes follow, the lowest first. A reader takes wider forms than it needs. -/
namespace Devnet.Varint

/-- Numbers below this are a single byte. -/
def smallLimit : Nat := 251

def littleEndian : (width : Nat) → Nat → Bytes
  | 0, _ => []
  | width + 1, n => (n % 256).toUInt8 :: littleEndian width (n / 256)

def ofLittleEndian : Bytes → Nat
  | [] => 0
  | b :: rest => b.toNat + 256 * ofLittleEndian rest

/-- For numbers of 64 bits. -/
def encode (n : Nat) : Bytes :=
  if n < smallLimit then [n.toUInt8]
  else if n < 65536 then 251 :: littleEndian 2 n
  else if n < 4294967296 then 252 :: littleEndian 4 n
  else 253 :: littleEndian 8 n

def width? (first : UInt8) : Option Nat :=
  if first = 251 then some 2
  else if first = 252 then some 4
  else if first = 253 then some 8
  else none

def splitBytes (count : Nat) (bytes : Bytes) : Option (Bytes × Bytes) :=
  if bytes.length < count then none else some (bytes.take count, bytes.drop count)

def decode (widest : Nat) : Bytes → Option (Nat × Bytes)
  | [] => none
  | first :: rest =>
    if first.toNat < smallLimit then some (first.toNat, rest)
    else do
      let width ← width? first
      if widest < width then none
      let (digits, rest) ← splitBytes width rest
      some (ofLittleEndian digits, rest)

/-- Signed numbers in the order 0, -1, 1, -2, 2. -/
def zigzag (n : Int64) : Nat :=
  if 0 ≤ n.toInt then 2 * n.toInt.toNat else 2 * (-n.toInt).toNat - 1

def ofZigzag (m : Nat) : Int64 :=
  if m % 2 = 0 then Int64.ofInt (m / 2 : Nat) else Int64.ofInt (-(m / 2 : Nat) - 1)

end Devnet.Varint
