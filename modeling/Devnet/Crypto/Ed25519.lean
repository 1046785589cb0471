import Devnet.Crypto.Sha512

/-! Ed25519 signatures on the twisted Edwards curve over the field of `2 ^ 255 - 19` elements. -/
namespace Devnet.Ed25519

def fieldSize : Nat := (1 <<< 255) - 19

def order : Nat := (1 <<< 252) + 27742317777372353535851937790883648493

def mul (a b : Nat) : Nat := a * b % fieldSize

def add (a b : Nat) : Nat := (a + b) % fieldSize

def sub (a b : Nat) : Nat := (a + (fieldSize - b)) % fieldSize

def bits : (width : Nat) → Nat → List Bool
  | 0, _ => []
  | width + 1, n => n.testBit width :: bits width n

def power (base exponent : Nat) : Nat :=
  (bits 255 exponent).foldl (fun r bit => if bit then mul (mul r r) base else mul r r) 1

def inverse (a : Nat) : Nat := power a (fieldSize - 2)

/-- The curve is `y² - x² = 1 + curveConstant x² y²`. -/
def curveConstant : Nat :=
  37095705934669439343138083508754565189542113879843219016388785533085940283555

def rootOfMinusOne : Nat :=
  19681161376707505956807079304988542015446066515923890162744021073123829784752

/-- A point `(x / z, y / z)` with `x y = z t`. -/
structure Point where
  (x y z t : Nat)
  deriving DecidableEq, Repr

def Point.neutral : Point := ⟨0, 1, 1, 0⟩

def basePoint : Point :=
  let x := 15112221349535400772501151409588531511454012693041857206046113283949847762202
  let y := 46316835694926478169428394003475163141307993866256225615783033603165251855960
  ⟨x, y, 1, mul x y⟩

def Point.add (p q : Point) : Point :=
  let a := mul (sub p.y p.x) (sub q.y q.x)
  let b := mul (Ed25519.add p.y p.x) (Ed25519.add q.y q.x)
  let c := mul (mul p.t (2 * curveConstant)) q.t
  let d := mul (mul p.z 2) q.z
  let e := sub b a
  let f := sub d c
  let g := Ed25519.add d c
  let h := Ed25519.add b a
  ⟨mul e f, mul g h, mul f g, mul e h⟩

def Point.neg (p : Point) : Point := ⟨sub 0 p.x, p.y, p.z, sub 0 p.t⟩

def Point.scale (n : Nat) (p : Point) : Point :=
  (bits 256 n).foldl (fun r bit => if bit then (r.add r).add p else r.add r) .neutral

/-- The second coordinate in 32 bytes; the top bit tells whether the first one is odd. -/
def Point.encode (p : Point) : Bytes :=
  let inv := inverse p.z
  let x := mul p.x inv
  let y := mul p.y inv
  Bytes.ofNatLittle 32 (y + (x % 2) <<< 255)

def squareRoot? (u v : Nat) : Option Nat :=
  let v3 := mul (mul v v) v
  let v7 := mul (mul v3 v3) v
  let x := mul (mul u v3) (power (mul u v7) ((fieldSize - 5) / 8))
  let check := mul v (mul x x)
  if check = u then some x
  else if check = sub 0 u then some (mul x rootOfMinusOne)
  else none

/-- A second coordinate at or above the field size is taken modulo it. -/
def Point.decode? (bytes : Bytes) : Option Point :=
  let n := Bytes.toNatLittle bytes
  let y := n % (1 <<< 255) % fieldSize
  let odd := (n >>> 255) % 2
  let y2 := mul y y
  (squareRoot? (sub y2 1) (Ed25519.add (mul curveConstant y2) 1)).map fun root =>
    let x := if root % 2 = odd then root else sub 0 root
    ⟨x, y, 1, mul x y⟩

/-- The secret scalar of a seed: the first half of its digest with three low bits cleared, the top bit
cleared and the next one set. -/
def secretScalar (seed : Bytes) : Nat :=
  let n := Bytes.toNatLittle ((Sha512.digest seed).take 32)
  n % (1 <<< 254) / 8 * 8 + (1 <<< 254)

def publicKey (seed : Bytes) : Bytes := (basePoint.scale (secretScalar seed)).encode

def challenge (r key message : Bytes) : Nat :=
  Bytes.toNatLittle (Sha512.digest (r ++ key ++ message)) % order

def sign (seed key message : Bytes) : Bytes :=
  let nonce := Bytes.toNatLittle (Sha512.digest ((Sha512.digest seed).drop 32 ++ message)) % order
  let r := (basePoint.scale nonce).encode
  r ++ Bytes.ofNatLittle 32 ((nonce + challenge r key message * secretScalar seed) % order)

/-- The scalar of a signature has to be below the group order, and its point is compared as bytes. -/
def verify (key signature message : Bytes) : Bool :=
  if key.length != 32 || signature.length != 64 then false
  else
    let r := signature.take 32
    let s := Bytes.toNatLittle (signature.drop 32)
    match Point.decode? key with
    | none => false
    | some a =>
      s < order && ((basePoint.scale s).add (a.neg.scale (challenge r key message))).encode == r

end Devnet.Ed25519
