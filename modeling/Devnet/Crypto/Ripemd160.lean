import Devnet.Crypto.Block

/-! The RIPEMD-160 digest: two lines of five groups of sixteen steps, joined at the end. -/
namespace Devnet.Ripemd160

structure State where
  (a b c d e : UInt32)
  deriving DecidableEq, Repr

def initial : State := ⟨0x67452301, 0xefcdab89, 0x98badcfe, 0x10325476, 0xc3d2e1f0⟩

/-- What tells the steps of a line apart: the word read, the rotation, the function of its group and
the constant added. -/
structure Step where
  word : Nat
  shift : UInt32
  group : Nat
  constant : UInt32
  deriving DecidableEq, Repr

def mix (group : Nat) (x y z : UInt32) : UInt32 :=
  match group with
  | 0 => x ^^^ y ^^^ z
  | 1 => (x &&& y) ||| (~~~x &&& z)
  | 2 => (x ||| ~~~y) ^^^ z
  | 3 => (x &&& z) ||| (y &&& ~~~z)
  | _ => x ^^^ (y ||| ~~~z)

def rotate (n x : UInt32) : UInt32 := (x <<< n) ||| (x >>> (32 - n))

def leftWords : List Nat :=
  [0, 1, 2, 3, 4, 5, 6, 7, 8, 9, 10, 11, 12, 13, 14, 15,
   7, 4, 13, 1, 10, 6, 15, 3, 12, 0, 9, 5, 2, 14, 11, 8,
   3, 10, 14, 4, 9, 15, 8, 1, 2, 7, 0, 6, 13, 11, 5, 12,
   1, 9, 11, 10, 0, 8, 12, 4, 13, 3, 7, 15, 14, 5, 6, 2,
   4, 0, 5, 9, 7, 12, 2, 10, 14, 1, 3, 8, 11, 6, 15, 13]

def rightWords : List Nat :=
  [5, 14, 7, 0, 9, 2, 11, 4, 13, 6, 15, 8, 1, 10, 3, 12,
   6, 11, 3, 7, 0, 13, 5, 10, 14, 15, 8, 12, 4, 9, 1, 2,
   15, 5, 1, 3, 7, 14, 6, 9, 11, 8, 12, 2, 10, 0, 4, 13,
   8, 6, 4, 1, 3, 11, 15, 0, 5, 12, 2, 13, 9, 7, 10, 14,
   12, 15, 10, 4, 1, 5, 8, 7, 6, 2, 13, 14, 0, 3, 9, 11]

def leftShifts : List UInt32 :=
  [11, 14, 15, 12, 5, 8, 7, 9, 11, 13, 14, 15, 6, 7, 9, 8,
   7, 6, 8, 13, 11, 9, 7, 15, 7, 12, 15, 9, 11, 7, 13, 12,
   11, 13, 6, 7, 14, 9, 13, 15, 14, 8, 13, 6, 5, 12, 7, 5,
   11, 12, 14, 15, 14, 15, 9, 8, 9, 14, 5, 6, 8, 6, 5, 12,
   9, 15, 5, 11, 6, 8, 13, 12, 5, 12, 13, 14, 11, 8, 5, 6]

def rightShifts : List UInt32 :=
  [8, 9, 9, 11, 13, 15, 15, 5, 7, 7, 8, 11, 14, 14, 12, 6,
   9, 13, 15, 7, 12, 8, 9, 11, 7, 7, 12, 7, 6, 15, 13, 11,
   9, 7, 15, 11, 8, 6, 6, 14, 12, 13, 5, 14, 13, 13, 7, 5,
   15, 5, 8, 11, 14, 14, 6, 14, 6, 9, 12, 9, 12, 5, 15, 8,
   8, 5, 12, 9, 12, 5, 14, 6, 8, 13, 6, 5, 15, 13, 11, 11]

def leftConstants : List UInt32 := [0x00000000, 0x5a827999, 0x6ed9eba1, 0x8f1bbcdc, 0xa953fd4e]

def rightConstants : List UInt32 := [0x50a28be6, 0x5c4dd124, 0x6d703ef3, 0x7a6d76e9, 0x00000000]

/-- The right line takes the functions of the groups in reverse. -/
def steps (words : List Nat) (shifts constants : List UInt32) (reversed : Bool) : List Step :=
  (words.zip shifts).zipIdx.map fun ((word, shift), i) =>
    let group := i / 16
    ⟨word, shift, if reversed then 4 - group else group, constants.getD group 0⟩

def leftSteps : List Step := steps leftWords leftShifts leftConstants false

def rightSteps : List Step := steps rightWords rightShifts rightConstants true

def step (block : List UInt32) (s : State) (plan : Step) : State :=
  let turned := rotate plan.shift
    (s.a + mix plan.group s.b s.c s.d + block.getD plan.word 0 + plan.constant) + s.e
  ⟨s.e, turned, s.b, rotate 10 s.c, s.d⟩

def compress (s : State) (block : Bytes) : State :=
  let words := (Bytes.blocks 4 16 block).map fun bytes => (Bytes.toNatLittle bytes).toUInt32
  let l := leftSteps.foldl (step words) s
  let r := rightSteps.foldl (step words) s
  ⟨s.b + l.c + r.d, s.c + l.d + r.e, s.d + l.e + r.a, s.e + l.a + r.b, s.a + l.b + r.c⟩

def digest (message : Bytes) : Bytes :=
  let bytes := Bytes.padded 64 (Bytes.ofNatLittle 8 (8 * message.length)) message
  let last := (Bytes.blocks 64 (bytes.length / 64) bytes).foldl compress initial
  [last.a, last.b, last.c, last.d, last.e].flatMap fun word => Bytes.ofNatLittle 4 word.toNat

end Devnet.Ripemd160
