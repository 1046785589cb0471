import Devnet.Crypto.Block

namespace Devnet.Sha256

/-- Fractional parts of the cube roots of the first 64 primes. -/
def roundConstants : List UInt32 :=
  [0x428a2f98, 0x71374491, 0xb5c0fbcf, 0xe9b5dba5, 0x3956c25b, 0x59f111f1, 0x923f82a4, 0xab1c5ed5,
   0xd807aa98, 0x12835b01, 0x243185be, 0x550c7dc3, 0x72be5d74, 0x80deb1fe, 0x9bdc06a7, 0xc19bf174,
   0xe49b69c1, 0xefbe4786, 0x0fc19dc6, 0x240ca1cc, 0x2de92c6f, 0x4a7484aa, 0x5cb0a9dc, 0x76f988da,
   0x983e5152, 0xa831c66d, 0xb00327c8, 0xbf597fc7, 0xc6e00bf3, 0xd5a79147, 0x06ca6351, 0x14292967,
   0x27b70a85, 0x2e1b2138, 0x4d2c6dfc, 0x53380d13, 0x650a7354, 0x766a0abb, 0x81c2c92e, 0x92722c85,
   0xa2bfe8a1, 0xa81a664b, 0xc24b8b70, 0xc76c51a3, 0xd192e819, 0xd6990624, 0xf40e3585, 0x106aa070,
   0x19a4c116, 0x1e376c08, 0x2748774c, 0x34b0bcb5, 0x391c0cb3, 0x4ed8aa4a, 0x5b9cca4f, 0x682e6ff3,
   0x748f82ee, 0x78a5636f, 0x84c87814, 0x8cc70208, 0x90befffa, 0xa4506ceb, 0xbef9a3f7, 0xc67178f2]

structure State where
  (a b c d e f g h : UInt32)
  deriving DecidableEq, Repr

def initial : State :=
  ⟨0x6a09e667, 0xbb67ae85, 0x3c6ef372, 0xa54ff53a,
   0x510e527f, 0x9b05688c, 0x1f83d9ab, 0x5be0cd19⟩

def rotate (n : UInt32) (x : UInt32) : UInt32 := (x >>> n) ||| (x <<< (32 - n))

def bigSigma0 (x : UInt32) : UInt32 := rotate 2 x ^^^ rotate 13 x ^^^ rotate 22 x

def bigSigma1 (x : UInt32) : UInt32 := rotate 6 x ^^^ rotate 11 x ^^^ rotate 25 x

def smallSigma0 (x : UInt32) : UInt32 := rotate 7 x ^^^ rotate 18 x ^^^ (x >>> 3)

def smallSigma1 (x : UInt32) : UInt32 := rotate 17 x ^^^ rotate 19 x ^^^ (x >>> 10)

def schedule : (more : Nat) → List UInt32 → List UInt32
  | 0, window => window
  | more + 1, window =>
    let next := smallSigma1 (window.getD 14 0) + window.getD 9 0 +
      smallSigma0 (window.getD 1 0) + window.getD 0 0
    window.headD 0 :: schedule more (window.drop 1 ++ [next])

def round (s : State) (word constant : UInt32) : State :=
  let t1 := s.h + bigSigma1 s.e + ((s.e &&& s.f) ^^^ (~~~s.e &&& s.g)) + constant + word
  let t2 := bigSigma0 s.a + ((s.a &&& s.b) ^^^ (s.a &&& s.c) ^^^ (s.b &&& s.c))
  ⟨t1 + t2, s.a, s.b, s.c, s.d + t1, s.e, s.f, s.g⟩

def State.add (s t : State) : State :=
  ⟨s.a + t.a, s.b + t.b, s.c + t.c, s.d + t.d, s.e + t.e, s.f + t.f, s.g + t.g, s.h + t.h⟩

def words (block : Bytes) : List UInt32 :=
  (Bytes.blocks 4 16 block).map fun bytes => (Bytes.toNatBig bytes).toUInt32

def compress (s : State) (block : Bytes) : State :=
  let rounds := (schedule 48 (words block)).zip roundConstants
  s.add (rounds.foldl (fun t wk => round t wk.1 wk.2) s)

def State.toList (s : State) : List UInt32 := [s.a, s.b, s.c, s.d, s.e, s.f, s.g, s.h]

def digest (message : Bytes) : Bytes :=
  let bytes := Bytes.padded 64 (Bytes.ofNatBig 8 (8 * message.length)) message
  let last := (Bytes.blocks 64 (bytes.length / 64) bytes).foldl compress initial
  last.toList.flatMap fun word => Bytes.ofNatBig 4 word.toNat

end Devnet.Sha256
