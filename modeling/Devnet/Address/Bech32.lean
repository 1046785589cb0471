import Devnet.Text.Utf8

/-! Bech32 text: a human readable part, the last digit one as a separator, data symbols of five bits
and a checksum of six more. Both checksum constants in use are read, the first one is written. -/
namespace Devnet

inductive Bech32Fault
  | missingSeparator
  | invalidLength
  | invalidChar (c : Char)
  | mixedCase
  | invalidPadding
  | invalidChecksum
  deriving DecidableEq, Repr

def Bech32Fault.message : Bech32Fault → String
  | .missingSeparator => "missing human-readable separator, \x221\x22"
  | .invalidLength => "invalid length"
  | .invalidChar c => s!"invalid character (code={c})"
  | .mixedCase => "mixed-case strings not allowed"
  | .invalidPadding => "invalid padding"
  | .invalidChecksum => "invalid checksum"

namespace Bech32

def charset : List Char := "qpzry9x8gf2tvdw0s3jn54khce6mua7l".toList

def symbolChar (n : Nat) : Char := charset.getD n 'q'

def symbolOf? (c : Char) : Option Nat := charset.idxOf? c

def generators : List Nat := [0x3b6a57b2, 0x26508e6d, 0x1ea119fa, 0x3d4233dd, 0x2a1462b3]

def polymodStep (state symbol : Nat) : Nat :=
  let top := state >>> 25
  let shifted := ((state % (1 <<< 25)) <<< 5) ^^^ symbol
  generators.zipIdx.foldl (fun s (g, i) => if top.testBit i then s ^^^ g else s) shifted

def polymod (symbols : List Nat) : Nat := symbols.foldl polymodStep 1

def expand (hrp : String) : List Nat :=
  hrp.toList.map (·.toNat / 32) ++ 0 :: hrp.toList.map (·.toNat % 32)

def writtenConstant : Nat := 1

def readConstants : List Nat := [1, 0x2bc830a3]

def checksumLength : Nat := 6

def checksum (hrp : String) (data : List Nat) : List Nat :=
  let rest := polymod (expand hrp ++ data ++ List.replicate checksumLength 0) ^^^ writtenConstant
  [25, 20, 15, 10, 5, 0].map fun shift => (rest >>> shift) % 32

def isChecked (hrp : String) (symbols : List Nat) : Bool :=
  readConstants.contains (polymod (expand hrp ++ symbols))

def bits : (width : Nat) → Nat → List Bool
  | 0, _ => []
  | width + 1, n => n.testBit width :: bits width n

/-- Groups of `width` bits as numbers, and the bits left over: how many they are, and their number. -/
def group (width : Nat) : (filled value : Nat) → List Bool → List Nat × Nat × Nat
  | filled, value, [] => ([], filled, value)
  | filled, value, bit :: rest =>
    let next := 2 * value + bit.toNat
    if filled + 1 = width then
      let (groups, left) := group width 0 0 rest
      (next :: groups, left)
    else group width (filled + 1) next rest

def toSymbols (bytes : Bytes) : List Nat :=
  match group 5 0 0 (bytes.flatMap fun b => bits 8 b.toNat) with
  | (symbols, 0, _) => symbols
  | (symbols, filled, value) => symbols ++ [value <<< (5 - filled)]

/-- Fewer than five bits may be left, and all of them zero. -/
def ofSymbols (symbols : List Nat) : Except Bech32Fault Bytes :=
  match group 8 0 0 (symbols.flatMap (bits 5)) with
  | (bytes, filled, value) =>
    if 5 ≤ filled || value != 0 then .error .invalidPadding else .ok (bytes.map Nat.toUInt8)

inductive LetterCase
  | lower
  | upper
  deriving DecidableEq, Repr

def caseOf? (c : Char) : Option LetterCase :=
  if c.isLower then some .lower else if c.isUpper then some .upper else none

def joinCase (seen : Option LetterCase) (c : Char) : Except Bech32Fault (Option LetterCase) :=
  match seen, caseOf? c with
  | some a, some b => if a = b then .ok seen else .error .mixedCase
  | some a, none => .ok (some a)
  | none, b => .ok b

def splitLast : List Char → Option (List Char × List Char)
  | [] => none
  | c :: rest =>
    match splitLast rest with
    | some (before, after) => some (c :: before, after)
    | none => if c = '1' then some ([], rest) else none

def readHrpBytes : Option LetterCase → Bytes → Except Bech32Fault (Option LetterCase)
  | seen, [] => .ok seen
  | seen, b :: rest =>
    let c := Char.ofNat b.toNat
    if b < 33 || 126 < b then .error (.invalidChar c)
    else
      match joinCase seen c with
      | .error fault => .error fault
      | .ok seen => readHrpBytes seen rest

def readHrp (hrp : List Char) : Except Bech32Fault (Option LetterCase) :=
  let bytes := Utf8.encode hrp
  if bytes.isEmpty || 83 < bytes.length then .error .invalidLength else readHrpBytes none bytes

def readData : Option LetterCase → List Char → Except Bech32Fault (List Nat)
  | _, [] => .ok []
  | seen, c :: rest =>
    if 0x80 ≤ c.toNat then .error (.invalidChar c)
    else
      match joinCase seen c, symbolOf? c.toLower with
      | .error fault, _ => .error fault
      | .ok _, none => .error (.invalidChar c)
      | .ok seen, some n => (readData seen rest).map (n :: ·)

/-- The human readable part in lower case, and the data symbols without their checksum. -/
def decode (text : String) : Except Bech32Fault (String × List Nat) :=
  match splitLast text.toList with
  | none => .error .missingSeparator
  | some (before, after) => do
    let letters ← readHrp before
    let symbols ← readData letters after
    let hrp := String.ofList (if letters = some .upper then before.map Char.toLower else before)
    if symbols.length < checksumLength then throw .invalidLength
    if !isChecked hrp symbols then throw .invalidChecksum
    return (hrp, symbols.take (symbols.length - checksumLength))

def encode (hrp : String) (bytes : Bytes) : String :=
  let data := toSymbols bytes
  String.ofList (hrp.toList ++ '1' :: (data ++ checksum hrp data).map symbolChar)

end Bech32
end Devnet
