import Devnet.Text.Quoted
import Devnet.Text.Utf8

namespace Devnet

inductive HexFault
  | oddLength
  /-- The first byte of the text that is no digit; it is shown as a Latin-1 character. -/
  | badDigit (byte : UInt8) (index : Nat)
  deriving DecidableEq, Repr

namespace Hex

def lowerDigits : List Char := "0123456789abcdef".toList

def upperDigits : List Char := "0123456789ABCDEF".toList

def pair (digits : List Char) (b : UInt8) : List Char :=
  [digits.getD (b.toNat / 16) '0', digits.getD (b.toNat % 16) '0']

def encode (bytes : Bytes) : String := String.ofList (bytes.flatMap (pair lowerDigits))

def encodeUpper (bytes : Bytes) : String := String.ofList (bytes.flatMap (pair upperDigits))

def digit? (b : UInt8) : Option Nat :=
  if 0x30 ≤ b && b ≤ 0x39 then some (b.toNat - 0x30)
  else if 0x61 ≤ b && b ≤ 0x66 then some (b.toNat - 0x61 + 10)
  else if 0x41 ≤ b && b ≤ 0x46 then some (b.toNat - 0x41 + 10)
  else none

def decodePairs (index : Nat) : Bytes → Except HexFault Bytes
  | [] => .ok []
  | [_] => .error .oddLength
  | high :: low :: rest =>
    match digit? high, digit? low with
    | none, _ => .error (.badDigit high index)
    | some _, none => .error (.badDigit low (index + 1))
    | some h, some l => (decodePairs (index + 2) rest).map ((h * 16 + l).toUInt8 :: ·)

/-- Reads the UTF-8 bytes of a text; their number is looked at before any of them. -/
def decode (text : String) : Except HexFault Bytes :=
  let bytes := Utf8.ofString text
  if bytes.length % 2 = 1 then .error .oddLength else decodePairs 0 bytes

end Hex

def HexFault.message : HexFault → String
  | .oddLength => "Odd number of digits"
  | .badDigit byte index => s!"Invalid character {Text.quotedChar (Char.ofNat byte.toNat)} at position {index}"

end Devnet
