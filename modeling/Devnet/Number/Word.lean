/-! 64-bit numbers written as decimal text. A leading plus sign is read, a minus sign only where the
number may be negative; the first character that rules the text out decides the fault. -/
namespace Devnet

inductive WordFault
  | empty
  | invalidDigit
  | tooLarge
  | tooSmall
  deriving DecidableEq, Repr

def WordFault.message : WordFault → String
  | .empty => "cannot parse integer from empty string"
  | .invalidDigit => "invalid digit found in string"
  | .tooLarge => "number too large to fit in target type"
  | .tooSmall => "number too small to fit in target type"

namespace Word

def greatestUInt64 : Nat := 18446744073709551615

def leastInt64 : Int := -9223372036854775808

def greatestInt64 : Int := 9223372036854775807

/-- Reads digits as long as the value stays at or below `most`. -/
def readUpTo (most : Nat) (beyond : WordFault) : Nat → List Char → Except WordFault Nat
  | value, [] => .ok value
  | value, c :: rest =>
    if !c.isDigit then .error .invalidDigit
    else
      let next := value * 10 + (c.toNat - '0'.toNat)
      if most < next then .error beyond else readUpTo most beyond next rest

def readUInt64 : List Char → Except WordFault Nat
  | [] => .error .empty
  | ['+'] => .error .invalidDigit
  | '+' :: digits => readUpTo greatestUInt64 .tooLarge 0 digits
  | digits => readUpTo greatestUInt64 .tooLarge 0 digits

def parseUInt64 (text : String) : Except WordFault UInt64 :=
  (readUInt64 text.toList).map Nat.toUInt64

def readInt64 : List Char → Except WordFault Int
  | [] => .error .empty
  | ['+'] | ['-'] => .error .invalidDigit
  | '+' :: digits => (readUpTo greatestInt64.toNat .tooLarge 0 digits).map Int.ofNat
  | '-' :: digits => (readUpTo leastInt64.natAbs .tooSmall 0 digits).map fun n => -(n : Int)
  | digits => (readUpTo greatestInt64.toNat .tooLarge 0 digits).map Int.ofNat

def parseInt64 (text : String) : Except WordFault Int64 :=
  (readInt64 text.toList).map Int64.ofInt

end Word
end Devnet
