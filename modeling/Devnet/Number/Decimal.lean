import Devnet.Number.Integer

/-! Fixed point numbers with 18 decimal places, held as the number of their smallest units. -/
namespace Devnet

structure Decimal where
  units : Int
  deriving DecidableEq, Repr

namespace Decimal

def places : Nat := 18

def scale : Nat := tenTo places

def zero : Decimal := ⟨0⟩

def one : Decimal := ⟨scale⟩

def add (a b : Decimal) : Decimal := ⟨a.units + b.units⟩

def isNegative (d : Decimal) : Bool := d.units < 0

def isPositive (d : Decimal) : Bool := 0 < d.units

def isZero (d : Decimal) : Bool := d.units == 0

def lt (a b : Decimal) : Bool := a.units < b.units

def ofInt (n : Int) : Decimal := ⟨n * scale⟩

def truncate (d : Decimal) : Int := d.units.tdiv scale

def ofPlaces (integer : Int64) (digits : Nat) : Except NumberFault Decimal :=
  if places < digits then .error (.tooManyPlaces digits)
  else .ok ⟨integer.toInt * tenTo (places - digits)⟩

/-- Magnitudes in units from here on are refused when read. -/
def limit : Nat := 1 <<< 316

def splitPoint (text : List Char) : List Char × Option (List Char) :=
  match text.span (· != '.') with
  | (integer, _ :: fraction) => (integer, some fraction)
  | (integer, []) => (integer, none)

def padRight (width : Nat) (digits : List Char) : List Char :=
  digits ++ List.replicate (width - digits.length) '0'

def padLeft (width : Nat) (digits : List Char) : List Char :=
  List.replicate (width - digits.length) '0' ++ digits

def unitDigits? (text : List Char) : Option (List Char) :=
  match splitPoint text with
  | (integer, none) =>
    if Integer.isDigits integer then some (integer ++ padRight places []) else none
  | (integer, some fraction) =>
    if Integer.isDigits integer && Integer.isDigits fraction && fraction.length ≤ places then
      some (integer ++ padRight places fraction)
    else none

def parse (text : String) : Except NumberFault Decimal :=
  let (negative, unsigned) := Integer.splitSign text.toList
  match unitDigits? unsigned with
  | none => .error (.invalidDecimal text)
  | some digits =>
    let magnitude := Integer.readDigits digits
    if magnitude < limit then .ok ⟨Integer.signed negative magnitude⟩
    else .error (.decimalOutOfRange text)

def renderChars (d : Decimal) : List Char :=
  let digits := padLeft (places + 1) (Nat.toDigits 10 d.units.natAbs)
  let whole := digits.length - places
  (if d.isNegative then ['-'] else []) ++ digits.take whole ++ '.' :: digits.drop whole

def render (d : Decimal) : String := String.ofList d.renderChars

end Decimal
end Devnet
