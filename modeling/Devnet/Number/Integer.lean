import Devnet.Number.Fault
import Devnet.Number.Power
import Devnet.Number.Word

namespace Devnet.Integer

def isDigits (text : List Char) : Bool := !text.isEmpty && text.all Char.isDigit

def readDigits (digits : List Char) : Nat := Nat.ofDigitChars 10 digits 0

def splitSign : List Char → Bool × List Char
  | '-' :: digits => (true, digits)
  | digits => (false, digits)

def signed (negative : Bool) (magnitude : Nat) : Int :=
  if negative then -(magnitude : Int) else magnitude

def limit : Nat := 1 <<< 256

def parse (text : String) : Except NumberFault Int :=
  let (negative, digits) := splitSign text.toList
  if !isDigits digits then .error (.invalidInteger text)
  else
    let magnitude := readDigits digits
    if magnitude < limit then .ok (signed negative magnitude) else .error (.integerOutOfRange text)

def render (n : Int) : String := toString n

def quo (n divisor : Int) : Except NumberFault Int :=
  if divisor = 0 then .error .divisionByZero else .ok (n.tdiv divisor)

def fitsInt64 (n : Int) : Bool := Word.leastInt64 ≤ n && n ≤ Word.greatestInt64

def toInt64? (n : Int) : Option Int64 := if fitsInt64 n then some (Int64.ofInt n) else none

/-- Tokens held for one unit of consensus power: a whole coin of 18 decimal places. -/
def powerReduction : Int := tenTo 18

def tokensOfPower (power : Int64) (reduction : Int) : Int := power.toInt * reduction

end Devnet.Integer
