import Devnet.Number.Power
import Devnet.Number.Word
import Devnet.Toml.Text

namespace Devnet.Toml

/-- Digits after the first one; single underscores may stand between digits. -/
def readMoreDigits (isDigit : Char → Bool) : List Char → List Char × List Char
  | '_' :: c :: rest =>
    if isDigit c then
      let (digits, rest) := readMoreDigits isDigit rest
      (c :: digits, rest)
    else ([], '_' :: c :: rest)
  | c :: rest =>
    if isDigit c then
      let (digits, rest) := readMoreDigits isDigit rest
      (c :: digits, rest)
    else ([], c :: rest)
  | [] => ([], [])

def readDigits (isDigit : Char → Bool) : List Char → Option (List Char × List Char)
  | c :: rest =>
    if isDigit c then
      let (digits, rest) := readMoreDigits isDigit rest
      some (c :: digits, rest)
    else none
  | [] => none

def readWhole : List Char → Option (List Char × List Char)
  | '0' :: rest => some (['0'], rest)
  | text => readDigits Char.isDigit text

def readSign : List Char → Bool × List Char
  | '-' :: rest => (true, rest)
  | '+' :: rest => (false, rest)
  | text => (false, text)

def readFraction : List Char → Option (List Char × List Char)
  | '.' :: rest => readDigits Char.isDigit rest
  | _ => none

def readExponent : List Char → Option ((Bool × List Char) × List Char)
  | c :: rest =>
    if c = 'e' || c = 'E' then do
      let (negative, rest) := readSign rest
      let (digits, rest) ← readDigits Char.isDigit rest
      some ((negative, digits), rest)
    else none
  | [] => none

/-- From here on a number rounds to infinity as a double. -/
def floatLimit : Nat := (1 <<< 1024) - (1 <<< 970)

def overflows (digits : List Char) (exponent : Int) : Bool :=
  let digits := digits.dropWhile (· == '0')
  let value := Nat.ofDigitChars 10 digits 0
  let magnitude := digits.length + exponent
  if digits.isEmpty || magnitude < 300 then false
  else if 320 < magnitude then true
  else if 0 ≤ exponent then floatLimit ≤ value * tenTo exponent.toNat
  else floatLimit * tenTo (-exponent).toNat ≤ value

def consumed (text rest : List Char) : String := String.ofList (text.take (text.length - rest.length))

/-- A number with a fraction, an exponent, or both. Beyond the doubles only negative ones are taken. -/
def readFloat (text : List Char) : Option (Toml × List Char) := do
  let (negative, unsigned) := readSign text
  let (whole, rest) ← readWhole unsigned
  let fractionRead := readFraction rest
  let (fraction, afterFraction) := fractionRead.getD ([], rest)
  let exponentRead := readExponent afterFraction
  if fractionRead.isNone && exponentRead.isNone then none
  let ((negativeExponent, exponent), after) := exponentRead.getD ((false, []), afterFraction)
  let power : Int := Nat.ofDigitChars 10 exponent 0
  let power := (if negativeExponent then -power else power) - fraction.length
  if !negative && overflows (whole ++ fraction) power then none
  some (.float (consumed text after), after)

def readSpecialFloat (text : List Char) : Option (Toml × List Char) :=
  match (readSign text).2 with
  | 'i' :: 'n' :: 'f' :: rest | 'n' :: 'a' :: 'n' :: rest => some (.float (consumed text rest), rest)
  | _ => none

def isOctal (c : Char) : Bool := '0' ≤ c && c ≤ '7'

def isBinary (c : Char) : Bool := c == '0' || c == '1'

def isHex (c : Char) : Bool := (hexValue? c).isSome

/-- Unsigned digits of a base, which have to stay within 64 bits with a sign. -/
def readBased (base : Nat) (isDigit : Char → Bool) (text : List Char) : Option (Toml × List Char) := do
  let (digits, rest) ← readDigits isDigit text
  let value : Int := digits.foldl (fun value c => value * base + (hexValue? c).getD 0) 0
  if value ≤ Word.greatestInt64 then some (.integer value, rest) else none

def readInteger : List Char → Option (Toml × List Char)
  | '0' :: 'x' :: rest => readBased 16 isHex rest
  | '0' :: 'o' :: rest => readBased 8 isOctal rest
  | '0' :: 'b' :: rest => readBased 2 isBinary rest
  | text => do
    let (negative, unsigned) := readSign text
    let (digits, rest) ← readWhole unsigned
    let magnitude : Int := Nat.ofDigitChars 10 digits 0
    let value := if negative then -magnitude else magnitude
    if Word.leastInt64 ≤ value && value ≤ Word.greatestInt64 then some (.integer value, rest) else none

def readField (width least most : Nat) (text : List Char) : Option (Nat × List Char) :=
  let digits := text.take width
  let value := Nat.ofDigitChars 10 digits 0
  if digits.length = width && digits.all Char.isDigit && least ≤ value && value ≤ most then
    some (value, text.drop width)
  else none

def expect? (c : Char) : List Char → Option (List Char)
  | [] => none
  | d :: rest => if c = d then some rest else none

def isLeap (year : Nat) : Bool := year % 4 == 0 && (year % 100 != 0 || year % 400 == 0)

def daysOf (year month : Nat) : Nat :=
  if month = 2 then (if isLeap year then 29 else 28)
  else if month = 4 || month = 6 || month = 9 || month = 11 then 30
  else 31

def skipDate? (text : List Char) : Option (List Char) := do
  let (year, rest) ← readField 4 0 9999 text
  let rest ← expect? '-' rest
  let (month, rest) ← readField 2 1 12 rest
  let rest ← expect? '-' rest
  let (_, rest) ← readField 2 1 (daysOf year month) rest
  some rest

def skipSecondFraction : List Char → List Char
  | '.' :: c :: rest => if c.isDigit then rest.dropWhile Char.isDigit else '.' :: c :: rest
  | text => text

/-- Goes past a time of day; a minute may have a leap second. -/
def skipTime? (text : List Char) : Option (List Char) := do
  let (_, rest) ← readField 2 0 23 text
  let rest ← expect? ':' rest
  let (_, rest) ← readField 2 0 59 rest
  let rest ← expect? ':' rest
  let (_, rest) ← readField 2 0 60 rest
  some (skipSecondFraction rest)

def skipOffset? : List Char → Option (List Char)
  | 'Z' :: rest | 'z' :: rest => some rest
  | '+' :: rest | '-' :: rest => do
    let (_, rest) ← readField 2 0 23 rest
    let rest ← expect? ':' rest
    let (_, rest) ← readField 2 0 59 rest
    some rest
  | text => some text

def skipTimeOfDate? : List Char → Option (List Char)
  | c :: rest =>
    if c = 'T' || c = 't' || c = ' ' then
      match skipTime? rest with
      | some rest => skipOffset? rest
      | none => some (c :: rest)
    else some (c :: rest)
  | [] => some []

def readTime (text : List Char) : Option (Toml × List Char) := do
  let rest ← ((skipDate? text).bind skipTimeOfDate?).or (skipTime? text)
  some (.time (consumed text rest), rest)

def readNumber (text : List Char) : Option (Toml × List Char) :=
  (readTime text).or ((readFloat text).or ((readSpecialFloat text).or (readInteger text)))

end Devnet.Toml
