import Devnet.Number.Power

/-! Finite binary floating point numbers of 64 bits, in exact arithmetic: rounding a ratio to the
nearest one, and the fewest decimal digits that read back. -/
namespace Devnet

/-- `± mantissa · 2 ^ exponent` with a mantissa below `2 ^ 53`; the exponent is the least that the
format allows for the value. -/
structure Binary64 where
  negative : Bool
  mantissa : Nat
  exponent : Int
  deriving DecidableEq, Repr

namespace Binary64

def mantissaLimit : Nat := 1 <<< 53

def leadingBit : Nat := 1 <<< 52

def leastExponent : Int := -1074

def greatestExponent : Int := 971

def zero : Binary64 := ⟨false, 0, leastExponent⟩

def scaled (n : Nat) (e : Int) : Nat × Nat :=
  if 0 ≤ e then (n <<< e.toNat, 1) else (n, 1 <<< (-e).toNat)

/-- The multiple of `2 ^ e` next to a ratio; of two equally near ones the even one. -/
def nearest (num den : Nat) (e : Int) : Nat :=
  let (up, down) := scaled 1 e
  let top := num * down
  let bottom := den * up
  let whole := top / bottom
  let twice := 2 * (top % bottom)
  if twice < bottom || (twice == bottom && whole % 2 == 0) then whole else whole + 1

/-- The magnitude nearest to `num / den`, ties to even; none where it would be infinite. -/
def ofRatio (num den : Nat) : Option Binary64 :=
  if num = 0 then some zero
  else
    let guess := max leastExponent ((num.log2 : Int) - den.log2 - 53)
    let (up, down) := scaled 1 guess
    let e := if num * down / (den * up) < mantissaLimit then guess else guess + 1
    let m := nearest num den e
    let (m, e) := if m = mantissaLimit then (leadingBit, e + 1) else (m, e)
    if greatestExponent < e then none else some ⟨false, m, e⟩

def ratio (x : Binary64) : Nat × Nat := scaled x.mantissa x.exponent

def mul (x y : Binary64) : Option Binary64 :=
  ofRatio (x.ratio.1 * y.ratio.1) (x.ratio.2 * y.ratio.2)

def div (x y : Binary64) : Option Binary64 :=
  ofRatio (x.ratio.1 * y.ratio.2) (x.ratio.2 * y.ratio.1)

def neg (x : Binary64) : Binary64 := { x with negative := !x.negative }

def powerOfTen (n : Nat) : Binary64 := (ofRatio (tenTo n) 1).getD zero

/-- Divides by `10 ^ 308` until the exponent is in reach of the powers of ten; three rounds leave
nothing of a 64-bit significand. -/
def shrink : Nat → Binary64 → Int → Option Binary64
  | 0, _, _ => some zero
  | rounds + 1, x, exponent =>
    if -308 ≤ exponent then x.div (powerOfTen exponent.natAbs)
    else if x.mantissa = 0 then some zero
    else (x.div (powerOfTen 308)).bind fun y => shrink rounds y (exponent + 308)

/-- `significand · 10 ^ exponent`: the significand is rounded, then scaled by a rounded power of ten. -/
def ofScientific (significand : Nat) (exponent : Int) : Option Binary64 :=
  match ofRatio significand 1 with
  | none => none
  | some x =>
    if x.mantissa = 0 then some zero
    else if 308 < exponent then none
    else if 0 ≤ exponent then x.mul (powerOfTen exponent.toNat)
    else shrink 4 x exponent

structure GridPoint where
  digits : Nat
  power : Int
  deriving DecidableEq, Repr

/-- The numbers that round to `mantissa · 2 ^ exponent`, between the two ratios; the ends belong to it
exactly when the mantissa is even. -/
def interval (x : Binary64) : (Nat × Nat) × (Nat × Nat) :=
  let lower :=
    if x.mantissa = leadingBit && leastExponent < x.exponent then scaled (4 * x.mantissa - 1) (x.exponent - 2)
    else scaled (2 * x.mantissa - 1) (x.exponent - 1)
  (lower, scaled (2 * x.mantissa + 1) (x.exponent - 1))

def GridPoint.ratio (p : GridPoint) : Nat × Nat :=
  if 0 ≤ p.power then (p.digits * tenTo p.power.toNat, 1) else (p.digits, tenTo (-p.power).toNat)

def lessRatio (a b : Nat × Nat) : Bool := a.1 * b.2 < b.1 * a.2

def readsBack (x : Binary64) (p : GridPoint) : Bool :=
  let (lower, upper) := x.interval
  if x.mantissa % 2 = 0 then !lessRatio p.ratio lower && !lessRatio upper p.ratio
  else lessRatio lower p.ratio && lessRatio p.ratio upper

def leadingPower (x : Binary64) : Int :=
  let (num, den) := x.ratio
  if den ≤ num then (Nat.toDigits 10 (num / den)).length - 1
  else -((Nat.toDigits 10 ((den + num - 1) / num - 1)).length : Int)

def onGrid (x : Binary64) (power : Int) : Option GridPoint :=
  let (num, den) := x.ratio
  let (top, bottom) := if 0 ≤ power then (num, den * tenTo power.toNat) else (num * tenTo (-power).toNat, den)
  let below : GridPoint := ⟨top / bottom, power⟩
  let above : GridPoint := ⟨top / bottom + 1, power⟩
  match readsBack x below, readsBack x above with
  | true, true =>
    let twice := 2 * (top % bottom)
    some (if twice < bottom || (twice == bottom && below.digits % 2 == 0) then below else above)
  | true, false => some below
  | false, true => some above
  | false, false => none

def shortestFrom (x : Binary64) : Nat → Int → GridPoint
  | 0, power => (x.onGrid power).getD ⟨0, power⟩
  | more + 1, power => (x.onGrid power).getD (shortestFrom x more (power - 1))

/-- The fewest digits that read back; seventeen always do. -/
def shortest (x : Binary64) : GridPoint := x.shortestFrom 16 x.leadingPower

def dropZeros : Nat → GridPoint → GridPoint
  | 0, p => p
  | n + 1, p => if p.digits % 10 = 0 then dropZeros n ⟨p.digits / 10, p.power + 1⟩ else p

def zeros (n : Nat) : List Char := List.replicate n '0'

/-- The power of ten behind the digits of scientific notation; its sign is always written. -/
def exponentMark (power : Int) : List Char :=
  'e' :: (if power < 0 then '-' else '+') :: Nat.toDigits 10 power.natAbs

/-- Digits with the point `point` places behind their start: positional from five places below one up
to sixteen digits before the point, scientific beyond. -/
def layout (digits : List Char) (point : Int) : List Char :=
  if (digits.length : Int) ≤ point && point ≤ 16 then
    digits ++ zeros (point.toNat - digits.length) ++ ['.', '0']
  else if 0 < point && point ≤ 16 then
    digits.take point.toNat ++ '.' :: digits.drop point.toNat
  else if -5 < point && point ≤ 0 then
    ['0', '.'] ++ zeros (-point).toNat ++ digits
  else
    match digits with
    | [d] => d :: exponentMark (point - 1)
    | d :: more => d :: '.' :: more ++ exponentMark (point - 1)
    | [] => exponentMark (point - 1)

def renderChars (x : Binary64) : List Char :=
  let sign := if x.negative then ['-'] else []
  if x.mantissa = 0 then sign ++ ['0', '.', '0']
  else
    let p := dropZeros 18 x.shortest
    let digits := Nat.toDigits 10 p.digits
    sign ++ layout digits (digits.length + p.power)

def render (x : Binary64) : String := String.ofList x.renderChars

end Binary64
end Devnet
