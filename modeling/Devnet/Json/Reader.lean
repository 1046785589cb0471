import Devnet.Json.Raw
import Devnet.Number.Word

namespace Devnet.RawJson

def isSpace (s : Symbol) : Bool := s == some ' ' || s == some '\n' || s == some '\t' || s == some '\r'

def skipSpace (text : List Symbol) : List Symbol := text.dropWhile isSpace

/-- A part of a string: a character, one `\u` escape, or a byte that is no character. -/
inductive Piece
  | char (c : Char)
  | unit (code : Nat)
  | stray
  deriving DecidableEq, Repr

inductive StringState
  | plain
  | escape
  | hex (missing : Nat) (code : Nat)
  deriving DecidableEq, Repr

def simpleEscape? (c : Char) : Option Char :=
  if c = '\x22' || c = '\\' || c = '/' then some c
  else if c = 'b' then some (Char.ofNat 8)
  else if c = 'f' then some (Char.ofNat 12)
  else if c = 'n' then some '\n'
  else if c = 'r' then some '\r'
  else if c = 't' then some '\t'
  else none

def hexDigit? (c : Char) : Option Nat :=
  if c.isDigit then some (c.toNat - '0'.toNat)
  else if 'a' ≤ c && c ≤ 'f' then some (c.toNat - 'a'.toNat + 10)
  else if 'A' ≤ c && c ≤ 'F' then some (c.toNat - 'A'.toNat + 10)
  else none

def readPieces : StringState → List Symbol → Option (List Piece × List Symbol)
  | _, [] => none
  | .plain, none :: rest => (readPieces .plain rest).map fun (pieces, after) => (.stray :: pieces, after)
  | .plain, some c :: rest =>
    if c = '\x22' then some ([], rest)
    else if c = '\\' then readPieces .escape rest
    else if c.toNat < 0x20 then none
    else (readPieces .plain rest).map fun (pieces, after) => (.char c :: pieces, after)
  | .escape, none :: _ => none
  | .escape, some c :: rest =>
    if c = 'u' then readPieces (.hex 3 0) rest
    else
      match simpleEscape? c with
      | some d => (readPieces .plain rest).map fun (pieces, after) => (.char d :: pieces, after)
      | none => none
  | .hex _ _, none :: _ => none
  | .hex missing code, some c :: rest =>
    match hexDigit? c, missing with
    | none, _ => none
    | some d, 0 =>
      (readPieces .plain rest).map fun (pieces, after) => (.unit (code * 16 + d) :: pieces, after)
    | some d, missing + 1 => readPieces (.hex missing (code * 16 + d)) rest

def isHighSurrogate (code : Nat) : Bool := 0xD800 ≤ code && code < 0xDC00

def isLowSurrogate (code : Nat) : Bool := 0xDC00 ≤ code && code < 0xE000

/-- Joins surrogate pairs; none is left alone. -/
def joinPieces : List Piece → Option (List Char)
  | [] => some []
  | .char c :: rest => (joinPieces rest).map (c :: ·)
  | .stray :: _ => none
  | .unit high :: .unit low :: rest =>
    if isHighSurrogate high then
      if isLowSurrogate low then
        (joinPieces rest).map (Char.ofNat (0x10000 + (high - 0xD800) * 0x400 + (low - 0xDC00)) :: ·)
      else none
    else if isLowSurrogate high then none
    else (joinPieces (.unit low :: rest)).map (Char.ofNat high :: ·)
  | .unit code :: rest =>
    if isHighSurrogate code || isLowSurrogate code then none
    else (joinPieces rest).map (Char.ofNat code :: ·)

def readString (text : List Symbol) : Option (Option String × List Symbol) :=
  (readPieces .plain text).map fun (pieces, after) => ((joinPieces pieces).map String.ofList, after)

structure Numeral where
  negative : Bool
  whole : List Char
  fraction : List Char
  exponent : Option (Bool × List Char)
  deriving DecidableEq, Repr

def spanDigits : List Symbol → List Char × List Symbol
  | some c :: rest =>
    if c.isDigit then
      let (digits, after) := spanDigits rest
      (c :: digits, after)
    else ([], some c :: rest)
  | text => ([], text)

def readFraction : List Symbol → Option (List Char × List Symbol)
  | some '.' :: rest =>
    match spanDigits rest with
    | ([], _) => none
    | read => some read
  | text => some ([], text)

def readExponentDigits (negative : Bool) (text : List Symbol) :
    Option (Option (Bool × List Char) × List Symbol) :=
  match spanDigits text with
  | ([], _) => none
  | (digits, after) => some (some (negative, digits), after)

def readExponent : List Symbol → Option (Option (Bool × List Char) × List Symbol)
  | some c :: rest =>
    if c = 'e' || c = 'E' then
      match rest with
      | some '+' :: digits => readExponentDigits false digits
      | some '-' :: digits => readExponentDigits true digits
      | digits => readExponentDigits false digits
    else some (none, some c :: rest)
  | text => some (none, text)

/-- Reads on after the sign. A number does not start with a zero that another digit follows. -/
def readNumeral (negative : Bool) (text : List Symbol) : Option (Numeral × List Symbol) := do
  let (whole, rest) := spanDigits text
  if whole.isEmpty || (whole.head? == some '0' && whole.length != 1) then none
  let (fraction, rest) ← readFraction rest
  let (exponent, rest) ← readExponent rest
  some (⟨negative, whole, fraction, exponent⟩, rest)

/-- Adds digits to a significand as long as it fits into 64 bits, and counts those left over. -/
def absorb : Nat → List Char → Nat × Nat
  | significand, [] => (significand, 0)
  | significand, c :: rest =>
    let next := significand * 10 + (c.toNat - '0'.toNat)
    if next ≤ Word.greatestUInt64 then absorb next rest else (significand, rest.length + 1)

/-- An integer stays one within the 64-bit ranges; everything else, and minus zero, is a double. -/
def Numeral.value (n : Numeral) : Option JsonNumber :=
  let (whole, dropped) := absorb 0 n.whole
  let double (x : Option Binary64) : Option JsonNumber :=
    x.map fun x => .double (if n.negative then x.neg else x)
  if n.fraction.isEmpty && n.exponent.isNone && dropped == 0 then
    if !n.negative then some (.integer whole)
    else if 0 < whole && Word.leastInt64 ≤ -(whole : Int) then some (.integer (-(whole : Int)))
    else double (Binary64.ofRatio whole 1)
  else
    let (significand, unread) := absorb whole n.fraction
    let shift : Int :=
      match n.exponent with
      | none => 0
      | some (negative, digits) =>
        let power : Int := Nat.ofDigitChars 10 digits 0
        if negative then -power else power
    double (Binary64.ofScientific significand (shift + dropped - (n.fraction.length - unread : Nat)))

mutual

def readValue : Nat → List Symbol → RawJson × Option (List Symbol)
  | 0, _ => (.broken, none)
  | fuel + 1, text =>
    match skipSpace text with
    | some '\x7b' :: rest =>
      match skipSpace rest with
      | some '\x7d' :: after => (.object [], some after)
      | inside => let (members, after) := readMembers fuel inside; (.object members, after)
    | some '[' :: rest =>
      match skipSpace rest with
      | some ']' :: after => (.array [], some after)
      | inside => let (items, after) := readItems fuel inside; (.array items, after)
    | some '\x22' :: rest =>
      match readString rest with
      | some (text, after) => (.string text, some after)
      | none => (.broken, none)
    | some 'n' :: some 'u' :: some 'l' :: some 'l' :: rest => (.null, some rest)
    | some 't' :: some 'r' :: some 'u' :: some 'e' :: rest => (.bool true, some rest)
    | some 'f' :: some 'a' :: some 'l' :: some 's' :: some 'e' :: rest => (.bool false, some rest)
    | some '-' :: rest =>
      match readNumeral true rest with
      | some (numeral, after) => (.number numeral.value, some after)
      | none => (.broken, none)
    | rest =>
      match readNumeral false rest with
      | some (numeral, after) => (.number numeral.value, some after)
      | none => (.broken, none)

def readItems : Nat → List Symbol → List RawJson × Option (List Symbol)
  | 0, _ => ([.broken], none)
  | fuel + 1, text =>
    match readValue fuel text with
    | (item, none) => ([item], none)
    | (item, some rest) =>
      match skipSpace rest with
      | some ',' :: rest => let (items, after) := readItems fuel rest; (item :: items, after)
      | some ']' :: after => ([item], some after)
      | _ => ([item, .broken], none)

def readMembers : Nat → List Symbol → List (Option String × RawJson) × Option (List Symbol)
  | 0, _ => ([(none, .broken)], none)
  | fuel + 1, text =>
    match skipSpace text with
    | some '\x22' :: rest =>
      match readString rest with
      | none => ([(none, .broken)], none)
      | some (key, rest) =>
        match skipSpace rest with
        | some ':' :: rest =>
          match readValue fuel rest with
          | (value, none) => ([(key, value)], none)
          | (value, some rest) =>
            match skipSpace rest with
            | some ',' :: rest =>
              let (members, after) := readMembers fuel rest
              ((key, value) :: members, after)
            | some '\x7d' :: after => ([(key, value)], some after)
            | _ => ([(key, value), (none, .broken)], none)
        | _ => ([(key, .broken)], none)
    | _ => ([(none, .broken)], none)

end

structure Document where
  body : RawJson
  closed : Bool
  deriving Repr

/-- Every step into an array or object uses up a symbol, so twice their number of steps is enough. -/
def Document.ofSymbols (text : List Symbol) : Document :=
  match readValue (2 * text.length + 2) text with
  | (body, none) => ⟨body, false⟩
  | (body, some rest) => ⟨body, (skipSpace rest).isEmpty⟩

def Document.ofBytes (bytes : Bytes) : Document := .ofSymbols (Utf8.decode bytes)

end Devnet.RawJson
