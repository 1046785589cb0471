import Devnet.Toml.Basic

namespace Devnet.Toml

def hexValue? (c : Char) : Option Nat :=
  if c.isDigit then some (c.toNat - '0'.toNat)
  else if 'a' ≤ c && c ≤ 'f' then some (c.toNat - 'a'.toNat + 10)
  else if 'A' ≤ c && c ≤ 'F' then some (c.toNat - 'A'.toNat + 10)
  else none

/-- The character of a hexadecimal code; surrogates and codes that are too large have none. -/
def hexChar? (digits : List Char) : Option Char := do
  let values ← digits.mapM hexValue?
  let code := values.foldl (fun code value => code * 16 + value) 0
  if code.isValidChar then some (Char.ofNat code) else none

def simpleEscape? : Char → Option Char
  | 'b' => some (Char.ofNat 8)
  | 't' => some (Char.ofNat 9)
  | 'n' => some (Char.ofNat 10)
  | 'f' => some (Char.ofNat 12)
  | 'r' => some (Char.ofNat 13)
  | '\x22' => some '\x22'
  | '\\' => some '\\'
  | _ => none

def addChar (c : Option Char) (reading : Option (List Char × List Char)) : Option (List Char × List Char) := do
  let c ← c
  let (others, rest) ← reading
  some (c :: others, rest)

def readBasic : List Char → Option (List Char × List Char)
  | [] => none
  | '\x22' :: rest => some ([], rest)
  | '\\' :: 'u' :: a :: b :: c :: d :: rest => addChar (hexChar? [a, b, c, d]) (readBasic rest)
  | '\\' :: 'U' :: a :: b :: c :: d :: e :: f :: g :: h :: rest =>
    addChar (hexChar? [a, b, c, d, e, f, g, h]) (readBasic rest)
  | '\\' :: c :: rest => addChar (simpleEscape? c) (readBasic rest)
  | c :: rest => if isPrintable c then addChar (some c) (readBasic rest) else none

def readLiteral : List Char → Option (List Char × List Char)
  | [] => none
  | '\x27' :: rest => some ([], rest)
  | c :: rest => if isPrintable c then addChar (some c) (readLiteral rest) else none

/-- Where a reader of a basic string over several lines is: in its text, after a backslash that has to
end its line, or in the white space that such a backslash takes away. -/
inductive Place
  | text
  | lineTail
  | skipped
  deriving DecidableEq, Repr

/-- A basic string over several lines, after its opening quotes. Up to two quotes may stand right
before the closing ones. -/
def readBasicLines : Place → List Char → Option (List Char × List Char)
  | _, [] => none
  | .lineTail, '\n' :: rest => readBasicLines .skipped rest
  | .lineTail, '\r' :: '\n' :: rest => readBasicLines .skipped rest
  | .lineTail, c :: rest => if isGap c then readBasicLines .lineTail rest else none
  | .skipped, ' ' :: rest => readBasicLines .skipped rest
  | .skipped, '\t' :: rest => readBasicLines .skipped rest
  | .skipped, '\n' :: rest => readBasicLines .skipped rest
  | .skipped, '\r' :: '\n' :: rest => readBasicLines .skipped rest
  | _, '\x22' :: '\x22' :: '\x22' :: '\x22' :: '\x22' :: rest => some (['\x22', '\x22'], rest)
  | _, '\x22' :: '\x22' :: '\x22' :: '\x22' :: rest => some (['\x22'], rest)
  | _, '\x22' :: '\x22' :: '\x22' :: rest => some ([], rest)
  | _, '\n' :: rest => addChar (some '\n') (readBasicLines .text rest)
  | _, '\r' :: '\n' :: rest => addChar (some '\n') (readBasicLines .text rest)
  | _, '\\' :: 'u' :: a :: b :: c :: d :: rest =>
    addChar (hexChar? [a, b, c, d]) (readBasicLines .text rest)
  | _, '\\' :: 'U' :: a :: b :: c :: d :: e :: f :: g :: h :: rest =>
    addChar (hexChar? [a, b, c, d, e, f, g, h]) (readBasicLines .text rest)
  | _, '\\' :: '\n' :: rest => readBasicLines .skipped rest
  | _, '\\' :: '\r' :: '\n' :: rest => readBasicLines .skipped rest
  | _, '\\' :: c :: rest =>
    if isGap c then readBasicLines .lineTail rest
    else addChar (simpleEscape? c) (readBasicLines .text rest)
  | _, c :: rest => if isPrintable c then addChar (some c) (readBasicLines .text rest) else none

def readLiteralLines : List Char → Option (List Char × List Char)
  | [] => none
  | '\x27' :: '\x27' :: '\x27' :: '\x27' :: '\x27' :: rest => some (['\x27', '\x27'], rest)
  | '\x27' :: '\x27' :: '\x27' :: '\x27' :: rest => some (['\x27'], rest)
  | '\x27' :: '\x27' :: '\x27' :: rest => some ([], rest)
  | '\n' :: rest => addChar (some '\n') (readLiteralLines rest)
  | '\r' :: '\n' :: rest => addChar (some '\n') (readLiteralLines rest)
  | c :: rest => if isPrintable c then addChar (some c) (readLiteralLines rest) else none

/-- A line end right after the opening quotes does not belong to the string. -/
def dropFirstLineEnd : List Char → List Char
  | '\n' :: rest => rest
  | '\r' :: '\n' :: rest => rest
  | text => text

def readString : List Char → Option (String × List Char)
  | '\x22' :: '\x22' :: '\x22' :: rest =>
    (readBasicLines .text (dropFirstLineEnd rest)).map fun (text, rest) => (String.ofList text, rest)
  | '\x22' :: rest => (readBasic rest).map fun (text, rest) => (String.ofList text, rest)
  | '\x27' :: '\x27' :: '\x27' :: rest =>
    (readLiteralLines (dropFirstLineEnd rest)).map fun (text, rest) => (String.ofList text, rest)
  | '\x27' :: rest => (readLiteral rest).map fun (text, rest) => (String.ofList text, rest)
  | _ => none

def isBareKeyChar (c : Char) : Bool := c.isAlphanum || c == '-' || c == '_'

def readSimpleKey : List Char → Option (String × List Char)
  | '\x22' :: rest => (readBasic rest).map fun (text, rest) => (String.ofList text, rest)
  | '\x27' :: rest => (readLiteral rest).map fun (text, rest) => (String.ofList text, rest)
  | text =>
    match text.takeWhile isBareKeyChar with
    | [] => none
    | key => some (String.ofList key, text.dropWhile isBareKeyChar)

def readKeyParts : (count : Nat) → List Char → Option (List String × List Char)
  | 0, _ => none
  | count + 1, text => do
    let (part, rest) ← readSimpleKey (skipGap text)
    match skipGap rest with
    | '.' :: rest =>
      let (parts, rest) ← readKeyParts count rest
      some (part :: parts, rest)
    | rest => some ([part], rest)

/-- Levels that keys, arrays and inline tables may go down. -/
def maxDepth : Nat := 79

def readKey (text : List Char) : Option (List String × List Char) := readKeyParts maxDepth text

end Devnet.Toml
