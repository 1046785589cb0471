namespace Devnet

inductive Toml
  | string (value : String)
  | integer (value : Int)
  | float (text : String)
  | bool (value : Bool)
  | time (text : String)
  | array (items : List Toml)
  | table (entries : List (String × Toml))
  deriving Repr

namespace Toml

def isGap (c : Char) : Bool := c == ' ' || c == '\t'

def skipGap (text : List Char) : List Char := text.dropWhile isGap

/-- Characters that may stand in comments and strings: no control characters but the tab. -/
def isPrintable (c : Char) : Bool := c == '\t' || (0x20 ≤ c.toNat && c.toNat ≠ 0x7F)

def lineEnd? : List Char → Option (List Char)
  | [] => some []
  | '\n' :: rest => some rest
  | '\r' :: '\n' :: rest => some rest
  | _ => none

def skipComment : List Char → List Char
  | '#' :: rest => rest.dropWhile isPrintable
  | text => text

def closeLine? (text : List Char) : Option (List Char) := lineEnd? (skipComment (skipGap text))

/-- Goes past gaps, line ends and comments; a comment has to end with its line. -/
def skipLines? : (inComment : Bool) → List Char → Option (List Char)
  | _, '\n' :: rest => skipLines? false rest
  | _, '\r' :: '\n' :: rest => skipLines? false rest
  | true, c :: rest => if isPrintable c then skipLines? true rest else none
  | true, [] => none
  | false, '#' :: rest => skipLines? true rest
  | false, c :: rest => if isGap c then skipLines? false rest else some (c :: rest)
  | false, [] => some []

end Toml
end Devnet
