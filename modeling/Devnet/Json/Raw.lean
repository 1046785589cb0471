import Devnet.Json.Basic
import Devnet.Text.Utf8

/-! JSON as it is written: members in order, repeated keys kept, and every defect in its place, so
that a reader which goes through a document in order meets the first defect first. -/
namespace Devnet

/-- A character of a document, or a byte that is none. -/
abbrev Symbol := Option Char

inductive RawJson
  | null
  | bool (value : Bool)
  /-- No value stands for a number that no double can hold. -/
  | number (value : Option JsonNumber)
  /-- No text stands for a string with a lone surrogate or a byte that is no character. -/
  | string (text : Option String)
  | array (items : List RawJson)
  /-- A member whose key cannot be read has none. -/
  | object (members : List (Option String × RawJson))
  /-- The document breaks off from the grammar here; nothing follows. -/
  | broken
  deriving Repr

namespace RawJson

mutual

def ofJson : Json → RawJson
  | .null => .null
  | .bool value => .bool value
  | .number value => .number (some value)
  | .string text => .string (some text)
  | .array items => .array (ofItems items)
  | .object members => .object (ofMembers members)

def ofItems : List Json → List RawJson
  | [] => []
  | item :: items => ofJson item :: ofItems items

def ofMembers : List (String × Json) → List (Option String × RawJson)
  | [] => []
  | (key, value) :: members => (some key, ofJson value) :: ofMembers members

end

mutual

def depth : RawJson → Nat
  | .array items => 1 + depthItems items
  | .object members => 1 + depthMembers members
  | _ => 0

def depthItems : List RawJson → Nat
  | [] => 0
  | item :: items => max (depth item) (depthItems items)

def depthMembers : List (Option String × RawJson) → Nat
  | [] => 0
  | (_, value) :: members => max (depth value) (depthMembers members)

end

mutual

/-- No part breaks the grammar; surrogates, stray bytes and too large numbers do not count. -/
def isWellFormed : RawJson → Bool
  | .array items => wellFormedItems items
  | .object members => wellFormedMembers members
  | .broken => false
  | _ => true

def wellFormedItems : List RawJson → Bool
  | [] => true
  | item :: items => isWellFormed item && wellFormedItems items

def wellFormedMembers : List (Option String × RawJson) → Bool
  | [] => true
  | (_, value) :: members => isWellFormed value && wellFormedMembers members

end

end RawJson
end Devnet
