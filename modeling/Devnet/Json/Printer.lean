import Devnet.Json.Basic

namespace Devnet.Json

def escape (c : Char) : List Char :=
  if c = '\x22' then ['\\', '\x22']
  else if c = '\\' then ['\\', '\\']
  else if c = Char.ofNat 8 then ['\\', 'b']
  else if c = Char.ofNat 9 then ['\\', 't']
  else if c = Char.ofNat 10 then ['\\', 'n']
  else if c = Char.ofNat 12 then ['\\', 'f']
  else if c = Char.ofNat 13 then ['\\', 'r']
  else if c.toNat < 0x20 then
    ['\\', 'u', '0', '0', Nat.digitChar (c.toNat / 16), Nat.digitChar (c.toNat % 16)]
  else [c]

def stringChars (text : String) : List Char :=
  '\x22' :: text.toList.flatMap escape ++ ['\x22']

def numberChars : JsonNumber → List Char
  | .integer n => (toString n).toList
  | .double x => x.renderChars

mutual

def chars : Json → List Char
  | .null => "null".toList
  | .bool true => "true".toList
  | .bool false => "false".toList
  | .number n => numberChars n
  | .string text => stringChars text
  | .array items => '[' :: itemChars items
  | .object members => '\x7b' :: memberChars members

def itemChars : List Json → List Char
  | [] => [']']
  | item :: items => chars item ++ moreItemChars items

def moreItemChars : List Json → List Char
  | [] => [']']
  | item :: items => ',' :: chars item ++ moreItemChars items

def memberChars : List (String × Json) → List Char
  | [] => ['\x7d']
  | (key, value) :: members => stringChars key ++ ':' :: chars value ++ moreMemberChars members

def moreMemberChars : List (String × Json) → List Char
  | [] => ['\x7d']
  | (key, value) :: members =>
    ',' :: stringChars key ++ ':' :: chars value ++ moreMemberChars members

end

def render (value : Json) : String := String.ofList value.chars

def lineBreak (level : Nat) : List Char := '\n' :: List.replicate (2 * level) ' '

mutual

def prettyChars (level : Nat) : Json → List Char
  | .array [] => ['[', ']']
  | .array (item :: items) =>
    '[' :: lineBreak (level + 1) ++ prettyChars (level + 1) item ++ prettyItems level items
  | .object [] => ['\x7b', '\x7d']
  | .object ((key, value) :: members) =>
    '\x7b' :: lineBreak (level + 1) ++ stringChars key ++ ": ".toList ++
      prettyChars (level + 1) value ++ prettyMembers level members
  | value => chars value

def prettyItems (level : Nat) : List Json → List Char
  | [] => lineBreak level ++ [']']
  | item :: items =>
    ',' :: lineBreak (level + 1) ++ prettyChars (level + 1) item ++ prettyItems level items

def prettyMembers (level : Nat) : List (String × Json) → List Char
  | [] => lineBreak level ++ ['\x7d']
  | (key, value) :: members =>
    ',' :: lineBreak (level + 1) ++ stringChars key ++ ": ".toList ++
      prettyChars (level + 1) value ++ prettyMembers level members

end

def pretty (value : Json) : String := String.ofList (prettyChars 0 value)

end Devnet.Json
