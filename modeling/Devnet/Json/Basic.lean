import Devnet.Number.Binary64
import Devnet.Table

namespace Devnet

/-- A number is an integer of the 64-bit ranges or a double. -/
inductive JsonNumber
  | integer (value : Int)
  | double (value : Binary64)
  deriving DecidableEq, Repr

inductive Json
  | null
  | bool (value : Bool)
  | number (value : JsonNumber)
  | string (value : String)
  | array (items : List Json)
  | object (members : List (String × Json))
  deriving Repr

namespace Json

mutual

/-- Sorts the members of every object. -/
def normal : Json → Json
  | .array items => .array (normalItems items)
  | .object members => .object (Table.ofEntries (normalMembers members))
  | value => value

def normalItems : List Json → List Json
  | [] => []
  | item :: items => normal item :: normalItems items

def normalMembers : List (String × Json) → List (String × Json)
  | [] => []
  | (key, value) :: members => (key, normal value) :: normalMembers members

end

def ofNat (n : Nat) : Json := .number (.integer n)

def ofInt (n : Int) : Json := .number (.integer n)

end Json
end Devnet
