import Devnet.Json.Codec

/-! Records as JSON: an object of named fields in any order, or an array of them in theirs. -/
namespace Devnet

/-- The fields of a record whose values form the tuple `τ`. -/
inductive Fields : Type → Type 1
  | nil : Fields Unit
  | cons {α τ : Type} (name : String) (codec : Codec α) (rest : Fields τ) : Fields (α × τ)

namespace Fields

def names {τ : Type} : Fields τ → List String
  | .nil => []
  | .cons name _ rest => name :: rest.names

def encode {τ : Type} : Fields τ → τ → List (String × Json)
  | .nil, () => []
  | .cons name codec rest, (value, values) => (name, codec.encode value) :: rest.encode values

@[reducible] def Slots {τ : Type} : Fields τ → Type
  | .nil => Unit
  | .cons (α := α) _ _ rest => Option α × rest.Slots

def empty {τ : Type} : (fields : Fields τ) → fields.Slots
  | .nil => ()
  | .cons _ _ rest => (none, rest.empty)

/-- Reads the value of a key into its slot; none if no field has that key. A second value is refused
before it is read. -/
def fill {τ : Type} (room : Nat) (key : String) (raw : RawJson) :
    (fields : Fields τ) → fields.Slots → Option (Except DecodeFault fields.Slots)
  | .nil => fun _ => none
  | .cons (α := α) name codec rest => fun (slots : Option α × rest.Slots) =>
    if key = name then
      some <|
        if slots.1.isSome then .error (.duplicateField name)
        else (codec.decode room raw).map fun value => (some value, slots.2)
    else (rest.fill room key raw slots.2).map fun filled => filled.map fun others => (slots.1, others)

/-- Fills slots from members in order; members under other keys only have to be JSON. -/
def fillAll {τ : Type} (fields : Fields τ) (room : Nat) :
    List (Option String × RawJson) → fields.Slots → Except DecodeFault fields.Slots
  | [], slots => .ok slots
  | (none, _) :: _, _ => .error .malformed
  | (some key, raw) :: members, slots =>
    match fields.fill room key raw slots with
    | some (.error fault) => .error fault
    | some (.ok filled) => fields.fillAll room members filled
    | none => if raw.isWellFormed then fields.fillAll room members slots else .error .malformed

/-- The first field without a value, in the order of the record, is missing. -/
def finish {τ : Type} : (fields : Fields τ) → fields.Slots → Except DecodeFault τ
  | .nil => fun _ => .ok ()
  | .cons (α := α) name codec rest => fun (slots : Option α × rest.Slots) =>
    match slots.1.or codec.absent with
    | none => .error (.missingField name)
    | some value => (rest.finish slots.2).map fun values => (value, values)

def decodeItems {τ : Type} (room : Nat) (wanted : String) :
    (fields : Fields τ) → (index : Nat) → List RawJson → Except DecodeFault (τ × List RawJson)
  | .nil, _, items => .ok ((), items)
  | .cons _ _ _, index, [] => .error (.wrongLength index wanted)
  | .cons _ codec rest, index, item :: items => do
    let value ← codec.decode room item
    let (values, left) ← rest.decodeItems room wanted (index + 1) items
    return ((value, values), left)

def lengthText (count : Nat) : String := if count = 1 then "1 element" else s!"{count} elements"

def decode {τ : Type} (fields : Fields τ) (name : String) : Nat → RawJson → Except DecodeFault τ
  | 0, .object _ => .error .malformed
  | room + 1, .object members => do
    let slots ← fields.fillAll room members fields.empty
    fields.finish slots
  | 0, .array _ => .error .malformed
  | room + 1, .array items => do
    let wanted := s!"struct {name} with {lengthText fields.names.length}"
    let (values, left) ← fields.decodeItems room wanted 0 items
    if left.isEmpty then return values else throw .malformed
  | _, raw => .error (raw.mismatch s!"struct {name}")

end Fields

def Codec.record {α τ : Type} (name : String) (fields : Fields τ) (values : α → τ) (build : τ → α) :
    Codec α where
  encode value := .object (fields.encode (values value))
  decode room raw := (fields.decode name room raw).map build

end Devnet
