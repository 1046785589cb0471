import Devnet.Json.Fault
import Devnet.Json.Printer
import Devnet.Json.Reader
import Devnet.Number.Decimal
import Devnet.Text.Base64

/-! How values of a type are written as JSON and read back. Reading goes through a document in order and
stops at the first fault; it takes along how many levels of arrays and objects may still be entered. -/
namespace Devnet

structure Codec (α : Type) where
  encode : α → Json
  decode : Nat → RawJson → Except DecodeFault α
  absent : Option α := none

namespace Codec

def maxDepth : Nat := 127

def ofDocument {α : Type} (c : Codec α) (document : RawJson.Document) : Except DecodeFault α := do
  let value ← c.decode maxDepth document.body
  if document.closed then return value else throw .malformed

def ofBytes {α : Type} (c : Codec α) (bytes : Bytes) : Except DecodeFault α :=
  c.ofDocument (.ofBytes bytes)

def ofString {α : Type} (c : Codec α) (text : String) : Except DecodeFault α :=
  c.ofDocument (.ofSymbols (text.toList.map some))

/-- A value that is at hand has no limit on its depth. -/
def ofJson {α : Type} (c : Codec α) (value : Json) : Except DecodeFault α :=
  let raw := RawJson.ofJson value
  c.decode raw.depth raw

def toString {α : Type} (c : Codec α) (value : α) : String := (c.encode value).render

def toBytes {α : Type} (c : Codec α) (value : α) : Bytes := Utf8.encode (c.encode value).chars

def string : Codec String where
  encode := .string
  decode _
    | .string (some text) => .ok text
    | raw => .error (raw.mismatch "a string")

def bool : Codec Bool where
  encode := .bool
  decode _
    | .bool value => .ok value
    | raw => .error (raw.mismatch "a boolean")

def decodeRange (least most : Int) (wanted : String) : RawJson → Except DecodeFault Int
  | .number (some (.integer n)) =>
    if least ≤ n ∧ n ≤ most then .ok n else .error (.outOfRange n wanted)
  | raw => .error (raw.mismatch wanted)

def int64 : Codec Int64 where
  encode n := .ofInt n.toInt
  decode _ raw := (decodeRange Word.leastInt64 Word.greatestInt64 "i64" raw).map Int64.ofInt

def uint32 : Codec UInt32 where
  encode n := .ofNat n.toNat
  decode _ raw := (decodeRange 0 4294967295 "u32" raw).map fun n => n.toNat.toUInt32

def uint8 : Codec UInt8 where
  encode n := .ofNat n.toNat
  decode _ raw := (decodeRange 0 255 "u8" raw).map fun n => n.toNat.toUInt8

def decodeItems {α : Type} (decode : RawJson → Except DecodeFault α) :
    List RawJson → Except DecodeFault (List α)
  | [] => .ok []
  | item :: items => do
    let value ← decode item
    let values ← decodeItems decode items
    return value :: values

def list {α : Type} (c : Codec α) : Codec (List α) where
  encode values := .array (values.map c.encode)
  decode
    | 0, .array _ => .error .malformed
    | room + 1, .array items => decodeItems (c.decode room) items
    | _, raw => .error (raw.mismatch "a sequence")

def option {α : Type} (c : Codec α) : Codec (Option α) where
  encode
    | none => .null
    | some value => c.encode value
  decode
    | _, .null => .ok none
    | room, raw => (c.decode room raw).map some
  absent := some none

def text {α : Type} (render : α → String) (parse : String → Except ValueFault α) : Codec α where
  encode value := .string (render value)
  decode _
    | .string (some written) => (parse written).mapError .refused
    | raw => .error (raw.mismatch "a string")

def integer : Codec Int := text Integer.render fun s => (Integer.parse s).mapError .number

def decimal : Codec Decimal := text Decimal.render fun s => (Decimal.parse s).mapError .number

def address (kind : AddressKind) : Codec (Address kind) :=
  text Address.render fun s => (Address.parse kind s).mapError .address

/-- 64-bit numbers are written as text, since not every reader of JSON holds them. -/
def uint64Text : Codec UInt64 :=
  text (fun n => s!"{n.toNat}") fun s => (Word.parseUInt64 s).mapError .word

def int64Text : Codec Int64 :=
  text (fun n => s!"{n.toInt}") fun s => (Word.parseInt64 s).mapError .word

def base64 : Codec Bytes :=
  text Base64.encode fun s =>
    match Base64.decode s with
    | some bytes => .ok bytes
    | none => .error .base64

def lookUpName {α : Type} (known : List (String × α)) (found : String) : Except DecodeFault α :=
  match known.lookup found with
  | some value => .ok value
  | none => .error (.unknownVariant found (known.map Prod.fst))

def decodeVariant {α : Type} (known : List (String × α)) : RawJson → Except DecodeFault α
  | .string (some found) => lookUpName known found
  | raw => .error (raw.mismatch "variant identifier")

/-- One of some named values, as its name or as an object with the name as its only key and nothing
under it. -/
def decodeName {α : Type} (known : List (String × α)) : Nat → RawJson → Except DecodeFault α
  | _, .string (some found) => lookUpName known found
  | 0, .object _ => .error .malformed
  | _ + 1, .object ((some found, under) :: others) => do
    let value ← lookUpName known found
    match under, others with
    | .null, [] => return value
    | .null, _ => throw .malformed
    | raw, _ => throw (raw.mismatch "unit")
  | _, _ => .error .malformed

def named {α : Type} (name : α → String) (known : List (String × α)) : Codec α where
  encode value := .string (name value)
  decode := decodeName known

end Codec

namespace RawJson

mutual

def toJson : Nat → RawJson → Except DecodeFault Json
  | _, .null => .ok .null
  | _, .bool value => .ok (.bool value)
  | _, .number (some value) => .ok (.number value)
  | _, .string (some text) => .ok (.string text)
  | room + 1, .array items => (toItems room items).map .array
  | room + 1, .object members => (toMembers room [] members).map .object
  | _, _ => .error .malformed

def toItems : Nat → List RawJson → Except DecodeFault (List Json)
  | _, [] => .ok []
  | room, item :: items => do
    let value ← toJson room item
    let values ← toItems room items
    return value :: values

/-- Of equal keys the last one stays. -/
def toMembers : Nat → Table String Json → List (Option String × RawJson) →
    Except DecodeFault (Table String Json)
  | _, sorted, [] => .ok sorted
  | _, _, (none, _) :: _ => .error .malformed
  | room, sorted, (some key, raw) :: members => do
    let value ← toJson room raw
    toMembers room (Table.insert key value sorted) members

end

end RawJson

namespace Codec

def json : Codec Json := ⟨id, RawJson.toJson, none⟩

def members : Codec (Table String Json) where
  encode := .object
  decode
    | 0, .object _ => .error .malformed
    | room + 1, .object written => RawJson.toMembers room [] written
    | _, raw => .error (raw.mismatch "a map")

end Codec
end Devnet
