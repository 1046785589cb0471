import Devnet.Json.Record

/-! Messages in an envelope: the type URL stands beside the fields of the message. -/
namespace Devnet

structure Envelope where
  typeUrl : String
  fields : Table String Json
  deriving Repr

structure Message (α : Type) where
  typeUrl : String
  codec : Codec α

namespace Envelope

def urlKey : String := "@type"

/-- Reads members in order; all but the type URL are kept as they are. -/
def decodeMembers (room : Nat) : Option String → Table String Json →
    List (Option String × RawJson) → Except DecodeFault Envelope
  | none, _, [] => .error (.missingField urlKey)
  | some url, sorted, [] => .ok ⟨url, sorted⟩
  | _, _, (none, _) :: _ => .error .malformed
  | url, sorted, (some key, raw) :: members =>
    if key = urlKey then
      if url.isSome then .error (.duplicateField urlKey)
      else do
        let found ← Codec.string.decode room raw
        decodeMembers room (some found) sorted members
    else do
      let value ← raw.toJson room
      decodeMembers room url (Table.insert key value sorted) members

def codec : Codec Envelope where
  encode envelope := .object ((urlKey, .string envelope.typeUrl) :: envelope.fields)
  decode
    | 0, .object _ => .error .malformed
    | room + 1, .object members => decodeMembers room none [] members
    | _, raw => .error (raw.mismatch "struct Any")

inductive Fault
  | wrongType (found wanted : String)
  | unresolved (typeUrl : String)
  | fields (cause : DecodeFault)
  deriving DecidableEq, Repr

def Fault.message : Fault → String
  | .wrongType found wanted => s!"cannot unpack {found} into {wanted}"
  | .unresolved typeUrl => s!"unable to resolve type URL {typeUrl}"
  | .fields cause => cause.message

def membersOf : Json → List (String × Json)
  | .object members => members
  | _ => []

def pack {α : Type} (message : Message α) (value : α) : Envelope :=
  ⟨message.typeUrl, membersOf (message.codec.encode value).normal⟩

def unpack {α : Type} (message : Message α) (envelope : Envelope) : Except Fault α :=
  if envelope.typeUrl ≠ message.typeUrl then .error (.wrongType envelope.typeUrl message.typeUrl)
  else (message.codec.ofJson (.object envelope.fields)).mapError .fields

end Envelope
end Devnet
