import Devnet.Address.Basic
import Devnet.Crypto.Ripemd160
import Devnet.Json.Envelope

namespace Devnet

structure ConsensusAddress where
  bytes : Bytes
  deriving DecidableEq, Repr

namespace ConsensusAddress

def render (address : ConsensusAddress) : String := Hex.encodeUpper address.bytes

def codec : Codec ConsensusAddress where
  encode address := (Codec.list .uint8).encode address.bytes
  decode room raw := ((Codec.list .uint8).decode room raw).map ConsensusAddress.mk

end ConsensusAddress

inductive KeyScheme
  | ed25519
  | secp256k1
  | bls12381
  deriving DecidableEq, Repr

namespace KeyScheme

def name : KeyScheme → String
  | .ed25519 => "ed25519"
  | .secp256k1 => "secp256k1"
  | .bls12381 => "bls12_381"

def tag : KeyScheme → String
  | .ed25519 => "tendermint/PubKeyEd25519"
  | .secp256k1 => "tendermint/PubKeySecp256k1"
  | .bls12381 => "cometbft/PubKeyBls12_381"

def all : List KeyScheme := [.ed25519, .secp256k1, .bls12381]

def tags : List (String × KeyScheme) := all.map fun scheme => (scheme.tag, scheme)

end KeyScheme

structure PublicKey where
  scheme : KeyScheme
  bytes : Bytes
  deriving DecidableEq, Repr

namespace PublicKey

/-- The first twenty bytes of a SHA-256 digest, except that secp256k1 keys go through RIPEMD-160 too. -/
def address (key : PublicKey) : ConsensusAddress :=
  match key.scheme with
  | .secp256k1 => ⟨Ripemd160.digest (Sha256.digest key.bytes)⟩
  | _ => ⟨addressHash key.bytes⟩

def tagKey : String := "type"

def valueKey : String := "value"

/-- What has been read of a key: its tag and its bytes may come in either order. -/
inductive Progress
  | nothing
  | tag (scheme : KeyScheme)
  | value (raw : RawJson)
  | both (key : PublicKey)

def finish : Progress → Except DecodeFault PublicKey
  | .nothing => .error (.missingField tagKey)
  | .tag _ => .error (.missingField valueKey)
  | .value _ => .error (.missingField tagKey)
  | .both key => .ok key

def readTag (room : Nat) (raw : RawJson) : Progress → Except DecodeFault Progress
  | .nothing => (Codec.decodeName KeyScheme.tags room raw).map .tag
  | .value written => do
    let scheme ← Codec.decodeName KeyScheme.tags room raw
    let bytes ← Codec.base64.decode room written
    return .both ⟨scheme, bytes⟩
  | _ => .error (.duplicateField tagKey)

/-- Bytes that come before their tag are only read once the tag is known. -/
def readBytes (room : Nat) (raw : RawJson) : Progress → Except DecodeFault Progress
  | .nothing => (raw.toJson room).map fun _ => .value raw
  | .tag scheme => (Codec.base64.decode room raw).map fun bytes => .both ⟨scheme, bytes⟩
  | _ => .error (.duplicateField valueKey)

def decodeMembers (room : Nat) : Progress → List (Option String × RawJson) → Except DecodeFault PublicKey
  | seen, [] => finish seen
  | _, (none, _) :: _ => .error .malformed
  | seen, (some key, raw) :: members =>
    if key = tagKey then do
      let seen ← readTag room raw seen
      decodeMembers room seen members
    else if key = valueKey then do
      let seen ← readBytes room raw seen
      decodeMembers room seen members
    else if raw.isWellFormed then decodeMembers room seen members
    else .error .malformed

def wanted : String := "adjacently tagged enum PubKey"

def decodeItems (room : Nat) : List RawJson → Except DecodeFault PublicKey
  | [] => .error (.wrongLength 0 wanted)
  | tag :: items => do
    let scheme ← Codec.decodeVariant KeyScheme.tags tag
    match items with
    | [] => throw (.wrongLength 1 wanted)
    | written :: others =>
      let bytes ← Codec.base64.decode room written
      if others.isEmpty then return ⟨scheme, bytes⟩ else throw .malformed

def codec : Codec PublicKey where
  encode key := .object [(tagKey, .string key.scheme.tag), (valueKey, Codec.base64.encode key.bytes)]
  decode
    | 0, .object _ => .error .malformed
    | room + 1, .object members => decodeMembers room .nothing members
    | 0, .array _ => .error .malformed
    | room + 1, .array items => decodeItems room items
    | _, raw => .error (raw.mismatch wanted)

end PublicKey

inductive AppKey
  | ed25519 (bytes : Bytes)
  | secp256k1 (bytes : Bytes)
  deriving DecidableEq, Repr

inductive KeyFault
  | wrongSize (scheme : KeyScheme) (expected found : Nat)
  | unsupported (scheme : KeyScheme)
  | unsupportedUrl (typeUrl : String)
  deriving DecidableEq, Repr

def KeyFault.message : KeyFault → String
  | .wrongSize scheme expected found =>
    s!"invalid {scheme.name} public key size: expected {expected}, got {found}"
  | .unsupported scheme => s!"cryptoproto: unsupported key type: {scheme.name}"
  | .unsupportedUrl typeUrl => s!"unsupported public key type {typeUrl}"

namespace AppKey

def keyCodec (name : String) : Codec Bytes :=
  .record name (.cons "key" .base64 .nil) (fun bytes => (bytes, ())) fun (bytes, ()) => bytes

def ed25519Message : Message Bytes := ⟨"/cosmos.crypto.ed25519.PubKey", keyCodec "Ed25519PubKey"⟩

def secp256k1Message : Message Bytes := ⟨"/cosmos.crypto.secp256k1.PubKey", keyCodec "Secp256k1PubKey"⟩

def ed25519Size : Nat := 32

def secp256k1Size : Nat := 33

def checkSize (key : PublicKey) (size : Nat) : Except KeyFault Unit :=
  if key.bytes.length = size then .ok () else .error (.wrongSize key.scheme size key.bytes.length)

def ofPublicKey (key : PublicKey) : Except KeyFault AppKey :=
  match key.scheme with
  | .ed25519 => do checkSize key ed25519Size; return .ed25519 key.bytes
  | .secp256k1 => do checkSize key secp256k1Size; return .secp256k1 key.bytes
  | .bls12381 => .error (.unsupported key.scheme)

def toPublicKey : AppKey → PublicKey
  | .ed25519 bytes => ⟨.ed25519, bytes⟩
  | .secp256k1 bytes => ⟨.secp256k1, bytes⟩

def pack : AppKey → Envelope
  | .ed25519 bytes => .pack ed25519Message bytes
  | .secp256k1 bytes => .pack secp256k1Message bytes

inductive UnpackFault
  | key (cause : KeyFault)
  | envelope (cause : Envelope.Fault)
  deriving DecidableEq, Repr

def unpack (envelope : Envelope) : Except UnpackFault AppKey :=
  if envelope.typeUrl = ed25519Message.typeUrl then
    ((envelope.unpack ed25519Message).map .ed25519).mapError .envelope
  else if envelope.typeUrl = secp256k1Message.typeUrl then
    ((envelope.unpack secp256k1Message).map .secp256k1).mapError .envelope
  else .error (.key (.unsupportedUrl envelope.typeUrl))

end AppKey
end Devnet
