import Devnet.Genesis.Auth

namespace Devnet

structure Registry where
  entries : Table String Unit
  deriving Repr

namespace Registry

def empty : Registry := ⟨[]⟩

def register {α : Type} (registry : Registry) (message : Message α) : Registry :=
  ⟨registry.entries.insert message.typeUrl ()⟩

def typeUrls (registry : Registry) : List String := registry.entries.map Prod.fst

def standard : Registry :=
  ((empty.register Auth.BaseAccount.message).register AppKey.ed25519Message).register
    AppKey.secp256k1Message

def check (registry : Registry) (envelope : Envelope) : Except Envelope.Fault Unit :=
  if envelope.typeUrl ∈ registry.typeUrls then .ok () else .error (.unresolved envelope.typeUrl)

def unpack {α : Type} (registry : Registry) (message : Message α) (envelope : Envelope) :
    Except Envelope.Fault α := do
  registry.check envelope
  envelope.unpack message

end Registry
end Devnet
