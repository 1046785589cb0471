import Devnet.Genesis.Section

/-! The genesis of a chain: for each module a document of its own, kept as bytes. Together they make up
one JSON document, the application state. -/
namespace Devnet

structure Genesis where
  documents : Table String Bytes
  deriving DecidableEq, Repr

namespace Genesis

def empty : Genesis := ⟨[]⟩

def size (g : Genesis) : Nat := g.documents.length

def isEmpty (g : Genesis) : Bool := g.documents.isEmpty

def modules (g : Genesis) : List String := g.documents.map Prod.fst

def get? (g : Genesis) (name : String) : Option Bytes := g.documents.get? name

def contains (g : Genesis) (name : String) : Bool := (g.get? name).isSome

def insert (g : Genesis) (name : String) (document : Bytes) : Genesis :=
  ⟨g.documents.insert name document⟩

def withSection (g : Genesis) (m : Module) (content : m.Content) : Genesis :=
  g.insert m.name (m.codec.toBytes content)

def decode? {α : Type} (g : Genesis) (c : Codec α) (name : String) : Except DecodeFault (Option α) :=
  (g.get? name).mapM c.ofBytes

def section? (g : Genesis) (m : Module) : Except DecodeFault (Option m.Content) :=
  g.decode? m.codec m.name

def standard : Genesis := Module.all.foldl (fun g m => g.withSection m m.standard) empty

def valueOf (entry : String × Bytes) : Except Fault (String × Json) :=
  match Codec.json.ofBytes entry.2 with
  | .ok value => .ok (entry.1, value)
  | .error cause => .error (.badSection entry.1 cause)

def toAppState (g : Genesis) : Except Fault Json := (g.documents.mapM valueOf).map .object

def toAppStateBytes (g : Genesis) : Except Fault Bytes := g.toAppState.map Codec.json.toBytes

def ofAppStateBytes (bytes : Bytes) : Except DecodeFault Genesis := do
  let members ← Codec.members.ofBytes bytes
  return ⟨members.map fun entry => (entry.1, Codec.json.toBytes entry.2)⟩

end Genesis
end Devnet
