import Devnet.Genesis.Basic
import Devnet.Store.Record

/-! The store of an application: three trees of bytes under bytes. A chain leaves its genesis, its
first validators and a few facts about itself there. -/
namespace Devnet

structure Store where
  genesis : Table Bytes Bytes
  validators : Table Bytes Bytes
  facts : Table Bytes Bytes
  deriving DecidableEq, Repr

namespace Store

def empty : Store := ⟨[], [], []⟩

def chainIdKey : Bytes := Utf8.ofString "chain_id"

def heightKey : Bytes := Utf8.ofString "initial_height"

def appHashKey : Bytes := Utf8.ofString "app_hash"

def bigEndian (width n : Nat) : Bytes := (Varint.littleEndian width n).reverse

/-- Positions are four bytes wide, so that the order of keys is the order of positions. -/
def positionKey (position : Nat) : Bytes := bigEndian 4 position

/-- A chain has been set up when its first height is known. -/
def isInitialized (store : Store) : Bool := (store.facts.get? heightKey).isSome

def chainId? (store : Store) : Except StoreFault (Option String) :=
  (store.facts.get? chainIdKey).mapM fun bytes => (Utf8.text bytes).mapError .chainIdText

def appHash? (store : Store) : Option Bytes := store.facts.get? appHashKey

def exportEntry (entry : Bytes × Bytes) : Except StoreFault (String × Bytes) :=
  match Utf8.text entry.1 with
  | .ok name => .ok (name, entry.2)
  | .error cause => .error (.moduleName cause)

def exportGenesis (store : Store) : Except StoreFault Genesis :=
  (store.genesis.mapM exportEntry).map fun entries => ⟨Table.ofEntries entries⟩

def readRecord (bytes : Bytes) : Except Fault ValidatorUpdate :=
  match ValidatorUpdate.ofRecord? bytes with
  | some update => .ok update
  | none => .error .storedRecord

def validatorUpdates (store : Store) : Except Fault (List ValidatorUpdate) :=
  store.validators.mapM fun entry => readRecord entry.2

def insertAll (tree : Table Bytes Bytes) (entries : List (Bytes × Bytes)) : Table Bytes Bytes :=
  entries.foldl (fun tree entry => tree.insert entry.1 entry.2) tree

def record (store : Store) (chainId : String) (initialHeight : Int64) (genesis : Genesis)
    (updates : List ValidatorUpdate) (appHash : Bytes) : Store where
  genesis := insertAll store.genesis (genesis.documents.map fun entry => (Utf8.ofString entry.1, entry.2))
  validators := insertAll store.validators
    (updates.zipIdx.map fun (update, position) => (positionKey position, update.toRecord))
  facts := insertAll store.facts
    [(chainIdKey, Utf8.ofString chainId), (appHashKey, appHash),
     (heightKey, bigEndian 8 initialHeight.toUInt64.toNat)]

end Store
end Devnet
