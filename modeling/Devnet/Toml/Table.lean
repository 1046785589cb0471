import Devnet.Toml.Basic

/-! Tables of a TOML document while it is read. Headers and dotted keys bring tables about before they
are defined, so each table remembers where it came from. -/
namespace Devnet.Toml

inductive Origin
  /-- Defined by a header or inline; dotted keys cannot add to it. -/
  | defined
  /-- On the way to a table that a header defines. -/
  | passed
  /-- On the way to a value under a dotted key. -/
  | dotted
  deriving DecidableEq, Repr

inductive Node
  | leaf (value : Toml)
  | table (origin : Origin) (entries : List (String × Node))
  | tables (earlier : List (List (String × Node))) (last : List (String × Node))
  deriving Repr

abbrev Entries := List (String × Node)

namespace Entries

def set (key : String) (node : Node) : Entries → Entries
  | [] => [(key, node)]
  | (k, old) :: rest => if k = key then (key, node) :: rest else (k, old) :: set key node rest

def addValue (key : String) (value : Toml) (entries : Entries) : Option Entries :=
  match entries.lookup key with
  | some _ => none
  | none => some (entries ++ [(key, .leaf value)])

/-- Puts a value under a dotted key, given by the tables on the way and the last part. The last table
on the way has to come from dotted keys, the others must not be defined. -/
def addDotted (entries : Entries) : List String → String → Toml → Option Entries
  | [], key, value => entries.addValue key value
  | step :: path, key, value =>
    match entries.lookup step with
    | none => (addDotted [] path key value).map fun inner => entries.set step (.table .dotted inner)
    | some (.table origin inner) =>
      if origin = .dotted || (origin = .passed && !path.isEmpty) then
        (addDotted inner path key value).map fun inner => entries.set step (.table origin inner)
      else none
    | some (.tables earlier last) =>
      if path.isEmpty then none
      else (addDotted last path key value).map fun last => entries.set step (.tables earlier last)
    | some (.leaf _) => none

/-- Changes the entries of the table at the end of a path; of several tables the last one counts. -/
def changeAt (change : Entries → Option Entries) (entries : Entries) : List String → Option Entries
  | [] => change entries
  | step :: path =>
    match entries.lookup step with
    | none => (changeAt change [] path).map fun inner => entries.set step (.table .passed inner)
    | some (.table origin inner) =>
      (changeAt change inner path).map fun inner => entries.set step (.table origin inner)
    | some (.tables earlier last) =>
      (changeAt change last path).map fun last => entries.set step (.tables earlier last)
    | some (.leaf _) => none

def define (fill : Entries → Option Entries) (key : String) (entries : Entries) : Option Entries :=
  match entries.lookup key with
  | none => (fill []).map fun inner => entries.set key (.table .defined inner)
  | some (.table .passed inner) => (fill inner).map fun inner => entries.set key (.table .defined inner)
  | some _ => none

def append (fill : Entries → Option Entries) (key : String) (entries : Entries) : Option Entries :=
  match entries.lookup key with
  | none => (fill []).map fun inner => entries.set key (.tables [] inner)
  | some (.tables earlier last) =>
    (fill []).map fun inner => entries.set key (.tables (earlier ++ [last]) inner)
  | some _ => none

end Entries

mutual

def Node.value : Node → Toml
  | .leaf value => value
  | .table _ entries => .table (entryValues entries)
  | .tables earlier last => .array (tableValues earlier ++ [.table (entryValues last)])

def entryValues : List (String × Node) → List (String × Toml)
  | [] => []
  | (key, node) :: rest => (key, node.value) :: entryValues rest

def tableValues : List (List (String × Node)) → List Toml
  | [] => []
  | entries :: rest => .table (entryValues entries) :: tableValues rest

end

end Devnet.Toml
