/-! Tables: entries sorted by key, each key once. -/
namespace Devnet

abbrev Table (κ α : Type) := List (κ × α)

namespace Table

variable {κ α : Type} [LT κ] [DecidableLT κ]

def insert (key : κ) (value : α) : Table κ α → Table κ α
  | [] => [(key, value)]
  | (k, v) :: rest =>
    if key < k then (key, value) :: (k, v) :: rest
    else if k < key then (k, v) :: insert key value rest
    else (key, value) :: rest

/-- Of entries with equal keys the last one stays. -/
def ofEntries (entries : List (κ × α)) : Table κ α :=
  entries.foldl (fun table entry => table.insert entry.1 entry.2) []

def get? [BEq κ] (key : κ) (table : Table κ α) : Option α := table.lookup key

end Table
end Devnet
