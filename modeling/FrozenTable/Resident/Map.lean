import FrozenTable.Build.Spool
import FrozenTable.Lookup.Cursor

/-!
# Maps in memory

A map is a table that is held in memory as a whole and does not depend on any file. It can be made from the files of a table or
straight from entries, which are built into a table of their own first. A map never changes.
-/

namespace FrozenTable

/-- A table held in memory. -/
structure ResidentMap (κ ν : Type) where
  table : Table κ ν

namespace ResidentMap

variable {κ ν : Type}

/-- The map of the table that is given by its directory or its descriptor file. -/
def load [HashLibrary] [DecidableEq κ] (finder : CodecFinder κ ν) (store : FileStore) (path : Path) :
    Except Fault (ResidentMap κ ν) := do
  pure ⟨← Table.openAt finder store path { resident := true }⟩

/-- The directory in which the table of a map is built. -/
def workspace : Path := ["workspace"]

/-- The map of some entries. -/
def ofEntries [HashLibrary] [DecidableEq κ] [Ord κ] [Spelled κ] [Spelled ν] (finder : CodecFinder κ ν)
    (settings : Settings κ ν) (timestamp : Nat) (entries : List (Entry κ ν)) : Except Fault (ResidentMap κ ν) := do
  let directory := workspace ++ ["table"]
  match Build.runOnce (.rooted workspace) settings timestamp workspace directory entries with
  | (_, .error fault) => throw fault
  | (store, .ok _) => load finder store directory

/-- The values, in the order of their buckets; empty where there are no values. -/
def values (m : ResidentMap κ ν) : Except Fault (List ν) := do
  let values ← (List.range m.table.size).mapM m.table.valueAt
  pure (values.filterMap id)

/-- Whether one of the values from a bucket on is `value`; buckets behind it are not read. -/
def containsFrom [DecidableEq ν] (m : ResidentMap κ ν) (value : ν) : (count : Nat) → (bucket : Nat) → Except Fault Bool
  | 0, _ => .ok false
  | count + 1, bucket => do
    if (← m.table.valueAt bucket) = some value then pure true else m.containsFrom value count (bucket + 1)

/-- Whether some key has the value. -/
def containsValue [DecidableEq ν] (m : ResidentMap κ ν) (value : ν) : Except Fault Bool :=
  m.containsFrom value m.table.size 0

/-- The keys, each once. -/
def keySet [DecidableEq κ] (m : ResidentMap κ ν) : Except Fault (List κ) := do
  pure (← m.table.keys).eraseDups

/-- What one might want to do to a map. -/
inductive Edit (κ ν : Type) where
  | put (key : κ) (value : ν)
  | putAll (entries : List (κ × ν))
  | remove (key : κ)
  | clear

/-- Maps refuse every edit. -/
def apply (_ : ResidentMap κ ν) (_ : Edit κ ν) : Except Fault (ResidentMap κ ν) :=
  .error .immutable

end ResidentMap

end FrozenTable
