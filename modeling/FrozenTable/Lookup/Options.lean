import FrozenTable.Files.Store
import FrozenTable.Lookup.Acceptance

/-!
# Options for opening a table

What a reader may want otherwise than the table says: other places for its files, other limits for what is held in memory, and
an acceptance of its own.
-/

namespace FrozenTable

/-- Options for opening a table. -/
structure OpenOptions (κ ν : Type) where
  offsets : Option Path := none
  data : Option Path := none
  maxHeap : Option Nat := none
  maxDataHeap : Option Nat := none
  /-- Whether all files are read into memory, whatever the limits say. -/
  resident : Bool := false
  acceptance : Option (Acceptance κ ν) := none

namespace OpenOptions

/-- The options as a record. -/
def text {κ ν : Type} (o : OpenOptions κ ν) : String :=
  let path := Text.ofOption fun path : Path => Text.quote path.text
  let number := Text.ofOption fun n : Nat => toString n
  Text.ofFields "ReaderOptions"
    [("offsets", path o.offsets), ("data", path o.data), ("max_heap_usage", number o.maxHeap),
      ("max_data_heap_usage", number o.maxDataHeap), ("heap_resident", Text.ofBool o.resident),
      ("validator", Text.ofBool o.acceptance.isSome)]

end OpenOptions

end FrozenTable
