import FrozenTable.Lookup.Table

/-!
# Walking through a table

A cursor walks through the buckets of a table in order and yields the entry of each. Tables that drop their keys have no
entries to yield.
-/

namespace FrozenTable

/-- A place in a walk: the next bucket. -/
structure Cursor where
  bucket : Nat
deriving DecidableEq, Repr

namespace Table

variable {κ ν : Type}

/-- A cursor in front of the first bucket. -/
def walk (t : Table κ ν) : Except Fault Cursor := do
  if ¬ t.descriptor.settings.storesKeys then throw .keysImplicit
  let _ ← t.needStorage
  pure ⟨0⟩

/-- The entry in a bucket. -/
def keyedEntryAt (t : Table κ ν) (bucket : Nat) : Except Fault (κ × Option ν) := do
  match ← t.entryAt bucket with
  | (some key, value) => pure (key, value)
  | (none, _) => throw .storedKeyMissing

/-- The entry that a cursor yields, if there is one left, and the cursor behind it. -/
def next (t : Table κ ν) (c : Cursor) : Option (Except Fault (κ × Option ν) × Cursor) :=
  if t.size ≤ c.bucket then none else some (t.keyedEntryAt c.bucket, ⟨c.bucket + 1⟩)

/-- How many entries are left to a cursor. -/
def remaining (t : Table κ ν) (c : Cursor) : Nat :=
  t.size - c.bucket

/-- The next entries of a cursor, at most `limit` of them, and the cursor behind them. -/
def take (t : Table κ ν) : (limit : Nat) → Cursor → List (Except Fault (κ × Option ν)) × Cursor
  | 0, c => ([], c)
  | limit + 1, c =>
    match t.next c with
    | none => ([], c)
    | some (entry, c) =>
      let (entries, c) := t.take limit c
      (entry :: entries, c)

/-- Moves a cursor over at most `limit` entries and tells over how many. Those that cannot be read count too, but a fatal fault
ends the walk. -/
def advance (t : Table κ ν) (limit : Nat) (c : Cursor) : Except Fault (Nat × Cursor) :=
  let (entries, c) := t.take limit c
  match entries.findSome? Fault.fatalIn with
  | some fault => .error fault
  | none => .ok (entries.length, c)

/-- All entries, in the order of their buckets; the first fault among them counts. -/
def entries (t : Table κ ν) : Except Fault (List (κ × Option ν)) := do
  let start ← t.walk
  (t.take (t.remaining start) start).1.mapM id

/-- All keys, in the order of their buckets. -/
def keys (t : Table κ ν) : Except Fault (List κ) := do
  pure ((← t.entries).map Prod.fst)

/-- The order of records by key, then by value; what is absent comes first. -/
def compareRecords [Ord κ] [Ord ν] (a b : Option κ × Option ν) : Ordering :=
  (compare a.1 b.1).then (compare a.2 b.2)

/-- The cursor as a record. -/
def cursorText (t : Table κ ν) (c : Cursor) : String :=
  Text.ofFields "TableIter" [("hash", toString c.bucket), ("len", toString t.size)]

end Table

end FrozenTable
