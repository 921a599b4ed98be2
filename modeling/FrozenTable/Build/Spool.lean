import FrozenTable.Build.Plan

/-!
# Entries that can be passed over only once

Such entries are written to a temporary file as they come, each key with its value, and the table is built from what is read
back. Their sizes are added up on the way, so the size of the data is known to the build. Reading back ends where the file
ends; entries that take no bytes leave no trace in it.
-/

namespace FrozenTable.Build

variable {κ ν : Type}

/-- Entries in a temporary file. -/
structure Spool where
  bytes : Bytes
  /-- The sum of the sizes of their records. -/
  dataSize : Nat

/-- The bytes of a key with its value. -/
def spoolEntry (settings : Settings κ ν) (entry : Entry κ ν) : Except Fault Bytes := do
  let key ← settings.keyBytes entry.key
  let value ← match settings.valueCodec, entry.value with
    | some codec, some value => codec.write value
    | _, _ => pure []
  pure (key ++ value)

/-- Writes entries as they come; `pieces` are those of the entries before, the last one first. -/
def spoolAll (settings : Settings κ ν) : (pieces : List Bytes) → (dataSize : Nat) → List (Entry κ ν) → Except Fault Spool
  | pieces, dataSize, [] => .ok ⟨pieces.reverse.flatten, dataSize⟩
  | pieces, dataSize, entry :: entries => do
    settings.needValue entry
    let piece ← spoolEntry settings entry
    let size ← settings.recordSize entry
    spoolAll settings (piece :: pieces) (dataSize + size) entries

/-- Reads an entry back. -/
def unspoolEntry (settings : Settings κ ν) (input : Bytes) : Except Fault (Entry κ ν × Bytes) := do
  let (key, rest) ← (← settings.needKeyCodec).read input
  let (value, rest) ← settings.readValue rest
  pure (⟨key, value⟩, rest)

/-- Reads at most `limit` entries back, up to the first fault. -/
def unspool (settings : Settings κ ν) : (limit : Nat) → Bytes → List (Except Fault (Entry κ ν))
  | _, [] => []
  | 0, _ => []
  | limit + 1, input =>
    match unspoolEntry settings input with
    | .ok (entry, rest) => .ok entry :: unspool settings limit rest
    | .error fault => [.error fault]

/-- What passes over a temporary file yield. -/
def Spool.source (settings : Settings κ ν) (spool : Spool) : Source κ ν :=
  let entries := unspool settings spool.bytes.length spool.bytes
  ⟨entries, entries⟩

/-- Writes entries to a temporary file in a directory. -/
def spool (store : FileStore) (settings : Settings κ ν) (temporary : Path) (entries : List (Entry κ ν)) :
    Except Fault Spool := do
  settings.validate
  let _ ← settings.needKeyCodec
  FileStore.lift (store.needDirectory temporary)
  spoolAll settings [] 0 entries

/-- Builds a table in a directory from entries that can be passed over only once. -/
def runOnce [HashLibrary] [Ord κ] [Spelled κ] [Spelled ν] (store : FileStore) (settings : Settings κ ν)
    (timestamp : Nat) (temporary directory : Path) (entries : List (Entry κ ν)) : FileStore × Except Fault (Descriptor κ ν) :=
  match spool store settings temporary entries with
  | .error fault => (store, .error fault)
  | .ok spool => run store settings (some spool.dataSize) timestamp directory (spool.source settings)

end FrozenTable.Build
