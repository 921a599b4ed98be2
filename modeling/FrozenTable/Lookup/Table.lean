import FrozenTable.Descriptor.Image
import FrozenTable.Item.Basic
import FrozenTable.Lookup.Options
import FrozenTable.Lookup.Tally

/-!
# Tables

An open table answers from its descriptor and from the bytes of its data and offsets. Opening checks that there are as many
bytes as the descriptor asks for. A lookup goes from the key to its bucket, from the bucket to an offset and from there to a
record, which the acceptance may turn away. Each lookup is counted; closing gives the bytes back and ends all lookups.
-/

namespace FrozenTable

/-- What a table holds until it is closed. -/
structure Storage where
  data : Region
  /-- Plain offsets. -/
  offsets : Option Region
  /-- The index of selected offsets that stand in a file. -/
  select : Option SelectIndex

/-- An open table, or one that has been closed. -/
structure Table (κ ν : Type) where
  descriptor : Descriptor κ ν
  /-- The smallest and largest key, where they are kept. -/
  range : Option (κ × κ)
  acceptance : Option (Acceptance κ ν)
  tally : Tally
  /-- None once the table is closed. -/
  storage : Option Storage

/-- How a lookup ends. -/
inductive Finding (ν : Type) where
  | filtered
  | missing
  | retrieved (value : Option ν)

namespace Finding

/-- The value of a record that was found. -/
def value {ν : Type} : Finding ν → Option ν
  | retrieved value => value
  | _ => none

/-- Whether a record was found. -/
def isRetrieved {ν : Type} : Finding ν → Bool
  | retrieved _ => true
  | _ => false

end Finding

/-- The tally with one more lookup. -/
def Tally.count {ν : Type} (t : Tally) : Finding ν → Tally
  | .filtered => { t with filtered := t.filtered + 1 }
  | .missing => { t with missing := t.missing + 1 }
  | .retrieved _ => { t with retrieved := t.retrieved + 1 }

namespace Table

variable {κ ν : Type}

/-- The offsets of a table in the form in which lookups need them, from the bytes of the offsets file, if there is one. -/
def arrangeOffsets (d : Descriptor κ ν) (offsets : Option Region) :
    Except Fault (Option Region × Option SelectIndex) :=
  match d.settings.offsetStorage, offsets, d.select with
  | .indexed, some offsets, _ =>
    let expected := Settings.indexedCost d.count d.dataSize
    if offsets.size < expected then .error (.offsetsTooShort offsets.size expected)
    else .ok (some offsets, none)
  | .selected, some words, none => do
    let bits ← d.selectBits
    if words.size < 8 * wordsFor bits then throw (.selectTooShort words.size)
    else pure (none, some (.ofBlock (.ofBytes words.bytes) bits))
  | storage, none, _ => if d.needsOffsetsFile then .error (.offsetsUnexpected storage) else .ok (none, none)
  | storage, some _, _ => .error (.offsetsUnexpected storage)

/-- The table of a descriptor and the bytes of its files. -/
def assemble [DecidableEq κ] (d : Descriptor κ ν) (data : Region) (offsets : Option Region)
    (acceptance : Option (Acceptance κ ν)) : Except Fault (Table κ ν) := do
  if data.size ≠ d.dataSize then throw (.dataSizeMismatch data.size d.dataSize)
  let (offsets, select) ← arrangeOffsets d offsets
  let range ← d.keyRange
  let usual := match d.settings.validation with
    | .equality => some Acceptance.sameKey
    | .disabled => none
  pure {
    descriptor := d
    range
    acceptance := acceptance.or usual
    tally := .zero
    storage := some { data, offsets, select } }

/-- Opens the table that is given by its directory or its descriptor file. -/
def openAt [HashLibrary] [DecidableEq κ] (finder : CodecFinder κ ν) (store : FileStore) (path : Path) (options : OpenOptions κ ν) :
    Except Fault (Table κ ν) := do
  let d ← Descriptor.load finder store path options.offsets options.data
  let maxHeap := options.maxHeap.getD d.settings.maxHeap
  let maxDataHeap := options.maxDataHeap.getD d.settings.maxDataHeap
  let offsets ←
    if d.needsOffsetsFile then do
      let length ← FileStore.lift (store.sizeAt d.paths.offsets)
      let heap := options.resident ∨
        (d.settings.offsetStorage = .indexed ∧ (maxHeap = 0 ∨ length ≤ maxHeap))
      pure (some (← FileStore.lift (Region.openFile store d.paths.offsets heap)))
    else pure none
  let length ← FileStore.lift (store.sizeAt d.paths.data)
  let heap := options.resident ∨ (¬ d.needsOffsetsFile ∧ length < maxDataHeap)
  let data ← FileStore.lift (Region.openFile store d.paths.data heap)
  assemble d data offsets options.acceptance

/-- What the table holds, unless it is closed. -/
def needStorage (t : Table κ ν) : Except Fault Storage :=
  match t.storage with
  | some storage => .ok storage
  | none => .error .tableClosed

/-- Whether a key is smaller than the smallest or larger than the largest key of the table. -/
def outOfRange [Ord κ] (t : Table κ ν) (key : κ) : Bool :=
  match t.range with
  | some (low, high) => compare key low == .lt || compare key high == .gt
  | none => false

/-- The bucket of a key, unless the range of keys or the perfect hash turns it away. -/
def locate [Ord κ] (t : Table κ ν) (key : κ) : Except Fault (Option Nat) :=
  if t.outOfRange key then .ok none else t.descriptor.bucketOf key

/-- The key and the value of the record at an offset, as far as records have them. -/
def readRecord (t : Table κ ν) (storage : Storage) (offset : Nat) : Except Fault (Option κ × Option ν) := do
  match storage.data.from? offset with
  | none => throw (.offsetPastEnd offset)
  | some input =>
    let (key, rest) ← t.descriptor.settings.readKey input
    let (value, _) ← t.descriptor.settings.readValue rest
    pure (key, value)

/-- The record in a bucket. -/
def readBucket (t : Table κ ν) (storage : Storage) (bucket : Nat) : Except Fault (Option κ × Option ν) := do
  t.readRecord storage (← t.descriptor.offsetOf bucket storage.offsets storage.select)

/-- Looks a key up. -/
def find [Ord κ] (t : Table κ ν) (key : κ) : Except Fault (Finding ν) := do
  let storage ← t.needStorage
  match ← t.locate key with
  | none => pure .filtered
  | some bucket =>
    let (stored, value) ← t.readBucket storage bucket
    match t.acceptance with
    | none => pure (.retrieved value)
    | some accept => match accept key stored value with
      | some value => pure (.retrieved value)
      | none => pure .missing

/-- The table after a lookup. -/
def counted (t : Table κ ν) : Except Fault (Finding ν) → Table κ ν
  | .ok finding => { t with tally := t.tally.count finding }
  | .error _ => t

/-- The value of a key. Tables without values have none for any key. -/
def get [Ord κ] (t : Table κ ν) (key : κ) : Table κ ν × Except Fault (Option ν) :=
  let found := t.find key
  (t.counted found, found.map Finding.value)

/-- Whether the table has a key. Without an acceptance no record is read and nothing is counted. -/
def contains [Ord κ] (t : Table κ ν) (key : κ) : Table κ ν × Except Fault Bool :=
  if t.acceptance.isSome then
    let found := t.find key
    (t.counted found, found.map Finding.isRetrieved)
  else
    (t, do
      let _ ← t.needStorage
      pure (← t.locate key).isSome)

/-- How many entries the table has. -/
def size (t : Table κ ν) : Nat :=
  t.descriptor.count

/-- The record in a bucket, read without hashing and without asking the acceptance. -/
def entryAt (t : Table κ ν) (bucket : Nat) : Except Fault (Option κ × Option ν) := do
  if t.size ≤ bucket then throw (.bucketOutOfRange bucket t.size)
  t.readBucket (← t.needStorage) bucket

/-- The value in a bucket. -/
def valueAt (t : Table κ ν) (bucket : Nat) : Except Fault (Option ν) :=
  (t.entryAt bucket).map Prod.snd

/-- The key in a bucket, if keys are stored. -/
def keyAt (t : Table κ ν) (bucket : Nat) : Except Fault (Option κ) :=
  (t.entryAt bucket).map Prod.fst

/-- Gives the bytes of the table back. -/
def close (t : Table κ ν) : Table κ ν :=
  { t with storage := none }

def isClosed (t : Table κ ν) : Bool :=
  t.storage.isNone

/-- Whether the data is mapped from its file. -/
def isMapped (t : Table κ ν) : Bool :=
  t.storage.any fun storage => storage.data.isMapped

/-- The content of the offsets file: plain offsets, or the words of the index; empty where there is none. -/
def offsetsBytes (storage : Storage) : Bytes :=
  match storage.offsets, storage.select with
  | some offsets, _ => offsets.bytes
  | none, some select => wordsBytes select.block.words
  | none, none => []

end Table

end FrozenTable
