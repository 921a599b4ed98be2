import FrozenTable.Bits.SelectIndex
import FrozenTable.PerfectHash
import FrozenTable.Region
import FrozenTable.Settings.Offsets
import FrozenTable.Settings.Record

/-!
# Descriptors

A descriptor says all about a table that its data does not: the settings it was built with, the perfect hash of its keys, how
offsets are found, and the smallest and largest key where they are kept. It is made when a table is built and read back first
of all when the table is opened. The bucket of a key and the offset of a record are functions of the descriptor alone, or of
the descriptor and the offsets file.
-/

namespace FrozenTable

/-- Where the three files of a table are. -/
structure TablePaths where
  descriptor : Path
  offsets : Path
  data : Path
deriving DecidableEq, Repr

namespace TablePaths

/-- The name of the descriptor file. -/
def descriptorName : String := "meta.bin"

/-- The name of the data file. -/
def dataName : String := "data.bin"

/-- The name of the offsets file. -/
def offsetsName : String := "offsets.bin"

/-- The files of a table inside a directory. -/
def inDirectory (directory : Path) : TablePaths where
  descriptor := directory.child descriptorName
  offsets := directory.child offsetsName
  data := directory.child dataName

/-- The files of a table given by its directory or by its descriptor file, with the other files named on their own or next to
the descriptor. -/
def locate (store : FileStore) (path : Path) (offsets data : Option Path) : TablePaths :=
  let paths := if store.isDirectory path then inDirectory path else { inDirectory path.outer with descriptor := path }
  { paths with offsets := offsets.getD paths.offsets, data := data.getD paths.data }

end TablePaths

/-- The version of the format of descriptors. -/
def formatVersion : Nat := 1

/-- All about a table but its data. -/
structure Descriptor (κ ν : Type) where
  version : Nat
  settings : Settings κ ν
  hash : PerfectHash
  /-- The index of selected offsets, unless it stands in the offsets file. -/
  select : Option SelectIndex
  dataSize : Nat
  /-- The width of a plain offset. -/
  offsetWidth : Nat
  /-- When the table was built, in milliseconds. -/
  timestamp : Nat
  /-- The bytes of the smallest key. -/
  minKey : Option Bytes
  /-- The bytes of the largest key. -/
  maxKey : Option Bytes
  paths : TablePaths

namespace Descriptor

variable {κ ν : Type}

/-- The descriptor of a table that is being built. -/
def new (settings : Settings κ ν) (hash : PerfectHash) (select : Option SelectIndex) (dataSize : Nat)
    (range : Option (Bytes × Bytes)) (timestamp : Nat) (paths : TablePaths) : Descriptor κ ν where
  version := formatVersion
  settings := settings
  hash := hash
  select := select
  dataSize := dataSize
  offsetWidth := Settings.offsetWidth dataSize
  timestamp := timestamp
  minKey := range.map Prod.fst
  maxKey := range.map Prod.snd
  paths := paths

/-- How many entries the table has. -/
def count (d : Descriptor κ ν) : Nat :=
  d.hash.length

/-- Whether offsets are found by means of the offsets file. -/
def needsOffsetsFile (d : Descriptor κ ν) : Bool :=
  match d.settings.offsetStorage with
  | .indexed => true
  | .selected => d.select.isNone
  | _ => false

/-- The smallest and largest key, where they are kept. -/
def keyRange (d : Descriptor κ ν) : Except Fault (Option (κ × κ)) :=
  match d.minKey, d.maxKey with
  | some low, some high => do
    let codec ← d.settings.needKeyCodec
    let (low, _) ← codec.read low
    let (high, _) ← codec.read high
    pure (some (low, high))
  | _, _ => pure none

/-- The bucket of a key, unless the perfect hash turns it away. -/
def bucketOf (d : Descriptor κ ν) (key : κ) : Except Fault (Option Nat) := do
  d.hash.slot (.ofPieces (← d.settings.keyPieces key))

/-- The offset of the record in a bucket. Plain offsets are read from `offsets`; for selected ones `select` goes before the
index that the descriptor has. -/
def offsetOf (d : Descriptor κ ν) (bucket : Nat) (offsets : Option Region) (select : Option SelectIndex) :
    Except Fault Nat :=
  match d.settings.offsetStorage with
  | .indexed =>
    match offsets with
    | none => .error .offsetsRequired
    | some offsets => do
      match ← offsets.readNat (bucket * d.offsetWidth) d.offsetWidth with
      | some offset => pure offset
      | none => throw (.offsetsTruncated bucket)
  | .selected =>
    match select.or d.select with
    | none => .error .selectRequired
    | some select => .ok (d.settings.decompress ((select.select bucket).getD 0) bucket)
  | .fixed => .ok (d.settings.decompress 0 bucket)
  | .automatic => .error .offsetsUnresolved

/-- The offset of the record of a key, unless the perfect hash turns the key away. -/
def offsetOfKey (d : Descriptor κ ν) (key : κ) (offsets : Option Region) (select : Option SelectIndex) :
    Except Fault (Option Nat) := do
  match ← d.bucketOf key with
  | some bucket => pure (some (← d.offsetOf bucket offsets select))
  | none => pure none

/-- How many bits the vector of selected offsets has. -/
def selectBits (d : Descriptor κ ν) : Except Fault Nat :=
  d.settings.compress d.dataSize d.count

/-- The bytes that lookups need: the data and the offsets. -/
def byteSize (d : Descriptor κ ν) : Except Fault Nat :=
  match d.settings.offsetStorage with
  | .indexed => .ok (d.dataSize + Settings.indexedCost d.count d.dataSize)
  | .selected => d.selectBits.map fun bits => d.dataSize + (bits + 7) / 8
  | _ => .ok d.dataSize

end Descriptor

end FrozenTable
