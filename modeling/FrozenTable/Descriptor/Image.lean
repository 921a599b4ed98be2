import FrozenTable.Descriptor.Basic
import FrozenTable.Files.Operation
import FrozenTable.Settings.Image

/-!
# Persisted descriptors

A descriptor file starts with eight letters that tell it from other files and with the version of its format; the descriptor
as a MessagePack record follows. A descriptor is written under another name first and then renamed, so that whoever finds one
finds it complete.
-/

namespace FrozenTable.Descriptor

variable {κ ν : Type}

/-- The letters at the start of a descriptor. -/
def magic : Bytes :=
  Bytes.ofAscii "MPHTABLE"

/-- The length of what stands in front of the record. -/
def headerSize : Nat := 12

/-- The names of the persisted fields, in order. -/
def fieldNames : List String :=
  ["version", "config", "mph", "select", "data_size", "bytes_per_offset", "timestamp", "min_key", "max_key"]

/-- A key that may be absent, as the sequence of its bytes. -/
def keyForm (key : Option Bytes) : Msgpack.Value :=
  .ofOption (fun bytes : Bytes => .array (bytes.map fun b => .nat b.toNat)) key

/-- A descriptor as a MessagePack value. -/
def form (d : Descriptor κ ν) : Msgpack.Value :=
  .record (fieldNames.zip
    [.nat d.version, d.settings.form, d.hash.form .record, .ofOption SelectIndex.form d.select, .nat d.dataSize,
      .nat d.offsetWidth, .nat d.timestamp, keyForm d.minKey, keyForm d.maxKey])

/-- Reads a persisted descriptor as a MessagePack value. -/
def reader : Msgpack.Reader :=
  Msgpack.readRecord (fieldNames.map fun name =>
    (name, if name == "config" then Settings.reader else Msgpack.readValue))

/-- The descriptor with a given MessagePack value. -/
def view [HashLibrary] (finder : CodecFinder κ ν) (paths : TablePaths) (v : Msgpack.Value) : Option (Descriptor κ ν) := do
  match ← v.toFields? fieldNames with
  | [some version, some settings, some hash, select, some dataSize, some offsetWidth, some timestamp, minKey, maxKey] =>
    pure {
      version := ← version.toHalf?
      settings := ← Settings.view finder settings
      hash := ← PerfectHash.view hash
      select := ← Msgpack.Value.optional SelectIndex.view select
      dataSize := ← dataSize.toWord?
      offsetWidth := ← offsetWidth.toHalf?
      timestamp := ← timestamp.toWord?
      minKey := ← Msgpack.Value.optional Msgpack.Value.toByteList? minKey
      maxKey := ← Msgpack.Value.optional Msgpack.Value.toByteList? maxKey
      paths }
  | _ => none

/-- The bytes of a descriptor file. -/
def encode (d : Descriptor κ ν) : Bytes :=
  magic ++ Bytes.bigEndian 4 d.version ++ Msgpack.encode d.form

/-- The descriptor with given bytes. -/
def decode [HashLibrary] (finder : CodecFinder κ ν) (paths : TablePaths) (bytes : Bytes) : Except Fault (Descriptor κ ν) := do
  if bytes.length < headerSize then throw (.descriptorTruncated bytes.length)
  let number := bytes.take 8
  if number ≠ magic then throw (.badMagic (Bytes.toNatBig number))
  let version := Bytes.toNatBig ((bytes.drop 8).take 4)
  if version ≠ formatVersion then throw (.badVersion version)
  match Msgpack.decodeBy reader (bytes.drop headerSize) with
  | none => throw .descriptorUndecodable
  | some (value, _) =>
    match view finder paths value with
    | none => throw .descriptorUndecodable
    | some d => if d.settings.offsetStorage = .automatic then throw .offsetsUnresolved else pure d

/-- Reads the descriptor of a table that is given by its directory or its descriptor file. -/
def load [HashLibrary] (finder : CodecFinder κ ν) (store : FileStore) (path : Path) (offsets data : Option Path) :
    Except Fault (Descriptor κ ν) := do
  let paths := TablePaths.locate store path offsets data
  decode finder paths (← FileStore.lift (store.read paths.descriptor))

/-- The path with an ending put to its last name. -/
def staged (path : Path) : Path :=
  path.dropLast ++ [path.getLastD "" ++ ".tmp"]

/-- What writes a descriptor to its file. -/
def storing (d : Descriptor κ ν) : List FileOperation :=
  let staging := staged d.paths.descriptor
  [.create staging, .append staging d.encode, .rename staging d.paths.descriptor, .lock d.paths.descriptor]

end FrozenTable.Descriptor
