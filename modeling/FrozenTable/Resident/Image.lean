import FrozenTable.Resident.Map

/-!
# Images of maps

A map as one byte string: eight letters, the lengths of three sections, and the sections themselves, which are the descriptor,
the data and the content of the offsets file. An image says how long it is, so whatever stands behind it is left alone.
-/

namespace FrozenTable.ResidentMap

variable {κ ν : Type}

/-- The letters at the start of an image. -/
def magic : Bytes :=
  Bytes.ofAscii "MPHMAP!!"

/-- The most bytes that the sections of an image may have together. -/
def maxImage : Nat := 0x7FFFFFFF

/-- The length of what stands in front of the sections. -/
def headerSize : Nat := 32

/-- The image of a map. -/
def encode (m : ResidentMap κ ν) : Except Fault Bytes := do
  let storage ← m.table.needStorage
  let descriptor := m.table.descriptor.encode
  let data := storage.data.bytes
  let offsets := Table.offsetsBytes storage
  let total := descriptor.length + data.length + offsets.length
  if maxImage < total then throw (.imageTooLarge total)
  let lengths := [descriptor.length, data.length, offsets.length]
  pure (magic ++ lengths.flatMap (Bytes.bigEndian 8) ++ (descriptor ++ (data ++ offsets)))

/-- The first `n` bytes, which have to be there. -/
def needBytes (n : Nat) (input : Bytes) : Except Fault (Bytes × Bytes) :=
  match Bytes.splitExact? n input with
  | some parts => .ok parts
  | none => .error .shortRead

/-- The files of a map that stands in no directory. -/
def noPaths : TablePaths :=
  ⟨[], [], []⟩

/-- Reads an image from the front of a byte string. -/
def decode [HashLibrary] [DecidableEq κ] (finder : CodecFinder κ ν) (input : Bytes) :
    Except Fault (ResidentMap κ ν × Bytes) := do
  let (header, rest) ← needBytes headerSize input
  let number := header.take 8
  if number ≠ magic then throw (.badMagic (Bytes.toNatBig number))
  let length (i : Nat) := Bytes.toNatBig ((header.drop (8 * i)).take 8)
  if maxImage < length 1 + length 2 + length 3 then throw .imageOversized
  let (descriptor, rest) ← needBytes (length 1) rest
  let (data, rest) ← needBytes (length 2) rest
  let (offsets, rest) ← needBytes (length 3) rest
  let d ← Descriptor.decode finder noPaths descriptor
  let offsets := if d.needsOffsetsFile then some (Region.ofBytes offsets) else none
  pure (⟨← Table.assemble d (.ofBytes data) offsets none⟩, rest)

/-- The map with a given image, whatever stands behind the image. -/
def ofBytes [HashLibrary] [DecidableEq κ] (finder : CodecFinder κ ν) (bytes : Bytes) : Except Fault (ResidentMap κ ν) :=
  (decode finder bytes).map Prod.fst

/-- A map as a MessagePack value. -/
def form (m : ResidentMap κ ν) : Except Fault Msgpack.Value := do
  pure (.bin (← m.encode))

/-- The map with a given MessagePack value. -/
def view [HashLibrary] [DecidableEq κ] (finder : CodecFinder κ ν) (v : Msgpack.Value) : Option (ResidentMap κ ν) := do
  let bytes ← v.toBytes?
  (ofBytes finder bytes).toOption

end FrozenTable.ResidentMap
