import FrozenTable.Msgpack.Record
import FrozenTable.Settings.Basic

/-!
# Persisted settings

Settings are persisted with their codecs and their record line. A reader of a table finds the codecs by the forms in which they
were persisted; which codecs can be found is up to the reader.
-/

namespace FrozenTable

/-- How the codecs of a table are found by their persisted forms. -/
structure CodecFinder (κ ν : Type) where
  key : Msgpack.Value → Option (Codec κ)
  value : Msgpack.Value → Option (Codec ν)

namespace AffineSize

/-- A line as a MessagePack value. -/
def form (e : AffineSize) : Msgpack.Value :=
  .record [("slope", .int e.slope), ("constant", .int e.constant)]

/-- The line with a given MessagePack value. -/
def view (v : Msgpack.Value) : Option AffineSize := do
  match ← v.toFields? ["slope", "constant"] with
  | [some slope, some constant] => pure ⟨← slope.toSigned?, ← constant.toSigned?⟩
  | _ => none

end AffineSize

namespace Settings

variable {κ ν : Type}

/-- The names of the persisted fields, in order. -/
def fieldNames : List String :=
  ["key_codec", "value_codec", "key_validation", "key_storage", "offset_storage", "range_checking", "signature_width",
    "max_heap_usage", "max_data_heap_usage", "temp_shard_size", "debug_duplicate_keys", "entry_size"]

/-- Settings as a MessagePack value. -/
def form (s : Settings κ ν) : Msgpack.Value :=
  .record (fieldNames.zip
    [.ofOption Codec.form s.keyCodec, .ofOption Codec.form s.valueCodec, .text s.validation.name, .text s.keyStorage.name,
      .text s.offsetStorage.name, .text s.rangeChecking.name, .nat s.signatureWidth, .nat s.maxHeap, .nat s.maxDataHeap,
      .nat s.shardSize, .bool s.describeDuplicates, s.entryLine.form])

/-- The persisted fields that hold named choices. -/
def choiceNames : List String :=
  ["key_validation", "key_storage", "offset_storage", "range_checking"]

/-- Reads persisted settings as a MessagePack value. -/
def reader : Msgpack.Reader :=
  Msgpack.readRecord (fieldNames.map fun name =>
    (name, if choiceNames.contains name then Msgpack.readChoice else Msgpack.readValue))

/-- The settings with a given MessagePack value. -/
def view (finder : CodecFinder κ ν) (v : Msgpack.Value) : Option (Settings κ ν) := do
  match ← v.toFields? fieldNames with
  | [keyCodec, valueCodec, some validation, some keyStorage, some offsetStorage, some rangeChecking, some signatureWidth,
      some maxHeap, some maxDataHeap, some shardSize, some describeDuplicates, some entryLine] =>
    pure {
      keyCodec := ← Msgpack.Value.optional finder.key keyCodec
      valueCodec := ← Msgpack.Value.optional finder.value valueCodec
      validation := ← validation.toChoice? KeyValidation.names
      keyStorage := ← keyStorage.toChoice? KeyStorage.names
      offsetStorage := ← offsetStorage.toChoice? OffsetStorage.names
      rangeChecking := ← rangeChecking.toChoice? RangeChecking.names
      signatureWidth := ← signatureWidth.toHalf?
      maxHeap := ← maxHeap.toWord?
      maxDataHeap := ← maxDataHeap.toWord?
      shardSize := ← shardSize.toWord?
      describeDuplicates := ← describeDuplicates.toBool?
      entryLine := ← AffineSize.view entryLine }
  | _ => none

/-- The bytes of settings. -/
def encode (s : Settings κ ν) : Bytes :=
  Msgpack.encode s.form

/-- The settings with given bytes, whatever stands behind them. -/
def decode (finder : CodecFinder κ ν) (bytes : Bytes) : Option (Settings κ ν) := do
  let (value, _) ← Msgpack.decodeBy reader bytes
  view finder value

/-- Settings as a record. -/
def text (s : Settings κ ν) : String :=
  Text.ofFields "TableConfig" (fieldNames.zip
    [Text.ofOption Codec.label s.keyCodec, Text.ofOption Codec.label s.valueCodec, s.validation.name, s.keyStorage.name,
      s.offsetStorage.name, s.rangeChecking.name, toString s.signatureWidth, toString s.maxHeap, toString s.maxDataHeap,
      toString s.shardSize, Text.ofBool s.describeDuplicates, s.entryLine.recordText])

end Settings

end FrozenTable
