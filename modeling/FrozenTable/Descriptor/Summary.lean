import FrozenTable.Descriptor.Basic

/-!
# Summaries

What a build tells about the table it made. Its text is a JSON object, with a field to a line.
-/

namespace FrozenTable

/-- What is told about a table. -/
structure Summary where
  version : Nat
  timestamp : Nat
  entryCount : Nat
  dataSize : Nat
  byteSize : Nat
  keyStorage : KeyStorage
  offsetStorage : OffsetStorage
  entryLine : AffineSize
  signatureWidth : Nat
  offsetWidth : Nat
  hashSize : Nat
  /-- How many bits the vector of selected offsets has. -/
  selectBits : Option Nat
  needsOffsetsFile : Bool
  rangeChecked : Bool
deriving DecidableEq, Repr

/-- The summary of a descriptor. -/
def Descriptor.summary {κ ν : Type} (d : Descriptor κ ν) : Except Fault Summary := do
  let byteSize ← d.byteSize
  let selectBits ← if d.settings.offsetStorage = .selected then some <$> d.selectBits else pure none
  pure {
    version := d.version
    timestamp := d.timestamp
    entryCount := d.count
    dataSize := d.dataSize
    byteSize
    keyStorage := d.settings.keyStorage
    offsetStorage := d.settings.offsetStorage
    entryLine := d.settings.entryLine
    signatureWidth := d.hash.signatureWidth
    offsetWidth := d.offsetWidth
    hashSize := d.hash.byteSize
    selectBits
    needsOffsetsFile := d.needsOffsetsFile
    rangeChecked := d.minKey.isSome }

namespace Summary

/-- The value of a field. -/
inductive Datum where
  | number (n : Int)
  | name (text : String)
  | flag (b : Bool)
  | absent
  | group (fields : List (String × Int))
deriving DecidableEq, Repr

/-- The fields of a summary under the names they are told by, in order. -/
def fields (s : Summary) : List (String × Datum) :=
  [("version", .number s.version), ("timestamp", .number s.timestamp), ("entry_count", .number s.entryCount),
    ("data_size", .number s.dataSize), ("size_in_bytes", .number s.byteSize), ("key_storage", .name s.keyStorage.name),
    ("offset_storage", .name s.offsetStorage.name),
    ("entry_size", .group [("slope", s.entryLine.slope), ("constant", s.entryLine.constant)]),
    ("signature_width", .number s.signatureWidth), ("bytes_per_offset", .number s.offsetWidth),
    ("mph_size_in_bytes", .number s.hashSize),
    ("select_bits", match s.selectBits with | some n => .number n | none => .absent),
    ("has_offsets_file", .flag s.needsOffsetsFile), ("range_checked", .flag s.rangeChecked)]

/-- Fields in braces, one to a line, behind `indent`. -/
def block (indent : String) (fields : List (String × String)) : String :=
  let line (field : String × String) := indent ++ "  \"" ++ field.1 ++ "\": " ++ field.2
  "\x7b\n" ++ ",\n".intercalate (fields.map line) ++ "\n" ++ indent ++ "\x7d"

/-- The text of the value of a field. -/
def Datum.text : Datum → String
  | number n => toString n
  | name text => "\"" ++ text ++ "\""
  | flag b => Text.ofBool b
  | absent => "null"
  | group fields => block "  " (fields.map fun (field, n) => (field, toString n))

/-- The text of a summary. -/
def text (s : Summary) : String :=
  block "" (s.fields.map fun (name, datum) => (name, datum.text))

end Summary

end FrozenTable
