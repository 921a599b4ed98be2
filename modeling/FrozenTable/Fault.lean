import FrozenTable.AffineSize
import FrozenTable.Modes
import FrozenTable.Text.Utf8

/-!
# Causes of failure

Everything that can go wrong while a table is built, opened or read, as one type of causes. A cause has a kind, which is what
a caller acts on, and a wording, which is what a reader sees. Failures of the file store have a kind only.
-/

namespace FrozenTable

/-- The kinds of failure that a caller can tell apart. -/
inductive FaultKind where
  | invalidInput
  | invalidData
  | unexpectedEof
  | notFound
  | notADirectory
  | isADirectory
  | alreadyExists
  | directoryNotEmpty
  | unsupported
  | other
  /-- An index ran past the end of an array. -/
  | outOfBounds
  /-- A quotient did not fit a word. -/
  | overflow
  /-- None of the other kinds. -/
  | uncategorized
deriving DecidableEq, Repr

/-- What the file store can object to. -/
inductive FileFault where
  | notFound
  | notADirectory
  | isADirectory
  | alreadyExists
  | directoryNotEmpty
  | invalidPath
  | notMappable
deriving DecidableEq, Repr

/-- What keeps settings from describing a table. -/
inductive SettingsFlaw where
  | keyCodecMissing
  | fixedNeedsConstantSize
  | implicitNeedsSignature
  | signatureTooWide
deriving DecidableEq, Repr

/-- A cause of failure. -/
inductive Fault where
  -- decoding an item
  | shortRead
  | varintTruncated
  | varintTooLong
  | stringTruncated (length : Nat)
  | notUtf8 (flaw : Utf8.Flaw)
  | itemUndecodable
  | itemForeign
  -- settings
  | badSettings (flaw : SettingsFlaw)
  | keyCodecMissing
  -- building
  | valueMissing
  | duplicateFingerprint (fingerprint : Nat)
  | duplicateEntries (entries : List String)
  | hashUnresolvable (keys : Nat)
  | outputNotDirectory (path : String)
  | bucketTaken (key : String)
  | sizeOffLine (size : Nat) (line : AffineSize)
  | recordTooLarge (size : Nat)
  | entriesChanged (hashed written : Nat)
  | dataSizeDiffers (declared written : Nat)
  | shardTruncated
  -- decoding a descriptor
  | descriptorTruncated (size : Nat)
  | badMagic (number : Nat)
  | badVersion (version : Nat)
  | descriptorUndecodable
  | offsetsUnresolved
  -- resolving offsets
  | offsetsRequired
  | offsetsTruncated (bucket : Nat)
  | selectRequired
  -- opening
  | dataSizeMismatch (held expected : Nat)
  | offsetsTooShort (held expected : Nat)
  | selectTooShort (held : Nat)
  | offsetsUnexpected (storage : OffsetStorage)
  -- looking up
  | tableClosed
  | offsetPastEnd (offset : Nat)
  | bucketOutOfRange (bucket count : Nat)
  | keysImplicit
  | storedKeyMissing
  -- maps and shared handles
  | immutable
  | imageTooLarge (size : Nat)
  | imageOversized
  | handleClosed
  -- the world around
  | file (fault : FileFault)
  | outOfBounds
  | quotientOverflow
deriving DecidableEq, Repr

def SettingsFlaw.message : SettingsFlaw → String
  | .keyCodecMissing => "a key codec is required"
  | .fixedNeedsConstantSize => "fixed offset storage requires a constant entry size"
  | .implicitNeedsSignature => "implicit key storage requires a signature width"
  | .signatureTooWide => "signature width cannot exceed 64 bits"

def Utf8.Flaw.message (flaw : Utf8.Flaw) : String :=
  match flaw.length with
  | some length => "invalid utf-8 sequence of " ++ toString length ++ " bytes from index " ++ toString flaw.index
  | none => "incomplete utf-8 byte sequence from index " ++ toString flaw.index

def FileFault.kind : FileFault → FaultKind
  | .notFound => .notFound
  | .notADirectory => .notADirectory
  | .isADirectory => .isADirectory
  | .alreadyExists => .alreadyExists
  | .directoryNotEmpty => .directoryNotEmpty
  | .invalidPath => .invalidInput
  | .notMappable => .uncategorized

namespace Fault

/-- The kind of a cause. -/
def kind : Fault → FaultKind
  | shortRead | varintTruncated | stringTruncated _ => .unexpectedEof
  | varintTooLong | notUtf8 _ | itemUndecodable => .invalidData
  | itemForeign => .invalidInput
  | badSettings _ | keyCodecMissing => .invalidInput
  | valueMissing | duplicateFingerprint _ | duplicateEntries _ | hashUnresolvable _ | outputNotDirectory _ | bucketTaken _
  | sizeOffLine _ _ | recordTooLarge _ | entriesChanged _ _ | dataSizeDiffers _ _ => .invalidInput
  | shardTruncated => .invalidData
  | descriptorTruncated _ | badMagic _ | badVersion _ | descriptorUndecodable | offsetsUnresolved => .invalidData
  | offsetsRequired | selectRequired => .invalidInput
  | offsetsTruncated _ => .invalidData
  | dataSizeMismatch _ _ | offsetsTooShort _ _ | selectTooShort _ | offsetsUnexpected _ => .invalidData
  | tableClosed | handleClosed => .other
  | offsetPastEnd _ | storedKeyMissing => .invalidData
  | bucketOutOfRange _ _ => .invalidInput
  | keysImplicit | immutable => .unsupported
  | imageTooLarge _ => .invalidInput
  | imageOversized => .invalidData
  | file fault => fault.kind
  | outOfBounds => .outOfBounds
  | quotientOverflow => .overflow

/-- Whether a fault is no answer to what was asked, but the end of all that was going on. -/
def isFatal (fault : Fault) : Bool :=
  fault.kind == .outOfBounds || fault.kind == .overflow

/-- The fatal fault of a result, if it has one. -/
def fatalIn {α : Type} : Except Fault α → Option Fault
  | .error fault => if fault.isFatal then some fault else none
  | .ok _ => none

/-- The wording of a cause; none for failures of the file store, for an index out of bounds and for a quotient that is no
word. -/
def message : Fault → Option String
  | shortRead => "failed to fill whole buffer"
  | varintTruncated => "varint runs past the end of the data"
  | varintTooLong => "varint is longer than 10 bytes"
  | stringTruncated length => "string of " ++ toString length ++ " bytes runs past the end of the data"
  | notUtf8 flaw => "Invalid UTF-8 string: " ++ flaw.message
  | itemUndecodable => "Failed to deserialize item"
  | itemForeign => "Item is not of the type of the codec"
  | badSettings flaw => "Invalid table config: " ++ flaw.message
  | keyCodecMissing => "table config has no key codec"
  | valueMissing => "Can't store an entry without a value in a table with a value codec"
  | duplicateFingerprint fingerprint => "duplicate key (fingerprint " ++ Text.hexPadded 32 fingerprint ++ ")"
  | duplicateEntries entries => "duplicate key: " ++ " == ".intercalate entries
  | hashUnresolvable keys => "perfect hash function does not separate " ++ toString keys ++ " keys"
  | outputNotDirectory path => "Output path " ++ path ++ " is not a directory"
  | bucketTaken key => "Key " ++ key ++ " maps to a bucket that is already assigned"
  | sizeOffLine size line => "Entry of " ++ toString size ++ " bytes does not fit the entry size equation " ++ line.text
  | recordTooLarge size => "Entry of " ++ toString size ++ " bytes is too large"
  | entriesChanged hashed written =>
    "Entries changed between passes: hashed " ++ toString hashed ++ ", wrote " ++ toString written
  | dataSizeDiffers declared written =>
    "Declared data size " ++ toString declared ++ " does not match serialized size " ++ toString written
  | shardTruncated => "Temporary shard is truncated"
  | descriptorTruncated size => "Metadata file is truncated: " ++ toString size ++ " bytes"
  | badMagic number => "Invalid magic number: " ++ Text.hexPadded 16 number
  | badVersion version => "Unsupported table version: " ++ toString version
  | descriptorUndecodable => "Failed to deserialize TableMeta"
  | offsetsUnresolved => "Table metadata has no resolved offset storage"
  | offsetsRequired => "indexed table requires offsets"
  | offsetsTruncated bucket => "Offsets file is truncated at bucket " ++ toString bucket
  | selectRequired => "selected table requires a select structure"
  | dataSizeMismatch held expected =>
    "Data file holds " ++ toString held ++ " bytes, metadata expects " ++ toString expected
  | offsetsTooShort held expected =>
    "Offsets file holds " ++ toString held ++ " bytes, metadata expects " ++ toString expected
  | selectTooShort held => "Select bits file is truncated: " ++ toString held ++ " bytes"
  | offsetsUnexpected storage => "Offsets do not match " ++ storage.name ++ " offset storage"
  | tableClosed => "table has been closed"
  | offsetPastEnd offset => "Entry offset " ++ toString offset ++ " is past the end of the data"
  | bucketOutOfRange bucket count =>
    "Hash " ++ toString bucket ++ " is out of range for " ++ toString count ++ " entries"
  | keysImplicit => "Can't iterate over a table with implicit keys"
  | storedKeyMissing => "Stored key is missing"
  | immutable => "MphMaps are immutable"
  | imageTooLarge size => "MphMap of " ++ toString size ++ " bytes is too large to serialize"
  | imageOversized => "MphMap image exceeds the maximum serialized size"
  | handleClosed => "table was already closed"
  | file _ => none
  | outOfBounds => none
  | quotientOverflow => none

end Fault

end FrozenTable
