import FrozenTable.Codec.Basic
import FrozenTable.Modes

/-!
# Settings of a table

What a table is built with: its codecs, its modes, and its limits. The settings also keep the line on which the sizes of whole
records lie. That line follows from the codecs and the key storage, and every change to one of these works it out anew.
-/

namespace FrozenTable

/-- The settings of a table with keys of type `κ` and values of type `ν`. -/
structure Settings (κ ν : Type) where
  keyCodec : Option (Codec κ)
  /-- None for a table without values. -/
  valueCodec : Option (Codec ν)
  validation : KeyValidation
  keyStorage : KeyStorage
  offsetStorage : OffsetStorage
  rangeChecking : RangeChecking
  /-- How many bits of its signature are kept for each key. -/
  signatureWidth : Nat
  /-- Above how many bytes offsets are mapped from their file; zero for never. -/
  maxHeap : Nat
  /-- Below how many bytes the data of a table without an offsets file is read into memory. -/
  maxDataHeap : Nat
  /-- How many bytes a shard is meant to have while a table is built. -/
  shardSize : Nat
  /-- Whether entries with the same key are told in full. -/
  describeDuplicates : Bool
  /-- The line of the sizes of whole records. -/
  entryLine : AffineSize

/-- How many bytes a shard is meant to have unless the settings say otherwise. -/
def defaultShardSize : Nat := 64 * 1024 * 1024

/-- A change to one of the settings. -/
inductive Settings.Change (κ ν : Type) where
  | keyCodec (codec : Codec κ)
  | valueCodec (codec : Codec ν)
  | validation (validation : KeyValidation)
  | keyStorage (storage : KeyStorage)
  | offsetStorage (storage : OffsetStorage)
  | rangeChecking (checking : RangeChecking)
  | signatureWidth (width : Nat)
  | maxHeap (limit : Nat)
  | maxDataHeap (limit : Nat)
  | shardSize (size : Nat)
  | describeDuplicates (on : Bool)

namespace Settings

variable {κ ν : Type}

/-- The settings before any change. -/
def initial : Settings κ ν where
  keyCodec := none
  valueCodec := none
  validation := .equality
  keyStorage := .explicit
  offsetStorage := .automatic
  rangeChecking := .disabled
  signatureWidth := 0
  maxHeap := 0
  maxDataHeap := 0
  shardSize := defaultShardSize
  describeDuplicates := false
  entryLine := .always 0

/-- Whether records carry their keys. -/
def storesKeys (s : Settings κ ν) : Bool :=
  s.keyStorage == .explicit

/-- The line of a codec; sizes that are not known to lie on one lie on the line of all numbers. -/
def lineOf {α : Type} (codec : Codec α) : AffineSize :=
  codec.sizeLine.getD (.multipleOf 1)

/-- The line of the sizes of keys inside records. -/
def keyLine (s : Settings κ ν) : AffineSize :=
  match s.keyCodec with
  | some codec => if s.storesKeys then lineOf codec else .always 0
  | none => .always 0

/-- The line of the sizes of values. -/
def valueLine (s : Settings κ ν) : AffineSize :=
  match s.valueCodec with
  | some codec => lineOf codec
  | none => .always 0

/-- The settings with the line of records worked out anew. -/
def refreshed (s : Settings κ ν) : Settings κ ν :=
  { s with entryLine := s.keyLine.add s.valueLine }

/-- The settings after a change. -/
def change (s : Settings κ ν) : Change κ ν → Settings κ ν
  | .keyCodec codec => refreshed { s with keyCodec := some codec }
  | .valueCodec codec => refreshed { s with valueCodec := some codec }
  | .validation validation => { s with validation }
  | .keyStorage keyStorage => refreshed { s with keyStorage }
  | .offsetStorage offsetStorage => { s with offsetStorage }
  | .rangeChecking rangeChecking => { s with rangeChecking }
  | .signatureWidth signatureWidth => { s with signatureWidth }
  | .maxHeap maxHeap => { s with maxHeap }
  | .maxDataHeap maxDataHeap => { s with maxDataHeap }
  | .shardSize shardSize => { s with shardSize }
  | .describeDuplicates describeDuplicates => { s with describeDuplicates }

/-- The settings after some changes, in order. -/
def changed (s : Settings κ ν) (changes : List (Change κ ν)) : Settings κ ν :=
  changes.foldl change s

/-- Whether records have values. -/
def hasValues (s : Settings κ ν) : Bool :=
  s.valueCodec.isSome

/-- Whether the smallest and largest key are kept. -/
def tracksRange (s : Settings κ ν) : Bool :=
  match s.rangeChecking with
  | .disabled => false
  | .minAndMax => true
  | .automatic => s.keyStorage == .implicit

/-- The first thing that keeps these settings from describing a table. -/
def flaw (s : Settings κ ν) : Option SettingsFlaw :=
  if s.keyCodec.isNone then some .keyCodecMissing
  else if s.offsetStorage = .fixed ∧ ¬ s.entryLine.isConstant then some .fixedNeedsConstantSize
  else if s.keyStorage = .implicit ∧ s.signatureWidth = 0 then some .implicitNeedsSignature
  else if 64 < s.signatureWidth then some .signatureTooWide
  else none

/-- Fails unless the settings describe a table. -/
def validate (s : Settings κ ν) : Except Fault Unit :=
  match s.flaw with
  | some flaw => .error (.badSettings flaw)
  | none => .ok ()

/-- Whether the settings describe a table. -/
def isValid (s : Settings κ ν) : Bool :=
  s.flaw.isNone

end Settings

end FrozenTable
