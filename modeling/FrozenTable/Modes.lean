/-!
# The modes of a table

The choices a table is built with: whether keys are kept beside their values, how a bucket is mapped to the offset of its
record, whether lookups are checked against the smallest and largest key, and whether a found record is compared with the
key that was asked for. Each choice has a name under which it is persisted.
-/

namespace FrozenTable

/-- Whether records carry their keys. -/
inductive KeyStorage where
  /-- Keys stand in front of their values. -/
  | explicit
  /-- Keys are dropped; unknown keys are kept out by signatures only. -/
  | implicit
deriving DecidableEq, Repr

/-- How a bucket is mapped to the offset of its record. -/
inductive OffsetStorage where
  /-- Picked among the other modes once the data size is known. -/
  | automatic
  /-- One offset of fixed width for each bucket. -/
  | indexed
  /-- Offsets compressed into a bit vector that is queried by select. -/
  | selected
  /-- Offsets computed from the bucket number; records must be of one size. -/
  | fixed
deriving DecidableEq, Repr

/-- Whether the smallest and largest key are kept to turn away keys outside of them. -/
inductive RangeChecking where
  | disabled
  | minAndMax
  /-- Only when keys are not stored. -/
  | automatic
deriving DecidableEq, Repr

/-- Whether a found record is compared with the key that was asked for. -/
inductive KeyValidation where
  | disabled
  | equality
deriving DecidableEq, Repr

/-- The names of the key storages, in order. -/
def KeyStorage.names : List (String × KeyStorage) :=
  [("Explicit", .explicit), ("Implicit", .implicit)]

/-- The names of the offset storages, in order. -/
def OffsetStorage.names : List (String × OffsetStorage) :=
  [("Automatic", .automatic), ("Indexed", .indexed), ("Selected", .selected), ("Fixed", .fixed)]

/-- The names of the range checks, in order. -/
def RangeChecking.names : List (String × RangeChecking) :=
  [("Disabled", .disabled), ("MinAndMax", .minAndMax), ("Automatic", .automatic)]

/-- The names of the key validations, in order. -/
def KeyValidation.names : List (String × KeyValidation) :=
  [("Disabled", .disabled), ("Equality", .equality)]

/-- The name a choice goes by in a list of names. -/
def nameIn {α : Type} [DecidableEq α] (names : List (String × α)) (x : α) : String :=
  match names.find? fun entry => decide (entry.2 = x) with
  | some (name, _) => name
  | none => ""

def KeyStorage.name (x : KeyStorage) : String := nameIn KeyStorage.names x
def OffsetStorage.name (x : OffsetStorage) : String := nameIn OffsetStorage.names x
def RangeChecking.name (x : RangeChecking) : String := nameIn RangeChecking.names x
def KeyValidation.name (x : KeyValidation) : String := nameIn KeyValidation.names x

end FrozenTable
