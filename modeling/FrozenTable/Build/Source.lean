import FrozenTable.Settings.Record
import FrozenTable.Fingerprint
import FrozenTable.Item.Basic

/-!
# Sources of entries

A build passes over its entries more than once: first to hash the keys, then to write the records, and once more where entries
with the same key are to be told. A source says what it yields on the first pass and on every later one; a pass ends with the
first fault in it.
-/

namespace FrozenTable

/-- What the passes over some entries yield. -/
structure Source (κ ν : Type) where
  first : List (Except Fault (Entry κ ν))
  later : List (Except Fault (Entry κ ν))

namespace Source

variable {κ ν : Type}

/-- The source that yields the same entries on every pass. -/
def ofEntries (entries : List (Entry κ ν)) : Source κ ν :=
  ⟨entries.map .ok, entries.map .ok⟩

/-- The source that yields other entries on later passes. -/
def changing (first later : List (Entry κ ν)) : Source κ ν :=
  ⟨first.map .ok, later.map .ok⟩

end Source

/-- Fails for an entry without a value where records have values. -/
def Settings.needValue {κ ν : Type} (s : Settings κ ν) (entry : Entry κ ν) : Except Fault Unit :=
  if s.hasValues ∧ entry.value.isNone then .error .valueMissing else .ok ()

/-- What the first pass finds out. -/
structure Scan (κ : Type) where
  /-- The fingerprints of the keys. -/
  fingerprints : List Fingerprint
  /-- The sum of the sizes of the records, as far as it was asked for. -/
  dataSize : Nat
  /-- The smallest and largest key, if they were asked for and there is a key. -/
  range : Option (κ × κ)

namespace Scan

variable {κ ν : Type} [Ord κ]

/-- Before the first entry. -/
def empty : Scan κ :=
  ⟨[], 0, none⟩

/-- A range made wide enough for a key. -/
def widen (range : Option (κ × κ)) (key : κ) : κ × κ :=
  match range with
  | none => (key, key)
  | some (low, high) =>
    (if compare key low = .lt then key else low, if compare key high = .gt then key else high)

/-- Takes in an entry. -/
def step (s : Settings κ ν) (sized : Bool) (scan : Scan κ) (entry : Entry κ ν) : Except Fault (Scan κ) := do
  s.needValue entry
  let bytes ← s.keyBytes entry.key
  let size ← if sized then pure 0 else s.recordSize entry
  pure {
    fingerprints := .ofBytes bytes :: scan.fingerprints
    dataSize := scan.dataSize + size
    range := if s.tracksRange then some (widen scan.range entry.key) else none }

/-- Passes over the entries. Sizes are not added up where the size of the data is given. -/
def run (s : Settings κ ν) (sized : Bool) (entries : List (Except Fault (Entry κ ν))) : Except Fault (Scan κ) :=
  entries.foldlM (fun scan entry => do scan.step s sized (← entry)) empty

end Scan

/-- The texts of at most `limit` entries whose keys have a fingerprint, among the entries of a pass. -/
def tellDuplicates {κ ν : Type} [Spelled κ] [Spelled ν] (s : Settings κ ν) (f : Fingerprint) :
    (limit : Nat) → List (Except Fault (Entry κ ν)) → Except Fault (List String)
  | 0, _ => .ok []
  | _ + 1, [] => .ok []
  | limit + 1, entry :: entries => do
    let entry ← entry
    if Fingerprint.ofBytes (← s.keyBytes entry.key) = f then
      pure (entry.text :: (← tellDuplicates s f limit entries))
    else tellDuplicates s f (limit + 1) entries

end FrozenTable
