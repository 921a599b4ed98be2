import FrozenTable.Binary64
import FrozenTable.Text.Quoted

/-!
# Counting lookups

A table counts how its lookups end: turned away before any data is read, turned away by the acceptance, or answered.
-/

namespace FrozenTable

/-- How many lookups ended how. -/
structure Tally where
  /-- Turned away by the perfect hash or by the range of keys. -/
  filtered : Nat
  /-- Turned away by the acceptance. -/
  missing : Nat
  retrieved : Nat
deriving DecidableEq, Repr

namespace Tally

def zero : Tally :=
  ⟨0, 0, 0⟩

/-- How many lookups there were. -/
def requests (t : Tally) : Nat :=
  t.filtered + t.missing + t.retrieved

/-- A count with its share of all lookups. -/
def shareText (t : Tally) (name : String) (part : Nat) : String :=
  name ++ ": " ++ toString part ++ " (" ++ Binary64.twoPlaces (Binary64.percent part (max t.requests 1)) ++ "%)"

/-- The tally as a line. -/
def text (t : Tally) : String :=
  ", ".intercalate
    ["requests: " ++ toString t.requests, t.shareText "filtered" t.filtered, t.shareText "missing" t.missing,
      t.shareText "retrieved" t.retrieved]

/-- The tally as a record. -/
def recordText (t : Tally) : String :=
  Text.ofFields "TableStats"
    [("filtered", toString t.filtered), ("missing", toString t.missing), ("retrieved", toString t.retrieved)]

end Tally

end FrozenTable
