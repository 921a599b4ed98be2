import FrozenTable.Lookup.Table

/-!
# Auditing a table

An audit compares a table with entries: it looks up each of them and counts what the table has to say. A lookup may fail,
which is counted too, but a fatal fault ends the audit.
-/

namespace FrozenTable

/-- What an audit counts. -/
structure Audit where
  /-- Lookups without a value. -/
  absent : Nat
  /-- Lookups with the value of the entry. -/
  equal : Nat
  /-- Lookups with another value. -/
  other : Nat
  /-- Lookups that failed. -/
  failed : Nat
  /-- Keys that the table says it has. -/
  contained : Nat
deriving DecidableEq, Repr

namespace Audit

variable {κ ν : Type}

def zero : Audit :=
  ⟨0, 0, 0, 0, 0⟩

/-- What is counted where no table is left to look `n` entries up in. -/
def failing (n : Nat) : Audit :=
  { zero with failed := n }

/-- Counts what a table answers for a value. -/
def countValue [DecidableEq ν] (a : Audit) (expected : Option ν) : Except Fault (Option ν) → Except Fault Audit
  | .ok none => .ok { a with absent := a.absent + 1 }
  | .ok (some value) =>
    .ok (if expected = some value then { a with equal := a.equal + 1 } else { a with other := a.other + 1 })
  | .error fault => if fault.isFatal then .error fault else .ok { a with failed := a.failed + 1 }

/-- Counts whether a table says that it has a key. -/
def countKey (a : Audit) : Except Fault Bool → Except Fault Audit
  | .ok true => .ok { a with contained := a.contained + 1 }
  | .ok false => .ok a
  | .error fault => if fault.isFatal then .error fault else .ok a

/-- Looks an entry up. -/
def step [Ord κ] [DecidableEq ν] (table : Table κ ν) (a : Audit) (entry : Entry κ ν) : Table κ ν × Except Fault Audit :=
  let (table, value) := table.get entry.key
  match a.countValue entry.value value with
  | .error fault => (table, .error fault)
  | .ok a =>
    let (table, contained) := table.contains entry.key
    (table, a.countKey contained)

/-- Looks entries up, one after the other. -/
def runFrom [Ord κ] [DecidableEq ν] (table : Table κ ν) (a : Audit) :
    List (Entry κ ν) → Table κ ν × Except Fault Audit
  | [] => (table, .ok a)
  | entry :: entries =>
    match step table a entry with
    | (table, .ok a) => runFrom table a entries
    | (table, .error fault) => (table, .error fault)

/-- The audit of a table against entries, with the table behind it. -/
def run [Ord κ] [DecidableEq ν] (table : Table κ ν) (entries : List (Entry κ ν)) : Table κ ν × Except Fault Audit :=
  runFrom table zero entries

end Audit

end FrozenTable
