import FrozenTable.Item.Basic

/-!
# Entries

What a table is built from: keys, each with a value or, where a table has no values, alone.
-/

namespace FrozenTable

/-- An entry of a table: a key, and its value where there are values. -/
structure Entry (κ ν : Type) where
  key : κ
  value : Option ν
deriving Repr, DecidableEq

namespace Entry

variable {κ ν : Type}

/-- An entry without a value. -/
def ofKey (key : κ) : Entry κ ν :=
  ⟨key, none⟩

/-- An entry with a value. -/
def ofPair (pair : κ × ν) : Entry κ ν :=
  ⟨pair.1, some pair.2⟩

/-- The key and the value of an entry that has one. -/
def toPair? (entry : Entry κ ν) : Option (κ × ν) :=
  entry.value.map fun value => (entry.key, value)

/-- The entries, of those with one key the last. -/
def lastOfEach [DecidableEq κ] : List (Entry κ ν) → List (Entry κ ν)
  | [] => []
  | entry :: entries =>
    let others := lastOfEach entries
    if others.any fun other => other.key = entry.key then others else entry :: others

/-- An entry as messages tell it. -/
def text [Spelled κ] [Spelled ν] (entry : Entry κ ν) : String :=
  match entry.value with
  | some value => Spelled.spell entry.key ++ " (" ++ Spelled.spell value ++ ")"
  | none => Spelled.spell entry.key

/-- An entry as a record. -/
def recordText [Spelled κ] [Spelled ν] (entry : Entry κ ν) : String :=
  Text.ofFields "StoredEntry"
    [("key", Spelled.spell entry.key), ("value", Text.ofOption Spelled.spell entry.value)]

/-- The key of an entry that is a key alone, as a record. -/
def keyText [Spelled κ] (entry : Entry κ ν) : String :=
  "KeyOnly(" ++ Spelled.spell entry.key ++ ")"

end Entry

end FrozenTable
