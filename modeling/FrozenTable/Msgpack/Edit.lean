import FrozenTable.Msgpack.Value

/-!
# Editing MessagePack values

The value of one field of a record exchanged for another, wherever the field stands: maps are searched from front to back and
the maps inside their values in passing. Fields have texts for names.
-/

namespace FrozenTable.Msgpack

/-- Whether two values are the same text. -/
def Value.sameText : Value → Value → Bool
  | .str a, .str b => a == b
  | _, _ => false

mutual

/-- The value with the first field of a name given another value; none if there is no such field. -/
def Value.setField? (name new : Value) : Value → Option Value
  | .map entries => (setAmong? name new entries).map .map
  | _ => none
termination_by v => sizeOf v

/-- Entries with the first field of a name given another value. -/
def setAmong? (name new : Value) : List (Value × Value) → Option (List (Value × Value))
  | [] => none
  | (key, value) :: entries =>
    if key.sameText name then some ((key, new) :: entries)
    else match Value.setField? name new value with
      | some value => some ((key, value) :: entries)
      | none => (setAmong? name new entries).map fun entries => (key, value) :: entries
termination_by entries => sizeOf entries

end

end FrozenTable.Msgpack
