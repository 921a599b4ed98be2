import FrozenTable.Msgpack.View

/-!
# Reading records

A record is read by readers of its fields. Nearly all kinds of values end where their bytes end; a named choice differs in
one of its forms, the array that holds the name alone, where a nil behind the array belongs to the choice. So a reader that
expects a choice may go one byte further than a reader that expects nothing in particular.
-/

namespace FrozenTable.Msgpack

/-- What reads a value of at most so many levels from the front of a byte string. -/
abbrev Reader :=
  (levels : Nat) → Bytes → Option (Value × Bytes)

/-- Reads a named choice. -/
def readChoice : Reader
  | levels, input =>
    match readHead input with
    | some (.array 1, rest) => do
      let (name, rest) ← readValue levels rest
      match ← readValue levels rest with
      | (.nil, rest) => pure (.map [(name, .nil)], rest)
      | _ => none
    | _ => readValue levels input

/-- Reads values one after the other, each by a reader of its own. -/
def readEach : List (Bytes → Option (Value × Bytes)) → Bytes → Option (List Value × Bytes)
  | [], input => some ([], input)
  | read :: readers, input => do
    let (item, rest) ← read input
    let (items, rest) ← readEach readers rest
    pure (item :: items, rest)

/-- The reader of the field with a name, or of any value where there is no such field. -/
def fieldReader (fields : List (String × Reader)) (name : Value) : Reader :=
  match (name.place? (fields.map (·.1))).bind (fields[·]?) with
  | some (_, reader) => reader
  | none => readValue

/-- Reads the name of a field and its value. -/
def readField (fields : List (String × Reader)) (levels : Nat) (input : Bytes) : Option ((Value × Value) × Bytes) := do
  let (name, rest) ← readValue levels input
  let (value, rest) ← fieldReader fields name levels rest
  pure ((name, value), rest)

/-- Reads a record whose fields have readers. -/
def readRecord (fields : List (String × Reader)) : Reader
  | levels, input =>
    match readHead input, levels with
    | some (.array length, rest), levels + 1 =>
      if length = fields.length then
        (readEach (fields.map fun (_, reader) => reader levels) rest).map fun (items, rest) => (.array items, rest)
      else none
    | some (.map length, rest), levels + 1 =>
      (readMany (readField fields levels) length rest).map fun (entries, rest) => (.map entries, rest)
    | _, _ => readValue levels input

/-- Reads one value of a known kind from the front of a byte string. -/
def decodeBy (reader : Reader) (input : Bytes) : Option (Value × Bytes) :=
  reader maxLevels input

end FrozenTable.Msgpack
