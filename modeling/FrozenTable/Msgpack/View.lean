import FrozenTable.Binary64
import FrozenTable.Msgpack.Decode
import FrozenTable.Text.Utf8
import FrozenTable.Word64

/-!
# Typed views of MessagePack values

What a value means where a number, a text, a sequence, a record or a choice is expected. Any integer form is accepted whose
number fits, integers and short floats are accepted for floats, and a byte string that is UTF-8 is accepted for a text. A byte
string is also the sequence of its bytes as numbers. A record is the sequence of all its fields, or a map in which unknown
fields are skipped and known ones stand at most once.
-/

namespace FrozenTable.Msgpack.Value

/-- An integer at least `low` and less than `high`. -/
def toInt? (low high : Int) : Value → Option Int
  | .int n => if low ≤ n ∧ n < high then some n else none
  | .signed n => if low ≤ n ∧ n < high then some n else none
  | _ => none

/-- A signed 64-bit integer. -/
def toSigned? (v : Value) : Option Int :=
  v.toInt? (-0x8000000000000000) 0x8000000000000000

/-- A natural number below `bound`. -/
def toNat? (bound : Nat) (v : Value) : Option Nat :=
  (v.toInt? 0 bound).map (·.toNat)

/-- A 64-bit natural number. -/
def toWord? (v : Value) : Option Nat :=
  v.toNat? 0x10000000000000000

/-- A 32-bit natural number. -/
def toHalf? (v : Value) : Option Nat :=
  v.toNat? 0x100000000

def toBool? : Value → Option Bool
  | .bool b => some b
  | _ => none

/-- The pattern of a 64-bit float. -/
def toFloat? : Value → Option UInt64
  | .float pattern => some pattern
  | .float32 pattern => some (Binary64.widen pattern)
  | .int n => some (Binary64.ofInt n)
  | .signed n => some (Binary64.ofInt n)
  | _ => none

def toText? : Value → Option String
  | .str bytes | .bin bytes => Utf8.decode? bytes
  | _ => none

/-- The bytes of a byte string as numbers. -/
def ofBytes (bytes : Bytes) : List Value :=
  bytes.map fun b => .nat b.toNat

/-- The items of an array. -/
def toArray? : Value → Option (List Value)
  | .array items => some items
  | .spelledEmpty => some []
  | _ => none

/-- The items of a sequence, which may be written as a byte string. -/
def toItems? : Value → Option (List Value)
  | .bin bytes => some (ofBytes bytes)
  | v => v.toArray?

/-- The items of a sequence of `count` things. Of a byte string only the first bytes count. -/
def toTuple? (count : Nat) : Value → Option (List Value)
  | .bin bytes => if count ≤ bytes.length then some (ofBytes (bytes.take count)) else none
  | v => v.toArray?.filter fun items => items.length == count

def toEntries? : Value → Option (List (Value × Value))
  | .map entries => some entries
  | _ => none

/-- A sequence of numbers below 256. -/
def toByteList? (v : Value) : Option Bytes := do
  let items ← v.toItems?
  items.mapM fun item => (item.toNat? 256).map UInt8.ofNat

/-- A byte string, which may be written as a sequence of numbers, or as a text that is not UTF-8. -/
def toBytes? : Value → Option Bytes
  | .bin bytes => some bytes
  | .str bytes => if (Utf8.decode? bytes).isNone then some bytes else none
  | v => v.toByteList?

/-- A value that may be absent. -/
def toOption? {α : Type} (view : Value → Option α) : Value → Option (Option α)
  | .nil => some none
  | v => (view v).map some

/-- The place of a name in a list of names, where the name may be given by its place, unless that is in a form for signed
numbers. A name that is not in the list has the length of the list for its place. -/
def place? (names : List String) : Value → Option Nat
  | .str bytes | .bin bytes => some (names.findIdx fun name => Bytes.ofText name == bytes)
  | .int n => if 0 ≤ n then some n.toNat else none
  | _ => none

/-- One of a list of named choices, by name or place. -/
def toChoice? {α : Type} (names : List (String × α)) : Value → Option α
  | .map [(name, .nil)] => do names[← name.place? (names.map (·.1))]?.map (·.2)
  | v => do names[← v.place? (names.map (·.1))]?.map (·.2)

/-- The fields of a record by place; a field that a map does not mention is absent. -/
def toFields? (names : List String) : Value → Option (List (Option Value))
  | .map entries => do
    let placed ← entries.mapM fun (name, value) => do pure (← name.place? names, value)
    if placed.all fun (place, _) => names.length ≤ place || (placed.filter (·.1 == place)).length == 1 then
      pure ((List.range names.length).map fun place => placed.lookup place)
    else none
  | v => (v.toTuple? names.length).map fun items => items.map some

/-- The value of a field that has to be there. -/
def required {α : Type} (view : Value → Option α) (field : Option Value) : Option α :=
  field.bind view

/-- The value of a field that may be absent. -/
def optional {α : Type} (view : Value → Option α) : Option Value → Option (Option α)
  | none => some none
  | some v => v.toOption? view

/-- A record without fields, such as a codec without parameters: nothing, or the empty array. -/
def toUnit? : Value → Option Unit
  | .nil => some ()
  | .array [] => some ()
  | _ => none

end FrozenTable.Msgpack.Value
