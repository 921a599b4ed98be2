import FrozenTable.Bytes

/-!
# MessagePack values

The data model of MessagePack and the bytes of a value. Integers are written in the shortest form that holds them and lengths in
the shortest form for their kind.
-/

namespace FrozenTable.Msgpack

/-- A MessagePack value. Texts are kept as bytes, because a reader that skips one does not look at its encoding. -/
inductive Value where
  | nil
  | bool (b : Bool)
  | int (n : Int)
  /-- A natural number in one of the forms for signed numbers. It counts as the number, but it is no name. -/
  | signed (n : Nat)
  /-- A 64-bit float by its pattern. -/
  | float (pattern : UInt64)
  /-- A 32-bit float by its pattern. -/
  | float32 (pattern : UInt32)
  | str (utf8 : Bytes)
  | bin (bytes : Bytes)
  /-- Bytes with a meaning of their own, told by a type. -/
  | ext (type : UInt8) (bytes : Bytes)
  | array (items : List Value)
  /-- The array without items in one of the forms that spell out the length. It counts as an array, but it is no unit. -/
  | spelledEmpty
  | map (entries : List (Value × Value))
deriving Repr, BEq, Inhabited

/-- The text `t` as a value. -/
def Value.text (t : String) : Value :=
  .str (Bytes.ofText t)

/-- A natural number as a value. -/
def Value.nat (n : Nat) : Value :=
  .int n

/-- A value that may be absent. -/
def Value.ofOption {α : Type} (value : α → Value) : Option α → Value
  | none => .nil
  | some x => value x

/-- A record as a map from the names of its fields, in order. -/
def Value.record (fields : List (String × Value)) : Value :=
  .map (fields.map fun (name, value) => (.text name, value))

/-- A record as the array of its fields, in order. -/
def Value.tuple (fields : List (String × Value)) : Value :=
  .array (fields.map (·.2))

/-- The bytes of an integer. -/
def encodeInt (n : Int) : Bytes :=
  if 0 ≤ n then
    let m := n.toNat
    if m < 0x80 then [UInt8.ofNat m]
    else if m < 0x100 then 0xCC :: Bytes.bigEndian 1 m
    else if m < 0x10000 then 0xCD :: Bytes.bigEndian 2 m
    else if m < 0x100000000 then 0xCE :: Bytes.bigEndian 4 m
    else 0xCF :: Bytes.bigEndian 8 m
  else
    let m := (n % 0x10000000000000000).toNat
    if -0x20 ≤ n then [UInt8.ofNat m]
    else if -0x80 ≤ n then 0xD0 :: Bytes.bigEndian 1 m
    else if -0x8000 ≤ n then 0xD1 :: Bytes.bigEndian 2 m
    else if -0x80000000 ≤ n then 0xD2 :: Bytes.bigEndian 4 m
    else 0xD3 :: Bytes.bigEndian 8 m

/-- The head of a text of `n` bytes. -/
def strHead (n : Nat) : Bytes :=
  if n < 0x20 then [UInt8.ofNat (0xA0 + n)]
  else if n < 0x100 then 0xD9 :: Bytes.bigEndian 1 n
  else if n < 0x10000 then 0xDA :: Bytes.bigEndian 2 n
  else 0xDB :: Bytes.bigEndian 4 n

/-- The head of a byte string of `n` bytes. -/
def binHead (n : Nat) : Bytes :=
  if n < 0x100 then 0xC4 :: Bytes.bigEndian 1 n
  else if n < 0x10000 then 0xC5 :: Bytes.bigEndian 2 n
  else 0xC6 :: Bytes.bigEndian 4 n

/-- The head of `n` bytes with a type, up to the type. -/
def extHead (n : Nat) : Bytes :=
  if n = 1 then [0xD4]
  else if n = 2 then [0xD5]
  else if n = 4 then [0xD6]
  else if n = 8 then [0xD7]
  else if n = 16 then [0xD8]
  else if n < 0x100 then 0xC7 :: Bytes.bigEndian 1 n
  else if n < 0x10000 then 0xC8 :: Bytes.bigEndian 2 n
  else 0xC9 :: Bytes.bigEndian 4 n

/-- The head of an array of `n` items. -/
def arrayHead (n : Nat) : Bytes :=
  if n < 0x10 then [UInt8.ofNat (0x90 + n)]
  else if n < 0x10000 then 0xDC :: Bytes.bigEndian 2 n
  else 0xDD :: Bytes.bigEndian 4 n

/-- The head of a map of `n` entries. -/
def mapHead (n : Nat) : Bytes :=
  if n < 0x10 then [UInt8.ofNat (0x80 + n)]
  else if n < 0x10000 then 0xDE :: Bytes.bigEndian 2 n
  else 0xDF :: Bytes.bigEndian 4 n

mutual

/-- The bytes of a value. -/
def encode : Value → Bytes
  | .nil => [0xC0]
  | .bool b => [if b then 0xC3 else 0xC2]
  | .int n => encodeInt n
  | .signed n => 0xD3 :: Bytes.bigEndian 8 n
  | .float pattern => 0xCB :: Bytes.bigEndian 8 pattern.toNat
  | .float32 pattern => 0xCA :: Bytes.bigEndian 4 pattern.toNat
  | .str utf8 => strHead utf8.length ++ utf8
  | .bin bytes => binHead bytes.length ++ bytes
  | .ext type bytes => extHead bytes.length ++ type :: bytes
  | .array items => arrayHead items.length ++ encodeItems items
  | .spelledEmpty => 0xDC :: Bytes.bigEndian 2 0
  | .map entries => mapHead entries.length ++ encodeEntries entries

/-- The bytes of values, one after the other. -/
def encodeItems : List Value → Bytes
  | [] => []
  | item :: items => encode item ++ encodeItems items

/-- The bytes of entries, each key before its value. -/
def encodeEntries : List (Value × Value) → Bytes
  | [] => []
  | (key, value) :: entries => encode key ++ (encode value ++ encodeEntries entries)

end

end FrozenTable.Msgpack
