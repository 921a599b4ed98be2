import FrozenTable.Msgpack.Value

/-!
# Reading MessagePack

A reader takes one value from the front of a byte string and returns the bytes behind it. It accepts every form of a value,
not only the shortest; the one first byte without a meaning is refused, and so are values nested more than 1023 deep, where
arrays, maps and bytes with a type count as levels.
-/

namespace FrozenTable.Msgpack

/-- What the first bytes of a value say: the whole value, or how much follows. -/
inductive Head where
  | scalar (value : Value)
  | str (length : Nat)
  | bin (length : Nat)
  | ext (length : Nat)
  | array (length : Nat)
  | map (length : Nat)
deriving Repr

/-- Reads an unsigned number of `width` bytes, most significant first. -/
def readNat (width : Nat) (input : Bytes) : Option (Nat × Bytes) := do
  let (front, rest) ← Bytes.splitExact? width input
  pure (Bytes.toNatBig front, rest)

/-- Reads a two's complement number of `width` bytes, most significant first. -/
def readInt (width : Nat) (input : Bytes) : Option (Int × Bytes) := do
  let (n, rest) ← readNat width input
  pure (Int.bmod n (Bytes.capacity width), rest)

/-- A number in a form for signed numbers. -/
def signedForm (n : Int) : Value :=
  if 0 ≤ n then .signed n.toNat else .int n

/-- The head of an array whose length is spelled out. -/
def spelledArray (length : Nat) : Head :=
  if length = 0 then .scalar .spelledEmpty else .array length

/-- Reads the head of a value. -/
def readHead : Bytes → Option (Head × Bytes)
  | [] => none
  | marker :: rest =>
    let m := marker.toNat
    if m < 0x80 then some (.scalar (.int m), rest)
    else if m < 0x90 then some (.map (m - 0x80), rest)
    else if m < 0xA0 then some (.array (m - 0x90), rest)
    else if m < 0xC0 then some (.str (m - 0xA0), rest)
    else if 0xE0 ≤ m then some (.scalar (.int (m - 256)), rest)
    else match marker with
      | 0xC0 => some (.scalar .nil, rest)
      | 0xC2 => some (.scalar (.bool false), rest)
      | 0xC3 => some (.scalar (.bool true), rest)
      | 0xC4 => (readNat 1 rest).map fun (n, rest) => (.bin n, rest)
      | 0xC5 => (readNat 2 rest).map fun (n, rest) => (.bin n, rest)
      | 0xC6 => (readNat 4 rest).map fun (n, rest) => (.bin n, rest)
      | 0xC7 => (readNat 1 rest).map fun (n, rest) => (.ext n, rest)
      | 0xC8 => (readNat 2 rest).map fun (n, rest) => (.ext n, rest)
      | 0xC9 => (readNat 4 rest).map fun (n, rest) => (.ext n, rest)
      | 0xCA => (readNat 4 rest).map fun (n, rest) => (.scalar (.float32 (UInt32.ofNat n)), rest)
      | 0xCB => (readNat 8 rest).map fun (n, rest) => (.scalar (.float (UInt64.ofNat n)), rest)
      | 0xCC => (readNat 1 rest).map fun (n, rest) => (.scalar (.int n), rest)
      | 0xCD => (readNat 2 rest).map fun (n, rest) => (.scalar (.int n), rest)
      | 0xCE => (readNat 4 rest).map fun (n, rest) => (.scalar (.int n), rest)
      | 0xCF => (readNat 8 rest).map fun (n, rest) => (.scalar (.int n), rest)
      | 0xD0 => (readInt 1 rest).map fun (n, rest) => (.scalar (signedForm n), rest)
      | 0xD1 => (readInt 2 rest).map fun (n, rest) => (.scalar (signedForm n), rest)
      | 0xD2 => (readInt 4 rest).map fun (n, rest) => (.scalar (signedForm n), rest)
      | 0xD3 => (readInt 8 rest).map fun (n, rest) => (.scalar (signedForm n), rest)
      | 0xD4 => some (.ext 1, rest)
      | 0xD5 => some (.ext 2, rest)
      | 0xD6 => some (.ext 4, rest)
      | 0xD7 => some (.ext 8, rest)
      | 0xD8 => some (.ext 16, rest)
      | 0xD9 => (readNat 1 rest).map fun (n, rest) => (.str n, rest)
      | 0xDA => (readNat 2 rest).map fun (n, rest) => (.str n, rest)
      | 0xDB => (readNat 4 rest).map fun (n, rest) => (.str n, rest)
      | 0xDC => (readNat 2 rest).map fun (n, rest) => (spelledArray n, rest)
      | 0xDD => (readNat 4 rest).map fun (n, rest) => (spelledArray n, rest)
      | 0xDE => (readNat 2 rest).map fun (n, rest) => (.map n, rest)
      | 0xDF => (readNat 4 rest).map fun (n, rest) => (.map n, rest)
      | _ => none

/-- Reads a type and `length` bytes. -/
def readExt (length : Nat) : Bytes → Option (Value × Bytes)
  | [] => none
  | type :: rest => (Bytes.splitExact? length rest).map fun (bytes, rest) => (.ext type bytes, rest)

/-- Reads a key and its value. -/
def readEntry (read : Bytes → Option (Value × Bytes)) (input : Bytes) : Option ((Value × Value) × Bytes) := do
  let (key, rest) ← read input
  let (value, rest) ← read rest
  pure ((key, value), rest)

/-- Reads the value with a head, its parts by a reader of its own; none where there are no levels left for parts. -/
def readBody (inner : Option (Bytes → Option (Value × Bytes))) (head : Head) (rest : Bytes) : Option (Value × Bytes) :=
  match head with
  | .scalar value => some (value, rest)
  | .str length => (Bytes.splitExact? length rest).map fun (bytes, rest) => (.str bytes, rest)
  | .bin length => (Bytes.splitExact? length rest).map fun (bytes, rest) => (.bin bytes, rest)
  | .ext length => inner.bind fun _ => readExt length rest
  | .array length => inner.bind fun read => (readMany read length rest).map fun (items, rest) => (.array items, rest)
  | .map length => inner.bind fun read =>
    (readMany (readEntry read) length rest).map fun (entries, rest) => (.map entries, rest)

/-- Reads a value whose levels are nested at most `levels` deep. -/
def readValue : (levels : Nat) → Bytes → Option (Value × Bytes)
  | 0, input => (readHead input).bind fun (head, rest) => readBody none head rest
  | levels + 1, input => (readHead input).bind fun (head, rest) => readBody (some (readValue levels)) head rest

/-- How deep the levels of a value may be nested. -/
def maxLevels : Nat := 1023

/-- Reads one value from the front of a byte string. -/
def decode (input : Bytes) : Option (Value × Bytes) :=
  readValue maxLevels input

end FrozenTable.Msgpack
