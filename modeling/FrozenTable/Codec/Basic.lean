import FrozenTable.Msgpack.View
import FrozenTable.Varint

/-!
# Codecs

A codec writes the keys or the values of a table as bytes and reads them back. It is self-delimiting: reading stops exactly
where writing stopped, so records can stand back to back without marks between them. A codec may also say on which line its
encoded sizes lie, and it has a persisted form, from which a reader of the table recovers it.

The main notion is `Codec.Faithful`: reading what was written gives the item back and leaves what stood behind it.
-/

namespace FrozenTable

/-- A way to write items of one type as bytes. -/
structure Codec (α : Type) where
  /-- The pieces in which an item is written, in order. -/
  pieces : α → Except Fault (List Bytes)
  /-- Reads one item from the front of a byte string and returns it with the bytes behind it. -/
  read : Bytes → Except Fault (α × Bytes)
  /-- The number of bytes an item takes, as far as the codec knows without writing it. -/
  sizeOf : α → Except Fault Nat
  /-- The line on which the sizes lie, if there is one. -/
  sizeLine : Option AffineSize
  /-- The form in which the codec itself is persisted. -/
  form : Msgpack.Value
  /-- How the codec is called in messages. -/
  label : String

namespace Codec

variable {α : Type}

/-- The bytes of an item. -/
def write (c : Codec α) (x : α) : Except Fault Bytes := do
  let pieces ← c.pieces x
  pure pieces.flatten

/-- Reading undoes writing, whatever stands behind. -/
def Faithful (c : Codec α) : Prop :=
  ∀ x bytes rest, c.write x = .ok bytes → c.read (bytes ++ rest) = .ok (x, rest)

/-- Nothing at all, written as no bytes. -/
def unit : Codec Unit where
  pieces _ := .ok []
  read input := .ok ((), input)
  sizeOf _ := .ok 0
  sizeLine := some (.always 0)
  form := .array []
  label := "UnitCodec"

/-- The eight bytes of a signed word, least significant first. -/
def longBytes (x : Int64) : Bytes :=
  Bytes.littleEndian 8 x.toUInt64.toNat

/-- Reads eight bytes as a signed word. -/
def readLong (input : Bytes) : Except Fault (Int64 × Bytes) :=
  match Bytes.splitExact? 8 input with
  | some (front, rest) => .ok ((UInt64.ofNat (Bytes.toNatLittle front)).toInt64, rest)
  | none => .error .shortRead

/-- Signed words of eight bytes. -/
def long : Codec Int64 where
  pieces x := .ok [longBytes x]
  read := readLong
  sizeOf _ := .ok 8
  sizeLine := some (.always 8)
  form := .array []
  label := "LongCodec"

/-- Signed words in one to ten bytes, fewer for numbers near zero. -/
def varLong : Codec Int64 where
  pieces x := .ok [Varint.encode (Varint.zigzag x.toInt)]
  read input := do
    let (n, rest) ← Varint.decode input
    pure (Int64.ofInt (Varint.unzigzag n), rest)
  sizeOf x := .ok (Varint.size (Varint.zigzag x.toInt))
  sizeLine := none
  form := .array []
  label := "VarLongCodec"

/-- The text with these bytes. -/
def textOf (bytes : Bytes) : Except Fault String :=
  match Utf8.decode? bytes with
  | some text => .ok text
  | none => .error (.notUtf8 ((Utf8.flawFrom 0 bytes).getD ⟨0, none⟩))

/-- Texts, by their UTF-8 bytes after the number of these. -/
def string : Codec String where
  pieces x := .ok [Varint.encode x.utf8ByteSize, Bytes.ofText x]
  read input := do
    let (length, rest) ← Varint.decode input
    match Bytes.splitExact? length rest with
    | none => .error (.stringTruncated length)
    | some (bytes, rest) =>
      let text ← textOf bytes
      pure (text, rest)
  sizeOf x := .ok (Varint.size x.utf8ByteSize + x.utf8ByteSize)
  sizeLine := none
  form := .array []
  label := "StringCodec"

/-- The sum of the sizes of items. -/
def sumSizes (sizeOf : α → Except Fault Nat) : List α → Except Fault Nat
  | [] => .ok 0
  | x :: xs => do
    let size ← sizeOf x
    let sizes ← sumSizes sizeOf xs
    pure (size + sizes)

/-- The pieces of items, one item after the other. -/
def allPieces (pieces : α → Except Fault (List Bytes)) : List α → Except Fault (List Bytes)
  | [] => .ok []
  | x :: xs => do
    let front ← pieces x
    let back ← allPieces pieces xs
    pure (front ++ back)

/-- Lists, by their elements after the number of these. -/
def list (c : Codec α) : Codec (List α) where
  pieces xs := do
    let pieces ← allPieces c.pieces xs
    pure (Varint.encode xs.length :: pieces)
  read input := do
    let (count, rest) ← Varint.decode input
    readMany c.read count rest
  sizeOf xs := do
    let size ← sumSizes c.sizeOf xs
    pure (Varint.size xs.length + size)
  sizeLine := none
  form := .record [("element", c.form)]
  label := Text.ofFields "ListCodec" [("element", c.label)]

/-- Items that have a MessagePack form, by the bytes of that form. -/
def packed (form : α → Msgpack.Value) (view : Msgpack.Value → Option α) (typeName : String) : Codec α where
  pieces x := .ok [Msgpack.encode (form x)]
  read input := match Msgpack.decode input with
    | some (value, rest) => match view value with
      | some x => .ok (x, rest)
      | none => .error .itemUndecodable
    | none => .error .itemUndecodable
  sizeOf x := .ok (Msgpack.encode (form x)).length
  sizeLine := none
  form := .record []
  label := "PackedCodec<" ++ typeName ++ ">"

/-- A codec that is said to have its sizes on another line, or on none. Nothing makes the saying true. -/
def declaring (c : Codec α) (line : Option AffineSize) : Codec α :=
  { c with
    sizeLine := line
    form := .record [("codec", c.form), ("line", .ofOption (fun e => .array [.int e.slope, .int e.constant]) line)] }

end Codec

end FrozenTable
