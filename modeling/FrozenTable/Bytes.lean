/-!
# Byte strings

The byte strings that tables are made of, and fixed-width integers inside them. Every reader of this library takes a byte
string and returns what it read together with the bytes that are left, so records can stand back to back.
-/

namespace FrozenTable

/-- A byte string. -/
abbrev Bytes := List UInt8

namespace Bytes

/-- The `width` low-order bytes of `n`, least significant first. -/
def littleEndian : (width n : Nat) → Bytes
  | 0, _ => []
  | width + 1, n => UInt8.ofNat n :: littleEndian width (n / 256)

/-- How many numbers can be told by `width` bytes. -/
def capacity : (width : Nat) → Nat
  | 0 => 1
  | width + 1 => 256 * capacity width

/-- The number whose base-256 digits these are, least significant first. -/
def toNatLittle : Bytes → Nat
  | [] => 0
  | b :: rest => b.toNat + 256 * toNatLittle rest

/-- The `width` low-order bytes of `n`, most significant first. -/
def bigEndian (width n : Nat) : Bytes :=
  (littleEndian width n).reverse

/-- The number whose base-256 digits these are, most significant first. -/
def toNatBig (bytes : Bytes) : Nat :=
  toNatLittle bytes.reverse

/-- The first `n` bytes and the bytes after them, when there are that many. -/
def splitExact? (n : Nat) (bytes : Bytes) : Option (Bytes × Bytes) :=
  let front := bytes.take n
  if front.length = n then some (front, bytes.drop n) else none

/-- A byte string with `patch` laid over it from position `start` on; a patch that reaches past the end makes it longer. -/
def overlay (bytes : Bytes) (start : Nat) (patch : Bytes) : Bytes :=
  bytes.take start ++ patch ++ bytes.drop (start + patch.length)

/-- The bytes of an ASCII text. -/
def ofAscii (text : String) : Bytes :=
  text.toList.map fun c => UInt8.ofNat c.toNat

/-- The UTF-8 bytes of a text. -/
def ofText (text : String) : Bytes :=
  text.toUTF8.data.toList

/-- Packed form, for the functions that index into a byte string. -/
def pack (bytes : Bytes) : ByteArray :=
  ⟨bytes.toArray⟩

theorem length_littleEndian (width n : Nat) : (littleEndian width n).length = width := by
  induction width generalizing n with
  | zero => rfl
  | succ width ih => simp [littleEndian, ih]

theorem length_bigEndian (width n : Nat) : (bigEndian width n).length = width := by
  simp [bigEndian, length_littleEndian]

theorem toNatLittle_littleEndian (width n : Nat) : toNatLittle (littleEndian width n) = n % capacity width := by
  induction width generalizing n with
  | zero => simp [littleEndian, toNatLittle, capacity, Nat.mod_one]
  | succ width ih => rw [littleEndian, toNatLittle, ih, capacity, Nat.mod_mul, UInt8.toNat_ofNat']

theorem toNatBig_bigEndian (width n : Nat) : toNatBig (bigEndian width n) = n % capacity width := by
  simp [toNatBig, bigEndian, toNatLittle_littleEndian]

theorem splitExact?_append (front rest : Bytes) : splitExact? front.length (front ++ rest) = some (front, rest) := by
  simp [splitExact?]

end Bytes

/-- Reads `count` things one after the other and returns them with the bytes left after the last one. -/
def readMany {m : Type → Type} [Monad m] {α : Type} (read : Bytes → m (α × Bytes)) :
    (count : Nat) → Bytes → m (List α × Bytes)
  | 0, input => pure ([], input)
  | count + 1, input => do
    let (item, rest) ← read input
    let (items, rest) ← readMany read count rest
    pure (item :: items, rest)

end FrozenTable
