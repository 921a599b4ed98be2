import FrozenTable.Msgpack.View
import FrozenTable.Text.Quoted

/-!
# Words of bits

Bits are kept in 64-bit words, bit `i` of a sequence in word `i / 64`. A block of words either owns them or is a view of bytes
that are mapped from a file; the two hold the same bits.
-/

namespace FrozenTable

/-- How many bits a word has. -/
def wordBits : Nat := 64

/-- How many words hold `n` bits. -/
def wordsFor (n : Nat) : Nat :=
  (n + 63) / 64

/-- Bit `i` of a word. -/
def bitOf (w : UInt64) (i : Nat) : Bool :=
  w.toNat.testBit i

/-- The word that has bit `i` alone. -/
def oneBit (i : Nat) : UInt64 :=
  1 <<< UInt64.ofNat i

/-- How many bits of a word are set, counted from its low end in `steps` steps. -/
def countOnes : (steps : Nat) → UInt64 → Nat
  | 0, _ => 0
  | steps + 1, w => (w &&& 1).toNat + countOnes steps (w >>> 1)

/-- How many bits of a word are set. -/
def onesIn (w : UInt64) : Nat :=
  countOnes wordBits w

/-- Words as a MessagePack value. -/
def wordsForm (words : Array UInt64) : Msgpack.Value :=
  .array (words.toList.map fun w => .nat w.toNat)

/-- Words from their MessagePack value. -/
def wordsView (v : Msgpack.Value) : Option (Array UInt64) := do
  let items ← v.toItems?
  let words ← items.mapM fun item => item.toWord?.map UInt64.ofNat
  pure words.toArray

/-- The bytes of words, each least significant byte first. -/
def wordsBytes (words : Array UInt64) : Bytes :=
  words.toList.flatMap fun w => Bytes.littleEndian 8 w.toNat

/-- The words of `count` times eight bytes. -/
def wordsOfBytes : (count : Nat) → Bytes → List UInt64
  | 0, _ => []
  | count + 1, bytes => UInt64.ofNat (Bytes.toNatLittle (bytes.take 8)) :: wordsOfBytes count (bytes.drop 8)

/-- A block of words. -/
structure WordBlock where
  words : Array UInt64
  /-- Whether the words are read in place from mapped bytes. -/
  viewed : Bool
deriving DecidableEq, Repr

namespace WordBlock

/-- A block that owns its words. -/
def owned (words : Array UInt64) : WordBlock :=
  ⟨words, false⟩

/-- The words of a byte string. Bytes that are no whole number of words are copied, less the last ones. -/
def ofBytes (bytes : Bytes) : WordBlock where
  words := (wordsOfBytes (bytes.length / 8) bytes).toArray
  viewed := bytes.length % 8 == 0

/-- The block as a record. -/
def text (b : WordBlock) : String :=
  Text.ofFields "SelectWords" [("len", toString b.words.size), ("viewed", Text.ofBool b.viewed)]

end WordBlock

theorem length_wordsOfBytes (count : Nat) (bytes : Bytes) : (wordsOfBytes count bytes).length = count := by
  induction count generalizing bytes with
  | zero => rfl
  | succ count ih => simp [wordsOfBytes, ih]

/-- Reading the bytes of words gives the words back. -/
theorem wordsOfBytes_flatMap (words : List UInt64) :
    wordsOfBytes words.length (words.flatMap fun w => Bytes.littleEndian 8 w.toNat) = words := by
  induction words with
  | nil => rfl
  | cons w words ih =>
    have size : (Bytes.littleEndian 8 w.toNat).length = 8 := Bytes.length_littleEndian 8 _
    have value : Bytes.toNatLittle (Bytes.littleEndian 8 w.toNat) = w.toNat := by
      rw [Bytes.toNatLittle_littleEndian, Nat.mod_eq_of_lt]
      exact w.toNat_lt
    rw [List.flatMap_cons, List.length_cons, wordsOfBytes, List.take_left' size, List.drop_left' size, ih, value,
      UInt64.ofNat_toNat]

theorem length_wordsBytes (words : Array UInt64) : (wordsBytes words).length = 8 * words.size := by
  simp [wordsBytes, List.length_flatMap, Bytes.length_littleEndian, List.map_const', Nat.mul_comm]

theorem WordBlock.size_ofBytes (bytes : Bytes) : (ofBytes bytes).words.size = bytes.length / 8 := by
  rw [ofBytes, List.size_toArray, length_wordsOfBytes]

theorem words_ofBytes_wordsBytes (words : Array UInt64) : (WordBlock.ofBytes (wordsBytes words)).words = words := by
  simp only [WordBlock.ofBytes, length_wordsBytes, Nat.mul_div_cancel_left _ (by decide : 0 < 8)]
  rw [wordsBytes, ← Array.length_toList, wordsOfBytes_flatMap]

end FrozenTable
