import FrozenTable.Bits.Words

/-!
# Bit vectors

A vector of bits of a fixed length, all clear at first. Positions past the length but inside the last word are kept as well;
positions past the last word are refused.
-/

namespace FrozenTable

/-- A vector of `length` bits. -/
structure BitSet where
  words : Array UInt64
  length : Nat
deriving DecidableEq, Repr

namespace BitSet

/-- The vector of `length` clear bits. -/
def clear (length : Nat) : BitSet :=
  ⟨Array.replicate (wordsFor length) 0, length⟩

/-- The vector without bits. -/
def empty : BitSet :=
  ⟨#[], 0⟩

/-- Bit `i`; none past the last word. -/
def get? (b : BitSet) (i : Nat) : Option Bool :=
  b.words[i / 64]?.map fun w => bitOf w (i % 64)

/-- The vector with bit `i` set; unchanged for positions past the last word. -/
def set (b : BitSet) (i : Nat) : BitSet :=
  { b with words := b.words.modify (i / 64) fun w => w ||| oneBit (i % 64) }

/-- Whether a position lies in a word of the vector. -/
def holds (b : BitSet) (i : Nat) : Bool :=
  decide (i / 64 < b.words.size)

/-- The vector with all bits of a list set up to the first that it does not hold, and whether it holds them all. -/
def setAll (b : BitSet) : List Nat → BitSet × Bool
  | [] => (b, true)
  | i :: positions => if b.holds i then (b.set i).setAll positions else (b, false)

/-- How many bits are set. -/
def count (b : BitSet) : Nat :=
  b.words.foldl (fun n w => n + onesIn w) 0

/-- The vector as a MessagePack value. -/
def form (b : BitSet) : Msgpack.Value :=
  .record [("words", wordsForm b.words), ("len", .nat b.length)]

theorem size_set (b : BitSet) (i : Nat) : (b.set i).words.size = b.words.size := by
  simp [set]

theorem length_set (b : BitSet) (i : Nat) : (b.set i).length = b.length := rfl

end BitSet

end FrozenTable
