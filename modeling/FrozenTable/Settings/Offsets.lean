import FrozenTable.Settings.Basic

/-!
# Costs and compression of offsets

The offset of record `n` is the sum of the `n` sizes before it. As these sizes lie on a line, the offset can be told by a
smaller number, the offset's place on the line of `n` sizes plus `n`, and these numbers grow strictly with `n`: they are the
positions of the set bits of the vector that selected offsets are kept in.
-/

namespace FrozenTable.Settings

variable {κ ν : Type}

/-- The width of a plain offset into `dataSize` bytes. -/
def offsetWidth (dataSize : Nat) : Nat :=
  if dataSize < 0x7FFF then 2
  else if dataSize < 0x7FFFFFFF then 4
  else 8

/-- The number that stands for the offset of record `n`. A quotient that is no word is a fault. -/
def compress (s : Settings κ ν) (offset n : Nat) : Except Fault Nat :=
  (AffineSize.word? (s.entryLine.solveNth (Word64.signed offset) (Word64.signed n))).elim (.error .quotientOverflow)
    fun x => .ok (Word64.unsigned (x + Word64.signed n))

/-- The offset of record `n` that a number stands for. -/
def decompress (s : Settings κ ν) (number n : Nat) : Nat :=
  Word64.unsigned (s.entryLine.applyNth (Word64.signed number - Word64.signed n) (Word64.signed n))

/-- The bytes that plain offsets take. -/
def indexedCost (count dataSize : Nat) : Nat :=
  count * offsetWidth dataSize

/-- The bytes that selected offsets take, with the directory that finds them, as a rough guess. The product is a word, and
wraps around where there are too many bits. -/
def selectedCost (s : Settings κ ν) (count dataSize : Nat) : Except Fault Nat :=
  (s.compress dataSize count).map fun bits => Word64.unsigned (bits * 3) / 64

/-- The cheapest way to store the offsets of `count` records of `dataSize` bytes. -/
def cheapest (s : Settings κ ν) (count dataSize : Nat) : Except Fault OffsetStorage :=
  if s.entryLine.isConstant then .ok .fixed
  else do
    let cost ← s.selectedCost count dataSize
    pure (if indexedCost count dataSize ≤ cost then .indexed else .selected)

/-- The settings of a finished table, with the offset storage chosen. -/
def resolved (s : Settings κ ν) (count dataSize : Nat) : Except Fault (Settings κ ν) := do
  if s.offsetStorage = .automatic then
    pure { s with offsetStorage := ← s.cheapest count dataSize }
  else pure s

end FrozenTable.Settings
