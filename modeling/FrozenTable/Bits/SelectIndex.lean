import FrozenTable.Bits.BitSet
import FrozenTable.Search

/-!
# Select

The position of the `r`-th set bit of a vector of bits. A directory holds, for every word, how many bits are set in front of
it; a query searches the directory and then the one word that the directory leads to.
-/

namespace FrozenTable

/-- The place of the `rank`-th set bit of a word, looked for in `steps` steps from its bit at `place` on. -/
def selectInWord (w : UInt64) : (steps place rank : Nat) → Option Nat
  | 0, _, _ => none
  | steps + 1, place, rank =>
    if bitOf w place then
      match rank with
      | 0 => some place
      | rank + 1 => selectInWord w steps (place + 1) rank
    else selectInWord w steps (place + 1) rank

/-- A vector of bits that answers select queries. -/
structure SelectIndex where
  /-- How many bits the vector has. Bits of the words past them count as well. -/
  numBits : Nat
  block : WordBlock
  /-- How many bits are set in front of each word, and at last in all of them. -/
  ranks : Array Nat
deriving DecidableEq, Repr

namespace SelectIndex

/-- The numbers of set bits in front of each of the words, `before` being the number in front of the first. -/
def ranksOf (before : Nat) : List UInt64 → List Nat
  | [] => [before]
  | w :: words => before :: ranksOf (before + onesIn w) words

/-- The index of a block of words. -/
def ofBlock (block : WordBlock) (numBits : Nat) : SelectIndex where
  numBits := numBits
  block := block
  ranks := (ranksOf 0 block.words.toList).toArray

/-- The index of a vector of bits. -/
def ofBits (bits : BitSet) : SelectIndex :=
  ofBlock (.owned bits.words) bits.length

/-- How many bits are set. -/
def numOnes (s : SelectIndex) : Nat :=
  s.ranks.getD s.block.words.size 0

/-- The position of the `r`-th set bit, counting from zero. -/
def select (s : SelectIndex) (r : Nat) : Option Nat :=
  if s.numOnes ≤ r then none
  else
    let i := searchFirst (fun i => decide (r < s.ranks.getD (i + 1) 0)) 0 s.block.words.size
    match s.block.words[i]? with
    | some w => (selectInWord w 64 0 (r - s.ranks.getD i 0)).map (64 * i + ·)
    | none => none

/-- The index as a record. -/
def text (s : SelectIndex) : String :=
  Text.ofFields "BitSelect"
    [("num_bits", toString s.numBits), ("num_ones", toString s.numOnes), ("words", s.block.text)]

/-- The fields in which an index is persisted; the directory is made anew by every reader. -/
def form (s : SelectIndex) : Msgpack.Value :=
  .record [("num_bits", .nat s.numBits), ("words", wordsForm s.block.words)]

/-- The index with a given MessagePack value. Its words have to hold its bits. -/
def view (v : Msgpack.Value) : Option SelectIndex := do
  match ← v.toFields? ["num_bits", "words"] with
  | [some numBits, some words] =>
    let numBits ← numBits.toWord?
    let words ← wordsView words
    if wordsFor numBits ≤ words.size then pure (ofBlock (.owned words) numBits) else none
  | _ => none

end SelectIndex

end FrozenTable
