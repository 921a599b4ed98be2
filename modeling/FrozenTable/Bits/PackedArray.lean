import FrozenTable.Bits.Words

/-!
# Packed arrays

Natural numbers of a fixed width of at most 64 bits, one right behind the other; a number may stand in two words. Of a value
that is stored only the low bits count.
-/

namespace FrozenTable

/-- An array of `length` numbers of `width` bits. -/
structure PackedArray where
  width : Nat
  length : Nat
  words : Array UInt64
deriving DecidableEq, Repr

namespace PackedArray

/-- An array of zeros. -/
def zeros (width length : Nat) : PackedArray :=
  ⟨width, length, Array.replicate (wordsFor (length * width)) 0⟩

/-- The array without numbers. -/
def empty : PackedArray :=
  ⟨0, 0, #[]⟩

/-- The word of `width` set bits. -/
def mask (width : Nat) : UInt64 :=
  if width = 64 then 0xFFFFFFFFFFFFFFFF else oneBit width - 1

/-- Whether the number that starts at bit `start` stands in two words. -/
def straddles (a : PackedArray) (start : Nat) : Bool :=
  decide (64 < start % 64 + a.width)

/-- The number at place `i`; none where the words do not reach. -/
def get? (a : PackedArray) (i : Nat) : Option UInt64 :=
  if a.width = 0 then some 0
  else do
    let start := i * a.width
    let shift := UInt64.ofNat (start % 64)
    let low := (← a.words[start / 64]?) >>> shift
    if a.straddles start then
      let high := (← a.words[start / 64 + 1]?) <<< (64 - shift)
      pure ((low ||| high) &&& mask a.width)
    else pure (low &&& mask a.width)

/-- Whether the words reach as far as the number at place `i`. -/
def holds (a : PackedArray) (i : Nat) : Bool :=
  let start := i * a.width
  a.width == 0 || decide (start / 64 + (if a.straddles start then 1 else 0) < a.words.size)

/-- The array with `value` at place `i`, as far as the words reach. -/
def set (a : PackedArray) (i : Nat) (value : UInt64) : PackedArray :=
  if a.width = 0 then a
  else
    let ones := mask a.width
    let value := value &&& ones
    let start := i * a.width
    let shift := UInt64.ofNat (start % 64)
    let words := a.words.modify (start / 64) fun w => (w &&& ~~~(ones <<< shift)) ||| value <<< shift
    if a.straddles start then
      let spill := 64 - shift
      { a with words := words.modify (start / 64 + 1) fun w => (w &&& ~~~(ones >>> spill)) ||| value >>> spill }
    else { a with words }

/-- The bytes of all words. -/
def byteSize (a : PackedArray) : Nat :=
  a.words.size * 8

/-- The array as a record of named fields. -/
def fields (a : PackedArray) : List (String × Msgpack.Value) :=
  [("width", .nat a.width), ("len", .nat a.length), ("words", wordsForm a.words)]

/-- The array with a given MessagePack value. -/
def view (v : Msgpack.Value) : Option PackedArray := do
  match ← v.toFields? ["width", "len", "words"] with
  | [some width, some length, some words] =>
    pure ⟨← width.toHalf?, ← length.toWord?, ← wordsView words⟩
  | _ => none

theorem size_set (a : PackedArray) (i : Nat) (value : UInt64) : (a.set i value).words.size = a.words.size := by
  unfold set
  split
  · rfl
  · dsimp only
    split <;> simp

theorem width_set (a : PackedArray) (i : Nat) (value : UInt64) : (a.set i value).width = a.width := by
  unfold set
  split
  · rfl
  · dsimp only
    split <;> rfl

end PackedArray

end FrozenTable
