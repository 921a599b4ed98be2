import Mathlib
import FrozenTable.Bits.BitSet
import FrozenTable.Bits.PackedArray

/-!
# The bits of words and of rows of words

The operations of words bit by bit, and the bits of a row of words: `bitAt` reads bit `i` of the row wherever its word stands,
so that what is stored across two words reads like what is stored in one.
-/

namespace FrozenTable

/-! ## Words -/

/-- A word has no bits from the 64th on. -/
theorem bitOf_ge (w : UInt64) {i : Nat} (h : 64 ≤ i) : bitOf w i = false := by
  refine Nat.testBit_lt_two_pow (Nat.lt_of_lt_of_le w.toNat_lt ?_)
  exact Nat.pow_le_pow_right (by omega) h

/-- Words with the same bits are the same. -/
theorem bitOf_ext {a b : UInt64} (h : ∀ i < 64, bitOf a i = bitOf b i) : a = b := by
  rw [← UInt64.toNat_inj]
  refine Nat.eq_of_testBit_eq ?_
  intro i
  by_cases hi : i < 64
  · exact h i hi
  · exact (bitOf_ge a (by omega)).trans (bitOf_ge b (by omega)).symm

/-- No bit of zero is set. -/
theorem bitOf_zero (i : Nat) : bitOf 0 i = false := Nat.zero_testBit i

/-- The bits of a conjunction are those that both words have. -/
theorem bitOf_and (a b : UInt64) (i : Nat) : bitOf (a &&& b) i = (bitOf a i && bitOf b i) := by
  rw [bitOf, UInt64.toNat_and, Nat.testBit_and]
  rfl

/-- The bits of a disjunction are those that one of the words has. -/
theorem bitOf_or (a b : UInt64) (i : Nat) : bitOf (a ||| b) i = (bitOf a i || bitOf b i) := by
  rw [bitOf, UInt64.toNat_or, Nat.testBit_or]
  rfl

/-- A complement has those of the 64 bits that the word does not have. -/
theorem bitOf_not (a : UInt64) (i : Nat) : bitOf (~~~a) i = (decide (i < 64) && !bitOf a i) := by
  have h := BitVec.getLsbD_not (x := a.toBitVec) (i := i)
  rwa [← UInt64.toBitVec_not] at h

/-- A shift by less than a word is by as much as it says. -/
theorem toNat_ofNat_shift {s : Nat} (h : s < 64) : (UInt64.ofNat s).toNat % 64 = s := by
  rw [UInt64.toNat_ofNat', Nat.mod_eq_of_lt (a := s) (by omega), Nat.mod_eq_of_lt h]

/-- A shift to the left moves each bit up and drops those that leave the word. -/
theorem bitOf_shiftLeft (a : UInt64) {s : Nat} (h : s < 64) (i : Nat) :
    bitOf (a <<< UInt64.ofNat s) i = (decide (i < 64) && (decide (s ≤ i) && bitOf a (i - s))) := by
  rw [bitOf, UInt64.toNat_shiftLeft, toNat_ofNat_shift h, Nat.testBit_mod_two_pow, Nat.testBit_shiftLeft]
  rfl

/-- A shift to the right moves each bit down. -/
theorem bitOf_shiftRight (a : UInt64) {s : Nat} (h : s < 64) (i : Nat) :
    bitOf (a >>> UInt64.ofNat s) i = bitOf a (s + i) := by
  rw [bitOf, UInt64.toNat_shiftRight, toNat_ofNat_shift h, Nat.testBit_shiftRight]
  rfl

/-- A word with one bit is a power of two. -/
theorem toNat_oneBit {s : Nat} (h : s < 64) : (oneBit s).toNat = 2 ^ s := by
  have hlt : 2 ^ s < 2 ^ 64 := Nat.pow_lt_pow_right (by omega) h
  rw [oneBit, UInt64.toNat_shiftLeft, toNat_ofNat_shift h, UInt64.toNat_one, Nat.one_shiftLeft, Nat.mod_eq_of_lt hlt]

/-- A word with one bit has no other. -/
theorem bitOf_oneBit {s : Nat} (h : s < 64) (i : Nat) : bitOf (oneBit s) i = decide (s = i) := by
  rw [bitOf, toNat_oneBit h, Nat.testBit_two_pow]

/-- The mask of a width has the bits below it. -/
theorem bitOf_mask {width : Nat} (h : width ≤ 64) (i : Nat) : bitOf (PackedArray.mask width) i = decide (i < width) := by
  unfold PackedArray.mask
  by_cases hfull : width = 64
  · rw [if_pos hfull, hfull]
    exact Nat.testBit_two_pow_sub_one 64 i
  · have hone := toNat_oneBit (s := width) (by omega)
    have hpos : 0 < 2 ^ width := Nat.two_pow_pos width
    have hle : (1 : UInt64) ≤ oneBit width := by
      rw [UInt64.le_iff_toNat_le, hone]
      exact hpos
    rw [if_neg hfull, bitOf, UInt64.toNat_sub_of_le _ _ hle, hone]
    exact Nat.testBit_two_pow_sub_one width i

/-! ## Rows of words -/

/-- Bit `i` of a row of words; clear past the last word. -/
def bitAt (words : Array UInt64) (i : Nat) : Bool :=
  bitOf (words.getD (i / 64) 0) (i % 64)

/-- A bit of a sequence is a bit of the word in which it stands. -/
theorem bitAt_of_getElem? {words : Array UInt64} {i : Nat} {w : UInt64} (h : words[i / 64]? = some w) :
    bitAt words i = bitOf w (i % 64) := by
  rw [bitAt, Array.getD_eq_getD_getElem?, h]
  rfl

/-- Words of zeros have no set bits. -/
theorem bitAt_replicate (n i : Nat) : bitAt (Array.replicate n 0) i = false := by
  rw [bitAt, Array.getD_eq_getD_getElem?, Array.getElem?_replicate]
  split <;> exact bitOf_zero _

/-- A word of a row exchanged by a change that is known bit by bit. -/
theorem bitAt_modify {words : Array UInt64} {k : Nat} (hk : k < words.size) (f : UInt64 → UInt64) (i : Nat) :
    bitAt (words.modify k f) i = if i / 64 = k then bitOf (f (words.getD k 0)) (i % 64) else bitAt words i := by
  unfold bitAt
  rw [Array.getD_eq_getD_getElem?, Array.getD_eq_getD_getElem?, Array.getD_eq_getD_getElem?, Array.getElem?_modify]
  by_cases h : i / 64 = k
  · subst h
    rw [if_pos rfl, if_pos rfl, Array.getElem?_eq_getElem hk]
    rfl
  · rw [if_neg (Ne.symm h), if_neg h]

/-- The words for some bits have room for all of them. -/
theorem wordsFor_mul (n : Nat) : n ≤ 64 * wordsFor n := by
  unfold wordsFor
  omega

/-- The words for some bits include the word of each. -/
theorem div_lt_wordsFor {i n : Nat} (h : i < n) : i / 64 < wordsFor n := by
  unfold wordsFor
  omega

namespace BitSet

/-- A bit can be asked for as long as its word is there, also behind the end of the sequence. -/
theorem get?_eq_some {b : BitSet} {i : Nat} {bit : Bool} :
    b.get? i = some bit ↔ i / 64 < b.words.size ∧ bitAt b.words i = bit := by
  by_cases h : i / 64 < b.words.size
  · rw [get?, Array.getElem?_eq_getElem h, Option.map_some, Option.some.injEq,
      bitAt_of_getElem? (Array.getElem?_eq_getElem h)]
    simp only [h, true_and]
  · rw [get?, Array.getElem?_eq_none (by omega)]
    simp only [h, false_and, Option.map_none, reduceCtorEq]

/-- Setting a bit sets it and leaves all others as they were. -/
theorem bitAt_set {b : BitSet} {i : Nat} (h : i / 64 < b.words.size) (j : Nat) :
    bitAt (b.set i).words j = (decide (j = i) || bitAt b.words j) := by
  rw [set, bitAt_modify h]
  by_cases hword : j / 64 = i / 64
  · have hsame : decide (i % 64 = j % 64) = decide (j = i) := by
      rw [decide_eq_decide]
      omega
    rw [if_pos hword, bitOf_or, bitOf_oneBit (Nat.mod_lt _ (by omega)), hsame, Bool.or_comm, bitAt, hword]
  · have hother : decide (j = i) = false := by
      rw [decide_eq_false_iff_not]
      rintro rfl
      exact hword rfl
    rw [if_neg hword, hother, Bool.false_or]

end BitSet

end FrozenTable
