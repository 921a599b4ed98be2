import FrozenTable.Proofs.Lemmas.WordBits

/-!
# Packed arrays are arrays

A number of a packed array is a stretch of the bits of its words. Storing a number changes its own stretch and no other, also
where the stretch crosses from one word into the next, so what is read at a place is what was stored there last.
-/

namespace FrozenTable.PackedArray

/-- Whether the words of an array reach as far as the number at place `i`. -/
def Reaches (a : PackedArray) (i : Nat) : Prop :=
  i * a.width + a.width ≤ 64 * a.words.size

/-- Words for so many numbers reach each of them. -/
theorem Reaches.of_lt {a : PackedArray} {i n : Nat} (hsize : a.words.size = wordsFor (n * a.width)) (hi : i < n) :
    a.Reaches i := by
  have hmul : (i + 1) * a.width ≤ n * a.width := Nat.mul_le_mul_right _ hi
  have hwords := wordsFor_mul (n * a.width)
  rw [Nat.add_mul, Nat.one_mul] at hmul
  rw [Reaches, hsize]
  omega

/-- What spills over is what the word has no room for. -/
theorem ofNat_spill {shift : Nat} (h : shift ≤ 64) : (64 : UInt64) - UInt64.ofNat shift = UInt64.ofNat (64 - shift) :=
  (UInt64.ofNat_sub h).symm

/-- The number at a place is the stretch of bits that belongs to the place. -/
theorem get?_eq {a : PackedArray} {i : Nat} (hwidth : a.width ≤ 64) (hi : a.Reaches i) :
    ∃ v, a.get? i = some v ∧ ∀ j, bitOf v j = (decide (j < a.width) && bitAt a.words (i * a.width + j)) := by
  unfold Reaches at hi
  by_cases hnone : a.width = 0
  · refine ⟨0, by rw [get?, if_pos hnone], fun j => ?_⟩
    rw [bitOf_zero, hnone]
    rfl
  have hmod : i * a.width % 64 < 64 := Nat.mod_lt _ (by omega)
  have hword : i * a.width / 64 < a.words.size := by omega
  have hlow := Array.getElem?_eq_getElem hword
  by_cases hcross : a.straddles (i * a.width)
  · have hcross' : 64 < i * a.width % 64 + a.width := by simpa [straddles] using hcross
    have hnext : i * a.width / 64 + 1 < a.words.size := by omega
    have hhigh := Array.getElem?_eq_getElem hnext
    refine ⟨_, by simp only [get?, if_neg hnone, hlow, hhigh, hcross, if_true, bind, Option.bind, pure]; rfl, fun j => ?_⟩
    rw [ofNat_spill (by omega), bitOf_and, bitOf_or, bitOf_shiftRight _ hmod, bitOf_shiftLeft _ (by omega),
      bitOf_mask hwidth, Bool.and_comm]
    by_cases hj : j < a.width
    · simp only [hj, decide_true, Bool.true_and]
      have hj64 : decide (j < 64) = true := by
        rw [decide_eq_true_eq]
        omega
      by_cases hin : i * a.width % 64 + j < 64
      · have hat : (i * a.width + j) / 64 = i * a.width / 64 := by omega
        have hout : decide (64 - i * a.width % 64 ≤ j) = false := by
          rw [decide_eq_false_iff_not]
          omega
        rw [bitAt_of_getElem? (by rw [hat]; exact hlow), hout, Bool.false_and, Bool.and_false, Bool.or_false]
        congr 1
        omega
      · have hat : (i * a.width + j) / 64 = i * a.width / 64 + 1 := by omega
        have hin' : decide (64 - i * a.width % 64 ≤ j) = true := by
          rw [decide_eq_true_eq]
          omega
        rw [bitAt_of_getElem? (by rw [hat]; exact hhigh), hin', hj64,
          bitOf_ge _ (by omega : 64 ≤ i * a.width % 64 + j), Bool.false_or,
          Bool.true_and, Bool.true_and]
        congr 1
        omega
    · simp only [hj, decide_false, Bool.false_and]
  · have hcross' : i * a.width % 64 + a.width ≤ 64 := by simpa [straddles] using hcross
    refine ⟨_, by simp only [get?, if_neg hnone, hlow, hcross, bind, Option.bind, pure]; rfl, fun j => ?_⟩
    rw [bitOf_and, bitOf_shiftRight _ hmod, bitOf_mask hwidth, Bool.and_comm]
    by_cases hj : j < a.width
    · have hat : (i * a.width + j) / 64 = i * a.width / 64 := by omega
      rw [bitAt_of_getElem? (by rw [hat]; exact hlow)]
      congr 2
      omega
    · simp only [hj, decide_false, Bool.false_and]

/-- The low word of a stored number, bit by bit. -/
theorem bitOf_blendLow {width shift : Nat} (hwidth : width ≤ 64) (hshift : shift < 64) (w value : UInt64) {q : Nat}
    (hq : q < 64) :
    bitOf ((w &&& ~~~(mask width <<< UInt64.ofNat shift)) ||| (value &&& mask width) <<< UInt64.ofNat shift) q =
      if shift ≤ q ∧ q < shift + width then bitOf value (q - shift) else bitOf w q := by
  rw [bitOf_or, bitOf_and, bitOf_not, bitOf_shiftLeft _ hshift, bitOf_shiftLeft _ hshift, bitOf_and, bitOf_mask hwidth]
  simp only [hq, decide_true, Bool.true_and]
  by_cases hin : shift ≤ q ∧ q < shift + width
  · have h2 : q - shift < width := by omega
    rw [if_pos hin]
    simp [hin.1, h2]
  · rw [if_neg hin]
    by_cases hle : shift ≤ q
    · have h2 : ¬ q - shift < width := by omega
      simp [hle, h2]
    · simp [hle]

/-- The high word of a stored number, bit by bit. -/
theorem bitOf_blendHigh {width spill : Nat} (hwidth : width ≤ 64) (hspill : spill < 64) (w value : UInt64) {q : Nat}
    (hq : q < 64) :
    bitOf ((w &&& ~~~(mask width >>> UInt64.ofNat spill)) ||| (value &&& mask width) >>> UInt64.ofNat spill) q =
      if spill + q < width then bitOf value (spill + q) else bitOf w q := by
  rw [bitOf_or, bitOf_and, bitOf_not, bitOf_shiftRight _ hspill, bitOf_shiftRight _ hspill, bitOf_and, bitOf_mask hwidth]
  simp only [hq, decide_true, Bool.true_and]
  by_cases hin : spill + q < width
  · simp [hin]
  · simp [hin]

/-- Storing a number changes the stretch of bits that belongs to its place, and no other bit. -/
theorem bitAt_set {a : PackedArray} {i : Nat} (hwidth : a.width ≤ 64) (hi : a.Reaches i) (value : UInt64) (p : Nat) :
    bitAt (a.set i value).words p =
      if i * a.width ≤ p ∧ p < i * a.width + a.width then bitOf value (p - i * a.width) else bitAt a.words p := by
  unfold Reaches at hi
  by_cases hnone : a.width = 0
  · have hout : ¬ (i * a.width ≤ p ∧ p < i * a.width + a.width) := by omega
    rw [set, if_pos hnone, if_neg hout]
  have hmod : i * a.width % 64 < 64 := Nat.mod_lt _ (by omega)
  have hp : p % 64 < 64 := Nat.mod_lt _ (by omega)
  have hword : i * a.width / 64 < a.words.size := by omega
  by_cases hcross : a.straddles (i * a.width)
  · have hcross' : 64 < i * a.width % 64 + a.width := by simpa [straddles] using hcross
    have hnext : i * a.width / 64 + 1 < a.words.size := by omega
    simp only [set, if_neg hnone, hcross, if_true]
    rw [ofNat_spill (by omega), bitAt_modify (by simpa using hnext), bitAt_modify hword]
    by_cases hhigh : p / 64 = i * a.width / 64 + 1
    · have hget : (a.words.modify (i * a.width / 64) fun w =>
          (w &&& ~~~(mask a.width <<< UInt64.ofNat (i * a.width % 64))) |||
            (value &&& mask a.width) <<< UInt64.ofNat (i * a.width % 64)).getD (i * a.width / 64 + 1) 0 =
          a.words.getD (i * a.width / 64 + 1) 0 := by
        rw [Array.getD_eq_getD_getElem?, Array.getD_eq_getD_getElem?, Array.getElem?_modify, if_neg (by omega)]
      rw [if_pos hhigh, hget, bitOf_blendHigh hwidth (by omega) _ _ hp]
      by_cases hin : 64 - i * a.width % 64 + p % 64 < a.width
      · rw [if_pos hin, if_pos (by omega)]
        congr 1
        omega
      · rw [if_neg hin, if_neg (by omega), bitAt, hhigh]
    · rw [if_neg hhigh]
      by_cases hlow : p / 64 = i * a.width / 64
      · rw [if_pos hlow, bitOf_blendLow hwidth hmod _ _ hp]
        by_cases hin : i * a.width % 64 ≤ p % 64 ∧ p % 64 < i * a.width % 64 + a.width
        · rw [if_pos hin, if_pos (by omega)]
          congr 1
          omega
        · rw [if_neg hin, if_neg (by omega), bitAt, hlow]
      · rw [if_neg hlow, if_neg (by omega)]
  · have hcross' : i * a.width % 64 + a.width ≤ 64 := by simpa [straddles] using hcross
    simp only [set, if_neg hnone, hcross]
    rw [if_neg (by decide), bitAt_modify hword]
    by_cases hlow : p / 64 = i * a.width / 64
    · rw [if_pos hlow, bitOf_blendLow hwidth hmod _ _ hp]
      by_cases hin : i * a.width % 64 ≤ p % 64 ∧ p % 64 < i * a.width % 64 + a.width
      · rw [if_pos hin, if_pos (by omega)]
        congr 1
        omega
      · rw [if_neg hin, if_neg (by omega), bitAt, hlow]
    · rw [if_neg hlow, if_neg (by omega)]

/-- Storing a number leaves the length. -/
theorem length_set (a : PackedArray) (i : Nat) (value : UInt64) : (a.set i value).length = a.length := by
  unfold set
  split
  · rfl
  · dsimp only
    split <;> rfl

/-- Storing a number leaves all others in reach. -/
theorem Reaches.set {a : PackedArray} {j : Nat} (hj : a.Reaches j) (i : Nat) (value : UInt64) : (a.set i value).Reaches j := by
  rw [Reaches, width_set, size_set]
  exact hj

/-- What is read at a place: the low bits of what was stored last, and elsewhere what was there before. -/
theorem get?_set {a : PackedArray} {i j : Nat} (hwidth : a.width ≤ 64) (hi : a.Reaches i) (hj : a.Reaches j)
    (value : UInt64) : (a.set i value).get? j = if j = i then some (value &&& mask a.width) else a.get? j := by
  obtain ⟨v, hv, hbits⟩ := get?_eq (a := a.set i value) (by rw [width_set]; exact hwidth) (hj.set i value)
  simp only [width_set, bitAt_set hwidth hi] at hbits
  rw [hv]
  by_cases h : j = i
  · subst h
    rw [if_pos rfl, Option.some.injEq]
    refine bitOf_ext ?_
    intro q _
    rw [hbits, bitOf_and, bitOf_mask hwidth]
    by_cases hq : q < a.width
    · rw [if_pos (by omega), Bool.and_comm]
      congr 2
      omega
    · simp only [hq, decide_false, Bool.false_and, Bool.and_false]
  · obtain ⟨old, hold, hbits'⟩ := get?_eq hwidth hj
    rw [if_neg h, hold, Option.some.injEq]
    refine bitOf_ext ?_
    intro q _
    rw [hbits, hbits']
    by_cases hq : q < a.width
    · -- another place has another stretch
      have hout : ¬ (i * a.width ≤ j * a.width + q ∧ j * a.width + q < i * a.width + a.width) := by
        rcases Nat.lt_or_gt_of_ne h with hlt | hgt
        · have := Nat.mul_le_mul_right a.width (show j + 1 ≤ i from hlt)
          rw [Nat.add_mul] at this
          omega
        · have := Nat.mul_le_mul_right a.width (show i + 1 ≤ j from hgt)
          rw [Nat.add_mul] at this
          omega
      rw [if_neg hout]
    · simp only [hq, decide_false, Bool.false_and]

end FrozenTable.PackedArray
