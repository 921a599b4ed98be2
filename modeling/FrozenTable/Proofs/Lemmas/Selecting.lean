import FrozenTable.Bits.SelectIndex
import FrozenTable.Proofs.Lemmas.WordBits

/-!
# Select finds set bits by their rank

The rank of a position is the number of set bits in front of it. The directory of an index holds the ranks at which its words
start, so that a query with the rank of a set bit ends at this bit.
-/

namespace FrozenTable

/-! ## Ranks -/

/-- How many bits of a row of words are set in front of a position. -/
def rankAt (words : Array UInt64) (p : Nat) : Nat :=
  (List.range p).countP (bitAt words)

/-- A set bit adds one to the rank of the places behind it. -/
theorem rankAt_succ (words : Array UInt64) (p : Nat) :
    rankAt words (p + 1) = rankAt words p + if bitAt words p then 1 else 0 := by
  rw [rankAt, rankAt, List.range_succ, List.countP_append, List.countP_singleton]

/-- Ranks do not fall. -/
theorem rankAt_le (words : Array UInt64) {p q : Nat} (h : p ≤ q) : rankAt words p ≤ rankAt words q := by
  induction h with
  | refl => exact Nat.le_refl _
  | step _ ih => exact Nat.le_trans ih (by rw [rankAt_succ]; exact Nat.le_add_right _ _)

/-- A set bit is in front of everything behind it. -/
theorem rankAt_lt {words : Array UInt64} {p q : Nat} (hp : bitAt words p = true) (h : p < q) :
    rankAt words p < rankAt words q := by
  have hsucc := rankAt_succ words p
  have hle := rankAt_le words (show p + 1 ≤ q from h)
  rw [if_pos hp] at hsucc
  omega

/-- Clear bits do not add to a rank. -/
theorem rankAt_eq_of_clear {words : Array UInt64} {p q : Nat} (hle : p ≤ q)
    (hclear : ∀ i, p ≤ i → i < q → bitAt words i = false) : rankAt words q = rankAt words p := by
  induction hle with
  | refl => rfl
  | @step q hle ih =>
    rw [rankAt_succ, hclear q hle (Nat.lt_succ_self q), ih fun i hi hq => hclear i hi (Nat.lt_succ_of_lt hq)]
    rfl

/-- The positions of the set bits, in order, have the ranks 0, 1, 2, … -/
theorem rankAt_of_increasing {words : Array UInt64} {position : Nat → Nat} {n : Nat}
    (hincreasing : ∀ i j, i < j → j < n → position i < position j)
    (hbits : ∀ p, bitAt words p = true ↔ ∃ i < n, position i = p) {i : Nat} (hi : i < n) :
    rankAt words (position i) = i := by
  have hclear : ∀ p, (∀ j < n, position j ≠ p) → bitAt words p = false := by
    intro p hp
    rw [← Bool.not_eq_true, hbits]
    rintro ⟨j, hj, rfl⟩
    exact hp j hj rfl
  induction i with
  | zero =>
    refine rankAt_eq_of_clear (Nat.zero_le _) fun p _ hp => hclear p fun j hj hjp => ?_
    rcases Nat.eq_zero_or_pos j with rfl | hpos
    · omega
    · have := hincreasing 0 j hpos hj
      omega
  | succ i ih =>
    have hset : bitAt words (position i) = true := (hbits _).2 ⟨i, by omega, rfl⟩
    have hnext := hincreasing i (i + 1) (Nat.lt_succ_self i) hi
    have hbetween : rankAt words (position (i + 1)) = rankAt words (position i + 1) := by
      refine rankAt_eq_of_clear hnext fun p hlow hhigh => hclear p fun j hj hjp => ?_
      rcases Nat.lt_or_ge i j with hij | hij
      · rcases Nat.lt_or_ge (i + 1) j with hj' | hj'
        · have := hincreasing (i + 1) j hj' hj
          omega
        · have : j = i + 1 := by omega
          subst this
          omega
      · rcases Nat.lt_or_eq_of_le hij with hj' | rfl
        · have := hincreasing j i hj' (by omega)
          omega
        · omega
    rw [hbetween, rankAt_succ, if_pos hset, ih (by omega)]

/-- Behind all of the set bits the rank is their number. -/
theorem rankAt_behind {words : Array UInt64} {position : Nat → Nat} {n : Nat}
    (hincreasing : ∀ i j, i < j → j < n → position i < position j)
    (hbits : ∀ p, bitAt words p = true ↔ ∃ i < n, position i = p) {p : Nat} (hp : ∀ i < n, position i < p) :
    rankAt words p = n := by
  cases n with
  | zero =>
    refine rankAt_eq_of_clear (Nat.zero_le p) fun q _ _ => ?_
    rw [← Bool.not_eq_true, hbits]
    rintro ⟨j, hj, -⟩
    exact absurd hj (Nat.not_lt_zero j)
  | succ n =>
    have hlast := rankAt_of_increasing hincreasing hbits (Nat.lt_succ_self n)
    have hset : bitAt words (position n) = true := (hbits _).2 ⟨n, Nat.lt_succ_self n, rfl⟩
    have hrest : rankAt words p = rankAt words (position n + 1) := by
      refine rankAt_eq_of_clear (hp n (Nat.lt_succ_self n)) fun q hlow _ => ?_
      rw [← Bool.not_eq_true, hbits]
      rintro ⟨j, hj, rfl⟩
      rcases Nat.lt_or_eq_of_le (Nat.le_of_lt_succ hj) with hlt | rfl
      · have := hincreasing j n hlt (Nat.lt_succ_self n)
        omega
      · omega
    rw [hrest, rankAt_succ, if_pos hset, hlast]

/-! ## Words and directories -/

/-- The count of a word's bits is that of the places at which they are set. -/
theorem countOnes_eq (steps : Nat) (w : UInt64) : countOnes steps w = (List.range steps).countP (bitOf w) := by
  induction steps generalizing w with
  | zero => rfl
  | succ steps ih =>
    have hfirst : (w &&& 1).toNat = if bitOf w 0 then 1 else 0 := by
      rw [UInt64.toNat_and, UInt64.toNat_one, Nat.and_one_is_mod, bitOf, Nat.testBit_zero]
      rcases Nat.mod_two_eq_zero_or_one w.toNat with h | h <;> simp [h]
    have hrest : (bitOf w ∘ Nat.succ) = bitOf (w >>> 1) := by
      funext i
      have := bitOf_shiftRight w (s := 1) (by omega) i
      rw [Function.comp, Nat.succ_eq_add_one, Nat.add_comm, ← this]
      rfl
    rw [countOnes, ih, hfirst, List.range_succ_eq_map, List.countP_cons, List.countP_map, hrest, Nat.add_comm]

/-- A bit of a word is a bit of the sequence. -/
theorem bitAt_of_getElem {words : Array UInt64} {i j : Nat} (hi : i < words.size) (hj : j < 64) :
    bitAt words (64 * i + j) = bitOf words[i] j := by
  have hdiv : (64 * i + j) / 64 = i := by omega
  have hmod : (64 * i + j) % 64 = j := by omega
  rw [bitAt_of_getElem? (by rw [hdiv]; exact Array.getElem?_eq_getElem hi), hmod]

/-- The set bits in front of a position are those in front of its word and those in front of it in its word. -/
theorem rankAt_add {words : Array UInt64} {i j : Nat} (hi : i < words.size) (hj : j ≤ 64) :
    rankAt words (64 * i + j) = rankAt words (64 * i) + (List.range j).countP (bitOf words[i]) := by
  induction j with
  | zero => rfl
  | succ j ih =>
    rw [← Nat.add_assoc, rankAt_succ, ih (by omega), bitAt_of_getElem hi (by omega), List.range_succ, List.countP_append,
      List.countP_singleton, Nat.add_assoc]

/-- A word adds its set bits to the rank. -/
theorem rankAt_word {words : Array UInt64} {i : Nat} (hi : i < words.size) :
    rankAt words (64 * (i + 1)) = rankAt words (64 * i) + onesIn words[i] := by
  rw [Nat.mul_add, rankAt_add hi (Nat.le_refl 64), onesIn, countOnes_eq]
  rfl

namespace SelectIndex

/-- The rank in front of a word is that of the words before it. -/
theorem ranksOf_getElem? (words : List UInt64) (before : Nat) {i : Nat} (hi : i ≤ words.length) :
    (ranksOf before words)[i]? = some (before + ((words.take i).map onesIn).sum) := by
  induction words generalizing before i with
  | nil =>
    have : i = 0 := Nat.le_zero.1 hi
    subst this
    rfl
  | cons w words ih =>
    cases i with
    | zero => rfl
    | succ i =>
      rw [ranksOf, List.getElem?_cons_succ, ih _ (Nat.le_of_succ_le_succ hi), List.take_succ_cons, List.map_cons,
        List.sum_cons,
        Nat.add_assoc]

/-- The set bits of the first words are the rank behind them. -/
theorem sum_onesIn (words : Array UInt64) {i : Nat} (hi : i ≤ words.size) :
    ((words.toList.take i).map onesIn).sum = rankAt words (64 * i) := by
  induction i with
  | zero => rfl
  | succ i ih =>
    have hlt : i < words.toList.length := by
      rw [Array.length_toList]
      exact hi
    rw [List.take_succ_eq_append_getElem hlt, List.map_append, List.sum_append, ih (by omega), rankAt_word hi,
      Array.getElem_toList]
    simp

/-- The directory holds the ranks at which the words start. -/
theorem getD_ranks (block : WordBlock) (numBits : Nat) {i : Nat} (hi : i ≤ block.words.size) :
    (ofBlock block numBits).ranks.getD i 0 = rankAt block.words (64 * i) := by
  have hi' : i ≤ block.words.toList.length := by
    rw [Array.length_toList]
    exact hi
  rw [ofBlock, Array.getD_eq_getD_getElem?, List.getElem?_toArray, ranksOf_getElem? _ _ hi', Option.getD_some, Nat.zero_add,
    sum_onesIn _ hi]

/-- An index has the rank at the end for the number of its set bits. -/
theorem numOnes_ofBlock (block : WordBlock) (numBits : Nat) :
    (ofBlock block numBits).numOnes = rankAt block.words (64 * block.words.size) :=
  getD_ranks block numBits (Nat.le_refl _)

/-- In a word, the search passes as many set bits as the rank says. -/
theorem selectInWord_eq (w : UInt64) {steps place q : Nat} (hlow : place ≤ q) (hhigh : q < place + steps)
    (hq : bitOf w q = true) :
    selectInWord w steps place ((List.range' place (q - place)).countP (bitOf w)) = some q := by
  induction steps generalizing place with
  | zero => omega
  | succ steps ih =>
    rcases Nat.lt_or_eq_of_le hlow with hlt | rfl
    · have hsplit : q - place = (q - (place + 1)) + 1 := by omega
      have hnext := ih hlt (by omega)
      rw [hsplit, List.range'_succ, List.countP_cons]
      unfold selectInWord
      by_cases hset : bitOf w place = true
      · simp only [hset, if_true]
        exact hnext
      · simp only [hset]
        exact hnext
    · rw [Nat.sub_self, List.range'_zero, List.countP_nil]
      unfold selectInWord
      rw [if_pos hq]

/-- A query with the rank of a set bit ends at this bit. -/
theorem select_rankAt (block : WordBlock) (numBits : Nat) {p : Nat} (hp : p < 64 * block.words.size)
    (hset : bitAt block.words p = true) : (ofBlock block numBits).select (rankAt block.words p) = some p := by
  have hword : p / 64 < block.words.size := by omega
  have hones : ¬ (ofBlock block numBits).numOnes ≤ rankAt block.words p := by
    rw [numOnes_ofBlock, Nat.not_le]
    exact rankAt_lt hset hp
  have hfirst : searchFirst
      (fun i => decide (rankAt block.words p < (ofBlock block numBits).ranks.getD (i + 1) 0)) 0 block.words.size = p / 64 := by
    refine searchFirst_eq (fun i hi => ?_) (fun i hi hsize => ?_) (Nat.zero_le _) (by omega)
    · rw [getD_ranks block numBits (by omega), decide_eq_false_iff_not, Nat.not_lt]
      exact rankAt_le _ (by omega)
    · rw [getD_ranks block numBits (by omega), decide_eq_true_eq]
      exact rankAt_lt hset (by omega)
  have hsplit : 64 * (p / 64) + p % 64 = p := by omega
  have hmod : p % 64 < 64 := Nat.mod_lt _ (by omega)
  have hbit : bitOf block.words[p / 64] (p % 64) = true := by
    rw [← bitAt_of_getElem hword hmod, hsplit]
    exact hset
  have hrank : rankAt block.words p - (ofBlock block numBits).ranks.getD (p / 64) 0 =
      (List.range' 0 (p % 64 - 0)).countP (bitOf block.words[p / 64]) := by
    have hadd := rankAt_add hword (Nat.le_of_lt hmod)
    rw [hsplit] at hadd
    rw [getD_ranks block numBits (by omega), hadd, List.range_eq_range', Nat.sub_zero, Nat.add_sub_cancel_left]
  have hblock : (ofBlock block numBits).block = block := rfl
  rw [select, if_neg hones]
  simp only [hblock, hfirst, Array.getElem?_eq_getElem hword, hrank]
  rw [selectInWord_eq _ (Nat.zero_le _) (by omega) hbit, Option.map_some, hsplit]

end SelectIndex

namespace BitSet

/-- A set of bits has the rank at its end for its count. -/
theorem count_eq (b : BitSet) : b.count = rankAt b.words (64 * b.words.size) := by
  have hall : b.words.toList.take b.words.size = b.words.toList := by rw [← Array.length_toList, List.take_length]
  rw [count, ← SelectIndex.sum_onesIn b.words (Nat.le_refl _), hall, ← Array.foldl_toList, List.sum_eq_foldl, List.foldl_map]

/-- All bits of a list that the words hold can be set, and no others are. -/
theorem setAll_eq {b : BitSet} {positions : List Nat} (h : ∀ p ∈ positions, p / 64 < b.words.size) :
    ∃ b', b.setAll positions = (b', true) ∧ b'.length = b.length ∧ b'.words.size = b.words.size ∧
      ∀ p, bitAt b'.words p = true ↔ p ∈ positions ∨ bitAt b.words p = true := by
  induction positions generalizing b with
  | nil => exact ⟨b, rfl, rfl, rfl, fun p => by simp⟩
  | cons i positions ih =>
    have hi := h i List.mem_cons_self
    have hrest : ∀ p ∈ positions, p / 64 < (b.set i).words.size := by
      intro p hp
      rw [size_set]
      exact h p (List.mem_cons_of_mem _ hp)
    obtain ⟨b', hb', hlength, hsize, hbits⟩ := ih hrest
    refine ⟨b', ?_, hlength, hsize.trans (size_set b i), fun p => ?_⟩
    · rw [setAll, if_pos (by simpa [holds] using hi)]
      exact hb'
    · rw [hbits, bitAt_set hi, Bool.or_eq_true, decide_eq_true_eq, List.mem_cons]
      constructor
      · rintro (hp | hp | hp)
        · exact Or.inl (Or.inr hp)
        · exact Or.inl (Or.inl hp)
        · exact Or.inr hp
      · rintro ((hp | hp) | hp)
        · exact Or.inr (Or.inl hp)
        · exact Or.inl hp
        · exact Or.inr (Or.inr hp)

/-- Setting bits leaves a vector as long as it was, and its words as many. -/
theorem measures_of_setAll {b b' : BitSet} {positions : List Nat} {all : Bool} (h : b.setAll positions = (b', all)) :
    b'.length = b.length ∧ b'.words.size = b.words.size := by
  induction positions generalizing b with
  | nil =>
    cases h
    exact ⟨rfl, rfl⟩
  | cons i positions ih =>
    rw [setAll] at h
    split at h
    · obtain ⟨hlength, hsize⟩ := ih h
      exact ⟨hlength, hsize.trans (size_set b i)⟩
    · cases h
      exact ⟨rfl, rfl⟩

end BitSet

end FrozenTable
