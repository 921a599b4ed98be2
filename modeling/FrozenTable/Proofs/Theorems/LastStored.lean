import FrozenTable.Proofs.Lemmas.Separation

/-!
# A place of a packed array has what was stored there last

Numbers stand one right behind the other, so that neighbours share words and a number may stand in two of them. Still each
store changes its own place and no other: after any stores, in any order and with places stored again, a place has the low bits
of the last value, or zero. No store and no reading goes past the words, for any width up to that of a word.
-/

namespace FrozenTable.PackedArray

/-- The array with `value` at place `i`; none where the words do not reach. -/
def set? (a : PackedArray) (i : Nat) (value : UInt64) : Option PackedArray :=
  if a.holds i then some (a.set i value) else none

/-- The array after stores of values at places; none if one of them goes past the words. -/
def storeAll? (a : PackedArray) (stores : List (Nat × UInt64)) : Option PackedArray :=
  stores.foldlM (fun a store => a.set? store.1 store.2) a

/-- The value that was stored last at a place; zero where none was. -/
def lastStored (stores : List (Nat × UInt64)) (i : Nat) : UInt64 :=
  (stores.reverse.lookup i).getD 0

/-- What is known of an array of `n` numbers after some stores. -/
structure Keeps (a : PackedArray) (width n : Nat) (stores : List (Nat × UInt64)) : Prop where
  width_eq : a.width = width
  length_eq : a.length = n
  size_eq : a.words.size = wordsFor (n * width)
  get?_eq : ∀ j < n, a.get? j = some (lastStored stores j &&& mask width)

theorem lastStored_concat (stores : List (Nat × UInt64)) (i : Nat) (value : UInt64) (j : Nat) :
    lastStored (stores ++ [(i, value)]) j = if j = i then value else lastStored stores j := by
  rw [lastStored, List.reverse_concat, List.lookup_cons]
  by_cases h : j = i
  · rw [if_pos h, beq_iff_eq.2 h]
    rfl
  · rw [if_neg h, beq_false_of_ne h]
    rfl

/-- The words that a number stands in are there exactly when the words reach as far as its last bit. -/
theorem holds_iff_reaches {a : PackedArray} (hwidth : a.width ≤ 64) (i : Nat) : a.holds i = true ↔ a.Reaches i := by
  by_cases hnone : a.width = 0
  · -- numbers without bits stand in no word
    simp [holds, Reaches, hnone]
  · simp only [holds, Reaches, straddles, hnone, Bool.or_eq_true, beq_iff_eq, false_or, decide_eq_true_eq]
    split <;> omega

/-- The numbers of a new array are zero. -/
theorem keeps_zeros {width : Nat} (hwidth : width ≤ 64) (n : Nat) : (zeros width n).Keeps width n [] := by
  have hsize : (zeros width n).words.size = wordsFor (n * width) := Array.size_replicate
  refine ⟨rfl, rfl, hsize, ?_⟩
  intro j hj
  obtain ⟨v, hv, hbits⟩ := PackedArray.get?_eq (a := zeros width n) hwidth (.of_lt hsize hj)
  rw [hv, Option.some.injEq]
  refine bitOf_ext ?_
  intro q _
  rw [hbits, zeros, bitAt_replicate, Bool.and_false, bitOf_and, lastStored, List.reverse_nil, List.lookup_nil, Option.getD_none,
    bitOf_zero, Bool.false_and]

namespace Keeps

variable {a : PackedArray} {width n : Nat} {stores : List (Nat × UInt64)}

theorem reaches (h : a.Keeps width n stores) {i : Nat} (hi : i < n) : a.Reaches i := by
  refine .of_lt (n := n) ?_ hi
  rw [h.size_eq, h.width_eq]

/-- A store goes well and is known from then on. -/
theorem set? (h : a.Keeps width n stores) (hwidth : width ≤ 64) {i : Nat} (hi : i < n) (value : UInt64) :
    ∃ b, a.set? i value = some b ∧ b.Keeps width n (stores ++ [(i, value)]) := by
  have hwidth' : a.width ≤ 64 := by
    rw [h.width_eq]
    exact hwidth
  refine ⟨a.set i value, if_pos ((holds_iff_reaches hwidth' i).2 (h.reaches hi)), (width_set _ _ _).trans h.width_eq,
    (length_set _ _ _).trans h.length_eq, (size_set _ _ _).trans h.size_eq, ?_⟩
  intro j hj
  rw [get?_set hwidth' (h.reaches hi) (h.reaches hj), h.width_eq, h.get?_eq j hj, lastStored_concat]
  split <;> rfl

/-- So do more stores, one after the other. -/
theorem storeAll? (h : a.Keeps width n stores) (hwidth : width ≤ 64) {more : List (Nat × UInt64)}
    (hmore : ∀ store ∈ more, store.1 < n) : ∃ b, a.storeAll? more = some b ∧ b.Keeps width n (stores ++ more) := by
  induction more generalizing a stores with
  | nil => exact ⟨a, rfl, by rw [List.append_nil]; exact h⟩
  | cons store more ih =>
    obtain ⟨hstore, hmore⟩ := List.forall_mem_cons.1 hmore
    obtain ⟨b, hb, hkeeps⟩ := h.set? hwidth hstore store.2
    obtain ⟨c, hc, hkeeps⟩ := ih hkeeps hmore
    refine ⟨c, ?_, ?_⟩
    · rw [PackedArray.storeAll?, List.foldlM_cons, hb]
      exact hc
    · rw [List.append_assoc] at hkeeps
      exact hkeeps

end Keeps

/-- No store goes past the words, and afterwards each place can be read: it has the low bits of the value that was stored there
last, or zero. One more store leaves all other places as they are. -/
theorem storeAll_keeps_last {width n : Nat} (hwidth : width ≤ 64) {stores : List (Nat × UInt64)}
    (hstores : ∀ store ∈ stores, store.1 < n) :
    ∃ a, (zeros width n).storeAll? stores = some a ∧ a.width = width ∧ a.length = n ∧
      (∀ j < n, ∃ v, a.get? j = some v ∧ v.toNat = (lastStored stores j).toNat % 2 ^ width) ∧
      ∀ i < n, ∀ value, ∃ b, a.set? i value = some b ∧ ∀ j < n, j ≠ i → b.get? j = a.get? j := by
  obtain ⟨a, ha, hkeeps⟩ := (keeps_zeros hwidth n).storeAll? hwidth hstores
  refine ⟨a, ha, hkeeps.width_eq, hkeeps.length_eq, ?_, ?_⟩
  · intro j hj
    exact ⟨_, hkeeps.get?_eq j hj, toNat_and_mask hwidth _⟩
  · intro i hi value
    obtain ⟨b, hb, hkeeps'⟩ := hkeeps.set? hwidth hi value
    refine ⟨b, hb, ?_⟩
    intro j hj hother
    rw [hkeeps'.get?_eq j hj, hkeeps.get?_eq j hj, List.nil_append, lastStored_concat, if_neg hother]

/-- Six numbers of 13 bits, the fifth across two words: it is stored twice, too large the second time, and its neighbours keep
what they have. -/
theorem storeAll_keeps_last_across_words :
    ∃ a, (zeros 13 6).storeAll? [(4, 0x1FFF), (3, 7), (5, 9), (4, 0xFFFFE001)] = some a ∧ a.straddles (4 * a.width) = true ∧
      a.get? 3 = some 7 ∧ a.get? 4 = some 1 ∧ a.get? 5 = some 9 ∧ a.get? 0 = some 0 := by
  have hnarrow : 13 ≤ 64 := by decide
  have hstores : ∀ store ∈ ([(4, 0x1FFF), (3, 7), (5, 9), (4, 0xFFFFE001)] : List (Nat × UInt64)), store.1 < 6 := by decide
  obtain ⟨a, ha, hwidth, -, hget, -⟩ := storeAll_keeps_last hnarrow hstores
  have hread (j : Nat) (hj : j < 6) (v : UInt64)
      (hv : v.toNat = (lastStored [(4, 0x1FFF), (3, 7), (5, 9), (4, 0xFFFFE001)] j).toNat % 2 ^ 13) : a.get? j = some v := by
    obtain ⟨w, hw, hvalue⟩ := hget j hj
    rw [hw, UInt64.toNat_inj.1 (hvalue.trans hv.symm)]
  refine ⟨a, ha, ?_, hread 3 (by decide) 7 (by decide), hread 4 (by decide) 1 (by decide), hread 5 (by decide) 9 (by decide),
    hread 0 (by decide) 0 (by decide)⟩
  rw [straddles, hwidth]
  decide

end FrozenTable.PackedArray
