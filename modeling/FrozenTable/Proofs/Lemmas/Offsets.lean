import FrozenTable.Build.Plan
import FrozenTable.Proofs.Lemmas.Outcome
import FrozenTable.Proofs.Lemmas.Selecting

/-!
# Offsets are sums of sizes

Every way of keeping offsets gives the sums of sizes back. Plain offsets are read back from their bytes. Where all sizes lie on
a line, the sum of the first `i` of them lies on the line of `i` sizes, at a place that does not fall as `i` grows; the place
plus `i` is the number that stands for the offset, and these numbers grow strictly.
-/

namespace FrozenTable

/-- The sum of the first `i` sizes, which is where record `i` starts. -/
def startOf (sizes : List Nat) (i : Nat) : Nat :=
  (sizes.take i).sum

/-- The first record starts in front. -/
theorem startOf_zero (sizes : List Nat) : startOf sizes 0 = 0 := rfl

/-- Each record starts behind the one before. -/
theorem startOf_succ {sizes : List Nat} {i : Nat} (hi : i < sizes.length) :
    startOf sizes (i + 1) = startOf sizes i + sizes[i] := by
  rw [startOf, startOf, List.take_succ_eq_append_getElem hi, List.sum_append]
  simp

/-- Behind the last record is the end of the data. -/
theorem startOf_length (sizes : List Nat) : startOf sizes sizes.length = sizes.sum := by
  rw [startOf, List.take_length]

/-- No record starts behind the end of the data. -/
theorem startOf_le_sum (sizes : List Nat) (i : Nat) : startOf sizes i ≤ sizes.sum := by
  have hsplit := congrArg List.sum (List.take_append_drop i sizes)
  rw [List.sum_append] at hsplit
  rw [startOf]
  omega

/-- No record reaches behind the end of the data. -/
theorem startOf_add_le_sum {sizes : List Nat} {i : Nat} (hi : i < sizes.length) :
    startOf sizes i + sizes[i] ≤ sizes.sum := by
  rw [← startOf_succ hi]
  exact startOf_le_sum sizes (i + 1)

namespace Build

/-- The sums in front of each size are the starts of the records. -/
theorem offsetsFrom_eq (offset : Nat) (sizes : List Nat) :
    offsetsFrom offset sizes = (List.range sizes.length).map fun i => offset + startOf sizes i := by
  induction sizes generalizing offset with
  | nil => rfl
  | cons size sizes ih =>
    rw [offsetsFrom, ih, List.length_cons, List.range_succ_eq_map, List.map_cons, List.map_map]
    congr 1
    refine List.map_congr_left ?_
    intro i _
    rw [Function.comp, startOf, startOf, Nat.succ_eq_add_one, List.take_succ_cons, List.sum_cons, Nat.add_assoc]

/-- There is one offset for each size. -/
theorem length_offsetsFrom (offset : Nat) (sizes : List Nat) : (offsetsFrom offset sizes).length = sizes.length := by
  rw [offsetsFrom_eq, List.length_map, List.length_range]

end Build

/-! ## Plain offsets -/

/-- One piece of a byte string that is put together from pieces of one length. -/
theorem take_drop_flatMap {α : Type} {f : α → Bytes} {width : Nat} (hf : ∀ x, (f x).length = width) {xs : List α} {i : Nat}
    (hi : i < xs.length) : ((xs.flatMap f).drop (i * width)).take width = f xs[i] := by
  induction xs generalizing i with
  | nil => exact absurd hi (Nat.not_lt_zero i)
  | cons x xs ih =>
    cases i with
    | zero => rw [Nat.zero_mul, List.drop_zero, List.flatMap_cons, List.take_left' (hf x), List.getElem_cons_zero]
    | succ i =>
      have hsplit : (i + 1) * width = (f x).length + i * width := by rw [Nat.add_mul, hf x]; omega
      rw [List.flatMap_cons, hsplit, List.drop_length_add_append, ih (Nat.lt_of_succ_lt_succ hi), List.getElem_cons_succ]

/-- Pieces of one width add up to a multiple of it. -/
theorem length_flatMap_of_width {α : Type} {f : α → Bytes} {width : Nat} (hf : ∀ x, (f x).length = width) (xs : List α) :
    (xs.flatMap f).length = xs.length * width := by
  induction xs with
  | nil => simp
  | cons x xs ih => rw [List.flatMap_cons, List.length_append, hf x, ih, List.length_cons, Nat.add_mul]; omega

/-- A slice that ends within the bytes can be taken. -/
theorem Region.slice?_eq (r : Region) (start stop : Nat) (h : start ≤ stop) (hsize : stop ≤ r.bytes.length) :
    r.slice? start stop = some ((r.bytes.drop start).take (stop - start)) := by
  rw [slice?, size_eq, if_pos ⟨h, hsize⟩, from?_eq, if_pos (by omega)]
  rfl

namespace Settings

/-- Offsets have eight bytes at most. -/
theorem offsetWidth_le (dataSize : Nat) : offsetWidth dataSize ≤ 8 := by
  unfold offsetWidth
  split
  · decide
  · split <;> decide

/-- A plain offset has room for every offset into the data. -/
theorem lt_capacity_offsetWidth {offset dataSize : Nat} (hle : offset ≤ dataSize) (hword : dataSize < 0x10000000000000000) :
    offset < Bytes.capacity (offsetWidth dataSize) := by
  have h2 : Bytes.capacity 2 = 0x10000 := by decide
  have h4 : Bytes.capacity 4 = 0x100000000 := by decide
  have h8 : Bytes.capacity 8 = 0x10000000000000000 := by decide
  unfold offsetWidth
  split
  · omega
  · split <;> omega

/-- A plain offset is read back from the bytes of all of them. -/
theorem readNat_indexedBytes {r : Region} {offsets : List Nat} {dataSize : Nat} {i : Nat}
    (hbytes : r.bytes = Build.indexedBytes (offsetWidth dataSize) offsets) (hi : i < offsets.length)
    (hle : offsets[i] ≤ dataSize) (hword : dataSize < 0x10000000000000000) :
    r.readNat (i * offsetWidth dataSize) (offsetWidth dataSize) = .ok (some offsets[i]) := by
  have hlen := length_flatMap_of_width (Bytes.length_littleEndian (offsetWidth dataSize)) offsets
  have hend : i * offsetWidth dataSize + offsetWidth dataSize ≤ offsets.length * offsetWidth dataSize := by
    have := Nat.mul_le_mul_right (offsetWidth dataSize) hi
    rwa [Nat.succ_mul] at this
  have hpiece := take_drop_flatMap (Bytes.length_littleEndian (offsetWidth dataSize)) hi
  have hslice := r.slice?_eq (i * offsetWidth dataSize) (i * offsetWidth dataSize + offsetWidth dataSize)
    (Nat.le_add_right _ _) (by rw [hbytes, Build.indexedBytes, hlen]; exact hend)
  rw [Nat.add_sub_cancel_left, hbytes, Build.indexedBytes, hpiece] at hslice
  simp only [Region.readNat, hslice, if_pos (offsetWidth_le dataSize)]
  rw [Bytes.toNatLittle_littleEndian, Nat.mod_eq_of_lt (lt_capacity_offsetWidth hle hword)]

end Settings

/-! ## Sizes on a line -/

namespace AffineSize

/-- A slope that a greatest common divisor may have as a signed word. -/
def HasSlope (e : AffineSize) : Prop :=
  (0 ≤ e.slope ∧ e.slope < 0x8000000000000000) ∨ e.slope = -0x8000000000000000

/-- Such a slope is a signed word. -/
theorem HasSlope.isSigned {e : AffineSize} (h : e.HasSlope) : Word64.IsSigned e.slope := by
  unfold HasSlope at h
  unfold Word64.IsSigned
  omega

/-- The line of two sizes, one after the other, has a slope that sums can be divided by. -/
theorem hasSlope_add (a b : AffineSize) (ha : Word64.IsSigned a.slope) (hb : Word64.IsSigned b.slope) :
    (a.add b).HasSlope := by
  unfold HasSlope add
  simp only [gcd_eq, Int.gcd]
  have hle : Nat.gcd a.slope.natAbs b.slope.natAbs ≤ 0x8000000000000000 := by
    unfold Word64.IsSigned at ha hb
    rcases Nat.eq_zero_or_pos a.slope.natAbs with hzero | hpos
    · rw [hzero, Nat.gcd_zero_left]
      omega
    · have := Nat.gcd_le_left b.slope.natAbs hpos
      omega
  rcases Nat.lt_or_eq_of_le hle with hlt | heq
  · left
    rw [Word64.signed_of_lt hlt]
    omega
  · right
    rw [heq]
    decide

/-- A sum of `n` sizes of a line, at a place that is not negative. -/
def LiesOn (e : AffineSize) (n : Nat) (y : Nat) : Prop :=
  0 ≤ e.solveNth y n ∧ e.applyNth (e.solveNth y n) n = y

/-- No sizes at all lie on every line. -/
theorem liesOn_zero (e : AffineSize) : e.LiesOn 0 0 := by
  unfold LiesOn solveNth applyNth
  simp

/-- A size that fits is not below the constant. -/
theorem constant_le_of_fits {e : AffineSize} {size : Nat} (h : e.fits size = true) : e.constant ≤ size := by
  unfold fits at h
  split at h
  · have : (size : Int) = e.constant := by simpa using h
    omega
  · simp only [Bool.and_eq_true, decide_eq_true_eq] at h
    omega

/-- A size that fits is the size at some place that is not negative, and that place is zero on a flat line. -/
theorem exists_of_fits {e : AffineSize} (hslope : e.HasSlope) {size : Nat} (h : e.fits size = true)
    (hrest : (size : Int) - e.constant < 0x8000000000000000) :
    ∃ k : Int, 0 ≤ k ∧ e.slope * k + e.constant = size ∧ (e.slope = 0 → k = 0) ∧ (e.slope < 0 → k = 0) := by
  unfold fits at h
  by_cases hflat : e.slope = 0
  · rw [if_pos hflat] at h
    have hsize : (size : Int) = e.constant := by simpa using h
    exact ⟨0, Int.le_refl 0, by omega, fun _ => rfl, fun _ => rfl⟩
  · rw [if_neg hflat] at h
    simp only [Bool.and_eq_true, decide_eq_true_eq, beq_iff_eq] at h
    obtain ⟨hpos, hmod⟩ := h
    obtain ⟨k, hk⟩ := Int.dvd_of_tmod_eq_zero hmod
    unfold HasSlope at hslope
    rcases hslope with ⟨hnonneg, -⟩ | hleast
    · have hk0 : 0 ≤ k := by
        refine Int.not_lt.1 ?_
        intro hneg
        have : e.slope * k < 0 := Int.mul_neg_of_pos_of_neg (by omega) hneg
        omega
      exact ⟨k, hk0, by omega, fun h => absurd h hflat, fun h => by omega⟩
    · -- the one negative slope is so steep that only the constant itself fits
      rw [hleast] at hk
      have hk0 : k = 0 := by omega
      subst hk0
      exact ⟨0, Int.le_refl 0, by rw [hleast]; omega, fun _ => rfl, fun _ => rfl⟩

/-- The place of a sum, where the sum is told by the line. -/
theorem solveNth_applyNth {e : AffineSize} (x : Int) (n : Int) (hflat : e.slope = 0 → x = 0) :
    e.solveNth (e.applyNth x n) n = x := by
  unfold solveNth applyNth divisor
  rw [Int.add_sub_cancel]
  by_cases h : e.slope = 0
  · rw [if_pos h, h, hflat h]
    rfl
  · rw [if_neg h, Int.mul_tdiv_cancel_left _ h]

/-- One size more on a sum moves its place no further back. -/
theorem LiesOn.add {e : AffineSize} {n y size : Nat} (hy : e.LiesOn n y) (hslope : e.HasSlope) (h : e.fits size = true)
    (hrest : (size : Int) - e.constant < 0x8000000000000000) :
    e.LiesOn (n + 1) (y + size) ∧ e.solveNth y n ≤ e.solveNth (y + size : Nat) (n + 1 : Nat) := by
  obtain ⟨hx, happly⟩ := hy
  obtain ⟨k, hk, hsize, hflat, -⟩ := exists_of_fits hslope h hrest
  have hx0 : e.slope = 0 → e.solveNth y n = 0 := by
    intro h0
    have hzero : (y : Int) - e.constant * n = 0 := by
      rw [← happly, applyNth, h0]
      omega
    rw [solveNth, hzero]
    exact Int.zero_tdiv _
  have hsum : e.applyNth (e.solveNth y n + k) (n + 1 : Nat) = (y + size : Nat) := by
    unfold applyNth at happly ⊢
    push_cast
    rw [Int.mul_add, Int.mul_add, Int.mul_one]
    omega
  have hplace : e.solveNth (y + size : Nat) (n + 1 : Nat) = e.solveNth y n + k := by
    rw [← hsum]
    exact solveNth_applyNth _ _ fun h0 => by rw [hx0 h0, hflat h0]; rfl
  rw [LiesOn, hplace]
  exact ⟨⟨by omega, hsum⟩, by omega⟩

/-! ## Positions -/

/-- Sizes whose sums the line can tell in signed words. -/
structure Carries (e : AffineSize) (sizes : List Nat) : Prop where
  slope : e.HasSlope
  fits : ∀ size ∈ sizes, e.fits size = true
  count_lt : sizes.length < 0x8000000000000000
  sum_lt : sizes.sum < 0x8000000000000000
  rest_lt : (sizes.sum : Int) - e.constant * sizes.length < 0x8000000000000000

namespace Carries

variable {e : AffineSize} {sizes : List Nat}

/-- What a sum has above its constants does not fall with more sizes. -/
theorem rest_le (h : e.Carries sizes) {i j : Nat} (hij : i ≤ j) (hj : j ≤ sizes.length) :
    (startOf sizes i : Int) - e.constant * i ≤ startOf sizes j - e.constant * j := by
  induction hij with
  | refl => exact Int.le_refl _
  | @step j hij ih =>
    have hprev := ih (by omega)
    have hsize := constant_le_of_fits (h.fits sizes[j] (List.getElem_mem hj))
    rw [startOf_succ hj]
    push_cast
    rw [Int.mul_add, Int.mul_one]
    omega

/-- What the constants leave of a start is less than 2^63. -/
theorem rest_lt_of_le (h : e.Carries sizes) {i : Nat} (hi : i ≤ sizes.length) :
    (startOf sizes i : Int) - e.constant * i < 0x8000000000000000 := by
  have hle := h.rest_le hi (Nat.le_refl _)
  have hlt := h.rest_lt
  rw [startOf_length] at hle
  omega

/-- What the constant leaves of a size is less than 2^63. -/
theorem size_rest_lt (h : e.Carries sizes) {i : Nat} (hi : i < sizes.length) :
    (sizes[i] : Int) - e.constant < 0x8000000000000000 := by
  have hlow := h.rest_le (Nat.zero_le i) (by omega)
  have hhigh := h.rest_lt_of_le (i := i + 1) hi
  rw [startOf_succ hi] at hhigh
  push_cast at hhigh
  rw [Int.mul_add, Int.mul_one] at hhigh
  rw [startOf_zero] at hlow
  simp only [Int.ofNat_zero, Int.mul_zero, Int.sub_zero] at hlow
  omega

/-- The sum of the first sizes lies on the line of as many sizes. -/
theorem liesOn (h : e.Carries sizes) {i : Nat} (hi : i ≤ sizes.length) : e.LiesOn i (startOf sizes i) := by
  induction i with
  | zero => exact liesOn_zero e
  | succ i ih =>
    rw [startOf_succ hi]
    exact ((ih (by omega)).add h.slope (h.fits _ (List.getElem_mem hi)) (h.size_rest_lt hi)).1

/-- Numbers of starts do not fall. -/
theorem place_le_succ (h : e.Carries sizes) {i : Nat} (hi : i < sizes.length) :
    e.solveNth (startOf sizes i) i ≤ e.solveNth (startOf sizes (i + 1)) (i + 1 : Nat) := by
  rw [startOf_succ hi]
  exact ((h.liesOn (by omega)).add h.slope (h.fits _ (List.getElem_mem hi)) (h.size_rest_lt hi)).2

/-- Places are signed words. -/
theorem place_lt (h : e.Carries sizes) {i : Nat} (hi : i ≤ sizes.length) :
    e.solveNth (startOf sizes i) i < 0x8000000000000000 := by
  obtain ⟨hpos, happly⟩ := h.liesOn hi
  have hrest := h.rest_lt_of_le hi
  revert hpos happly
  generalize hplace : e.solveNth (startOf sizes i) i = x
  intro hpos happly
  unfold applyNth at happly
  by_cases hflat : e.slope = 0
  · have hzero : (startOf sizes i : Int) - e.constant * i = 0 := by
      rw [← happly, hflat]
      omega
    rw [solveNth, hzero, Int.zero_tdiv] at hplace
    omega
  · rcases h.slope with ⟨hslope, -⟩ | hleast
    · have := Int.mul_le_mul_of_nonneg_right (show 1 ≤ e.slope by omega) hpos
      omega
    · have := h.rest_le (Nat.zero_le i) hi
      rw [startOf_zero] at this
      simp only [Int.ofNat_zero, Int.mul_zero, Int.sub_zero] at this
      rw [hleast] at happly
      omega

end Carries

/-- The number that stands for the start of record `i`. -/
def position (e : AffineSize) (sizes : List Nat) (i : Nat) : Nat :=
  (e.solveNth (startOf sizes i) i).toNat + i

/-- Positions grow strictly. -/
theorem Carries.position_lt {e : AffineSize} {sizes : List Nat} (h : e.Carries sizes) {i j : Nat} (hij : i < j)
    (hj : j ≤ sizes.length) : e.position sizes i < e.position sizes j := by
  induction hij with
  | refl =>
    have := h.place_le_succ hj
    change e.position sizes i < e.position sizes (i + 1)
    unfold position
    omega
  | @step j hij ih =>
    have := h.place_le_succ (i := j) hj
    have := ih (by omega)
    change e.position sizes i < e.position sizes (j + 1)
    unfold position at this ⊢
    omega

end AffineSize

namespace Word64

/-- The signed reading of a word has the same bits. -/
theorem signed_emod (n : Nat) : signed n % 0x10000000000000000 = n % 0x10000000000000000 :=
  Int.bmod_emod

/-- The unsigned reading takes no notice of whole turns. -/
theorem unsigned_eq_of_emod {x : Int} {n : Nat} (h : x % 0x10000000000000000 = n) : unsigned x = n := by
  rw [unsigned, h, Int.toNat_natCast]

end Word64

namespace Settings

variable {κ ν : Type} {s : Settings κ ν} {sizes : List Nat}

/-- The start of a record is told by its position. -/
theorem compress_startOf (h : s.entryLine.Carries sizes) {i : Nat} (hi : i ≤ sizes.length) :
    s.compress (startOf sizes i) i = .ok (s.entryLine.position sizes i) := by
  have hstart := startOf_le_sum sizes i
  have hsum := h.sum_lt
  have hcount := h.count_lt
  have hpos := (h.liesOn hi).1
  have hlt := h.place_lt hi
  have hsigned : Word64.signed (startOf sizes i) = startOf sizes i := Word64.signed_of_lt (by omega)
  have hindex : Word64.signed i = i := Word64.signed_of_lt (by omega)
  have hword : AffineSize.word? (s.entryLine.solveNth (startOf sizes i) i) =
      some (s.entryLine.solveNth (startOf sizes i) i) := by
    refine if_pos ⟨by omega, hlt⟩
  have hnumber : Word64.unsigned (s.entryLine.solveNth (startOf sizes i) i + i) = s.entryLine.position sizes i := by
    have := Word64.unsigned_of_nonneg (x := s.entryLine.solveNth (startOf sizes i) i + i) (by omega) (by omega)
    rw [AffineSize.position]
    omega
  rw [compress, hsigned, hindex, hword, Option.elim_some, hnumber]

/-- The start of a record is recovered from its position. Positions may reach past the signed words, which does no harm to the
sum modulo a word. -/
theorem decompress_position (h : s.entryLine.Carries sizes) {i : Nat} (hi : i ≤ sizes.length) :
    s.decompress (s.entryLine.position sizes i) i = startOf sizes i := by
  obtain ⟨hpos, happly⟩ := h.liesOn hi
  have hcount := h.count_lt
  have hsum := h.sum_lt
  have hstart := startOf_le_sum sizes i
  unfold decompress
  rw [Word64.signed_of_lt (n := i) (by omega)]
  refine Word64.unsigned_eq_of_emod ?_
  have hnumber : (Word64.signed (s.entryLine.position sizes i) - i) % 0x10000000000000000 =
      s.entryLine.solveNth (startOf sizes i) i % 0x10000000000000000 := by
    rw [Int.sub_emod, Word64.signed_emod, ← Int.sub_emod, AffineSize.position]
    congr 1
    omega
  have hturn : s.entryLine.applyNth (Word64.signed (s.entryLine.position sizes i) - i) i % 0x10000000000000000 =
      s.entryLine.applyNth (s.entryLine.solveNth (startOf sizes i) i) i % 0x10000000000000000 := by
    unfold AffineSize.applyNth
    rw [Int.add_emod, Int.mul_emod, hnumber, ← Int.mul_emod, ← Int.add_emod]
  rw [hturn, happly]
  omega

/-- On a flat line the start of a record is told by its number alone. -/
theorem decompress_zero (hflat : s.entryLine.slope = 0) (hfits : ∀ size ∈ sizes, s.entryLine.fits size = true) {i : Nat}
    (hi : i ≤ sizes.length) (hword : sizes.sum < 0x10000000000000000) : s.decompress 0 i = startOf sizes i := by
  have hstart : (startOf sizes i : Int) = s.entryLine.constant * i := by
    induction i with
    | zero => simp [startOf_zero]
    | succ i ih =>
      have hsize := hfits sizes[i] (List.getElem_mem hi)
      simp only [AffineSize.fits, hflat, if_true, beq_iff_eq] at hsize
      rw [startOf_succ hi]
      push_cast
      rw [ih (by omega), hsize, Int.mul_add, Int.mul_one]
  have hle := startOf_le_sum sizes i
  have hturn : s.entryLine.constant * Word64.signed i % 0x10000000000000000 = startOf sizes i % 0x10000000000000000 := by
    rw [Int.mul_emod, Word64.signed_emod, ← Int.mul_emod, hstart]
  unfold decompress
  refine Word64.unsigned_eq_of_emod ?_
  rw [AffineSize.applyNth, hflat, Int.zero_mul, Int.zero_add, hturn]
  omega

end Settings

namespace Build

variable {κ ν : Type} {s : Settings κ ν} {sizes : List Nat}

/-- The vector of selected offsets has one bit for each record, at the position of its start. -/
theorem selectedBits_eq (h : s.entryLine.Carries sizes) :
    ∃ bits, selectedBits s sizes.sum (offsetsFrom 0 sizes) = .ok bits ∧
      bits.length = s.entryLine.position sizes sizes.length ∧ bits.words.size = wordsFor bits.length ∧
      ∀ p, bitAt bits.words p = true ↔ ∃ i < sizes.length, s.entryLine.position sizes i = p := by
  have hlength := s.compress_startOf h (Nat.le_refl sizes.length)
  rw [startOf_length] at hlength
  have hzip : (offsetsFrom 0 sizes).zipIdx = (List.range sizes.length).map fun i => (startOf sizes i, i) := by
    refine List.ext_getElem (by simp [length_offsetsFrom]) ?_
    intro i hi hi'
    simp [offsetsFrom_eq]
  have hpositions : ((offsetsFrom 0 sizes).zipIdx.mapM fun entry => s.compress entry.1 entry.2) =
      .ok ((List.range sizes.length).map (s.entryLine.position sizes)) := by
    have hcompress : ∀ i ∈ List.range sizes.length, s.compress (startOf sizes i) i = .ok (s.entryLine.position sizes i) :=
      fun i hi => s.compress_startOf h (Nat.le_of_lt (List.mem_range.1 hi))
    rw [hzip, List.mapM_map]
    simp only [Function.comp_def]
    exact Outcome.mapM_ok hcompress
  have hin : ∀ p ∈ (List.range sizes.length).map (s.entryLine.position sizes),
      p / 64 < (BitSet.clear (s.entryLine.position sizes sizes.length)).words.size := by
    intro p hp
    obtain ⟨i, hi, rfl⟩ := List.mem_map.1 hp
    have hlt := h.position_lt (List.mem_range.1 hi) (Nat.le_refl _)
    rw [BitSet.clear, Array.size_replicate]
    exact div_lt_wordsFor hlt
  obtain ⟨bits, hbits, hlen, hsize, hset⟩ := BitSet.setAll_eq hin
  refine ⟨bits, ?_, hlen, ?_, fun p => ?_⟩
  · rw [selectedBits, length_offsetsFrom, hlength, Outcome.ok_bind, hpositions, Outcome.ok_bind, hbits]
    rfl
  · rw [hsize, hlen, BitSet.clear, Array.size_replicate]
  · rw [hset, BitSet.clear, bitAt_replicate]
    simp [List.mem_map]

/-- Select finds the position of every record in such a vector. -/
theorem select_position (h : s.entryLine.Carries sizes) {bits : BitSet}
    (hsize : bits.words.size = wordsFor (s.entryLine.position sizes sizes.length))
    (hset : ∀ p, bitAt bits.words p = true ↔ ∃ i < sizes.length, s.entryLine.position sizes i = p) {block : WordBlock}
    (hblock : block.words = bits.words) (numBits : Nat) {i : Nat} (hi : i < sizes.length) :
    (SelectIndex.ofBlock block numBits).select i = some (s.entryLine.position sizes i) := by
  have hrank := rankAt_of_increasing (fun i j hij hj => h.position_lt hij (Nat.le_of_lt hj)) hset hi
  have hlt := h.position_lt hi (Nat.le_refl _)
  have hwords := wordsFor_mul (s.entryLine.position sizes sizes.length)
  have hselect := SelectIndex.select_rankAt block numBits (p := s.entryLine.position sizes i)
    (by rw [hblock, hsize]; omega) (by rw [hblock]; exact (hset _).2 ⟨i, hi, rfl⟩)
  rwa [hblock, hrank] at hselect

/-- The vector of selected offsets is as long as the settings ask for, and has the words for that. -/
theorem measures_of_selectedBits {settings : Settings κ ν} {dataSize : Nat} {offsets : List Nat}
    {bits : BitSet} (h : selectedBits settings dataSize offsets = .ok bits) :
    settings.compress dataSize offsets.length = .ok bits.length ∧ bits.words.size = wordsFor bits.length := by
  obtain ⟨length, hcompress, h⟩ := Outcome.bind_eq_ok.1 h
  obtain ⟨positions, -, h⟩ := Outcome.bind_eq_ok.1 h
  split at h
  · rename_i set hset
    cases h
    obtain ⟨hlength, hsize⟩ := BitSet.measures_of_setAll hset
    rw [hsize, hlength, BitSet.clear, Array.size_replicate]
    exact ⟨hcompress, rfl⟩
  · cases h

/-- The length of a vector of selected offsets is a word. -/
theorem length_lt_of_selectedBits {settings : Settings κ ν} {dataSize : Nat} {offsets : List Nat} {bits : BitSet}
    (h : selectedBits settings dataSize offsets = .ok bits) : bits.length < 0x10000000000000000 := by
  obtain ⟨hcompress, -⟩ := measures_of_selectedBits h
  rw [Settings.compress] at hcompress
  cases hword : AffineSize.word?
      (settings.entryLine.solveNth (Word64.signed dataSize) (Word64.signed offsets.length)) with
  | none =>
    rw [hword] at hcompress
    cases hcompress
  | some quotient =>
    rw [hword] at hcompress
    rw [← Except.ok.inj hcompress]
    exact Word64.unsigned_lt _

/-- The index that goes into the descriptor is that of the vector of selected offsets. -/
theorem exists_bits_of_planOffsets {settings : Settings κ ν} {dataSize : Nat} {sizes : List Nat} {plan : OffsetPlan}
    (h : planOffsets settings dataSize sizes = .ok plan) {index : SelectIndex} (hindex : plan.select = some index) :
    ∃ bits : BitSet, index = .ofBits bits ∧ bits.words.size = wordsFor bits.length ∧
      bits.length < 0x10000000000000000 := by
  unfold planOffsets at h
  dsimp only at h
  split at h
  · cases h
    exact nomatch hindex
  · obtain ⟨bits, hbits, h⟩ := Outcome.bind_eq_ok.1 h
    rw [Outcome.pure_eq_ok] at h
    split at h
    · rw [← h] at hindex
      exact nomatch hindex
    · rw [← h, Option.some.injEq] at hindex
      exact ⟨bits, hindex.symm, (measures_of_selectedBits hbits).2, length_lt_of_selectedBits hbits⟩
  · cases h
    exact nomatch hindex

end Build

end FrozenTable
