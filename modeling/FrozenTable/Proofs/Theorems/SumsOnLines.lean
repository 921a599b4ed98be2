import FrozenTable.Proofs.Lemmas.Fitting

/-!
# Sums of sizes stay on lines

The line of records no longer tells keys from values, so everything that is worked out from it rests on sums: a size of one line
and a size of another add up to a size of both lines added, of any number of sizes the sum is told by its place on the line and
by their count, and no steeper line would do. The slopes are folded by Euclid's loop, which is followed here round by round.
-/

namespace FrozenTable.AffineSize

/-! ## Euclid's loop -/

/-- The two numbers of the loop after some rounds. -/
def afterRounds : (a b rounds : Nat) → Nat × Nat
  | a, b, 0 => (a, b)
  | a, b, rounds + 1 => afterRounds b (a % b) rounds

/-- The loop ends with what it returns beside a zero, after no more rounds than the second number says, and no round before the
last one leaves a zero there. -/
theorem exists_lastRound (a b : Nat) : ∃ rounds ≤ b, afterRounds a b rounds = (euclid a b, 0) ∧
    ∀ earlier < rounds, (afterRounds a b earlier).2 ≠ 0 := by
  fun_induction euclid a b with
  | case1 a => exact ⟨0, Nat.le_refl 0, rfl, fun _ hlt => absurd hlt (Nat.not_lt_zero _)⟩
  | case2 a b hb ih =>
    obtain ⟨rounds, hle, hend, hearlier⟩ := ih
    have hless : a % b < b := Nat.mod_lt a (Nat.pos_of_ne_zero hb)
    refine ⟨rounds + 1, by omega, hend, ?_⟩
    intro earlier hlt
    cases earlier with
    | zero => exact hb
    | succ earlier => exact hearlier earlier (Nat.lt_of_succ_lt_succ hlt)

/-- A greatest common divisor that is a signed word is what is found. -/
theorem gcd_of_lt {p q : Int} (h : Int.gcd p q < 0x8000000000000000) : gcd p q = Int.gcd p q := by
  rw [gcd_eq, Word64.signed_of_lt h]

/-! ## Lines added -/

variable {a b c : AffineSize}

theorem add_comm (a b : AffineSize) : a.add b = b.add a := by
  simp only [add, gcd_eq, Int.gcd_comm a.slope, Int.add_comm a.constant]

theorem Rises.add_assoc (ha : a.Rises) (hb : b.Rises) (hc : c.Rises) : (a.add b).add c = a.add (b.add c) := by
  have hslope : ((a.add b).add c).slope = (a.add (b.add c)).slope := by
    rw [(ha.add hb).slope_add hc, ha.slope_add hb, ha.slope_add (hb.add hc), hb.slope_add hc, Int.gcd_assoc]
  have hconstant : ((a.add b).add c).constant = (a.add (b.add c)).constant := Int.add_assoc ..
  exact AffineSize.ext hslope hconstant

/-- A size fits a line that does not fall when it is the size at some place that is not negative. -/
theorem fits_iff_exists (hslope : 0 ≤ a.slope) {size : Int} : a.fits size = true ↔ ∃ x, 0 ≤ x ∧ a.apply x = size := by
  rw [fits_iff]
  constructor
  · rintro ⟨hlow, x, hx⟩
    rcases Int.lt_or_eq_of_le hslope with hrising | hflat
    · have hpos : 0 ≤ a.slope * x := by omega
      refine ⟨x, Int.nonneg_of_mul_nonneg_right hpos hrising, ?_⟩
      rw [apply, ← hx, Int.sub_add_cancel]
    · refine ⟨0, Int.le_refl 0, ?_⟩
      rw [apply, ← hflat]
      rw [← hflat] at hx
      omega
  · rintro ⟨x, hx, rfl⟩
    have hpos : 0 ≤ a.slope * x := Int.mul_nonneg hslope hx
    rw [apply, Int.add_sub_cancel]
    exact ⟨by omega, Int.dvd_mul_right ..⟩

/-- Whatever divides what all sums of two sizes have above the constants divides the slope: the first step of either line alone
is such a sum. -/
theorem Rises.dvd_slope_add (ha : a.Rises) (hb : b.Rises) {d : Int}
    (h : ∀ y z, a.fits y = true → b.fits z = true → d ∣ y + z - (a.constant + b.constant)) : d ∣ (a.add b).slope := by
  have hfits {e : AffineSize} (he : e.Rises) {x : Int} (hx : 0 ≤ x) : e.fits (e.apply x) = true :=
    (fits_iff_exists he.1).2 ⟨x, hx, rfl⟩
  have hleft := h _ _ (hfits ha (show 0 ≤ 1 by decide)) (hfits hb (Int.le_refl 0))
  have hright := h _ _ (hfits ha (Int.le_refl 0)) (hfits hb (show 0 ≤ 1 by decide))
  have hone : a.apply 1 + b.apply 0 - (a.constant + b.constant) = a.slope := by
    simp only [apply]
    omega
  have hother : a.apply 0 + b.apply 1 - (a.constant + b.constant) = b.slope := by
    simp only [apply]
    omega
  rw [hone] at hleft
  rw [hother] at hright
  rw [ha.slope_add hb]
  exact Int.dvd_coe_gcd hleft hright

/-- The sum of any number of sizes of a line is told by a place that is not negative and their count. -/
theorem exists_applyNth_eq_sum (hslope : 0 ≤ a.slope) {sizes : List Int} (h : ∀ size ∈ sizes, a.fits size = true) :
    ∃ x, 0 ≤ x ∧ a.applyNth x sizes.length = sizes.sum := by
  induction sizes with
  | nil => exact ⟨0, Int.le_refl 0, by simp [applyNth]⟩
  | cons size sizes ih =>
    obtain ⟨x, hx, hsum⟩ := ih fun size hsize => h size (List.mem_cons_of_mem _ hsize)
    obtain ⟨k, hk, rfl⟩ := (fits_iff_exists hslope).1 (h size List.mem_cons_self)
    refine ⟨k + x, Int.add_nonneg hk hx, ?_⟩
    rw [List.sum_cons, ← hsum, List.length_cons]
    simp only [applyNth, apply]
    push_cast
    rw [Int.mul_add, Int.mul_add, Int.mul_one]
    omega

/-- For lines that do not fall: a size fits a line exactly when it is the size at some place that is not negative. Adding lines
takes no notice of order and grouping. A size of one and a size of another add up to one of both, and the slope of both is the
greatest number that divides all such sums without the constants. Of slopes of any sign Euclid's loop finds the greatest common
divisor after finitely many rounds, and it is returned wherever it is a signed word. The sum of any number of sizes of a line is
the size of so many at some place that is not negative, where the line of so many has it too, and unless the line is flat that
place is worked out again. -/
theorem sums_lie_on_lines (ha : a.Rises) (hb : b.Rises) (hc : c.Rises) :
    (∀ size, a.fits size = true ↔ ∃ x, 0 ≤ x ∧ a.apply x = size) ∧
    a.add b = b.add a ∧
    (a.add b).add c = a.add (b.add c) ∧
    (∀ y z, a.fits y = true → b.fits z = true → (a.add b).fits (y + z) = true) ∧
    (∀ d, (∀ y z, a.fits y = true → b.fits z = true → d ∣ y + z - (a.constant + b.constant)) → d ∣ (a.add b).slope) ∧
    (∀ p q : Int,
      (∃ rounds ≤ q.natAbs, afterRounds p.natAbs q.natAbs rounds = (Int.gcd p q, 0) ∧
        ∀ earlier < rounds, (afterRounds p.natAbs q.natAbs earlier).2 ≠ 0) ∧
      (Int.gcd p q < 0x8000000000000000 → gcd p q = Int.gcd p q)) ∧
    ∀ sizes : List Int, (∀ size ∈ sizes, a.fits size = true) →
      ∃ x, 0 ≤ x ∧ a.applyNth x sizes.length = sizes.sum ∧ (a.times sizes.length).apply x = sizes.sum ∧
        (a.slope ≠ 0 → a.solveNth sizes.sum sizes.length = x) := by
  refine ⟨fun _ => fits_iff_exists ha.1, add_comm a b, ha.add_assoc hb hc, fun _ _ => fits_add ha hb,
    fun _ => ha.dvd_slope_add hb, ?_, ?_⟩
  · intro p q
    have hloop := exists_lastRound p.natAbs q.natAbs
    rw [euclid_eq_gcd] at hloop
    exact ⟨hloop, gcd_of_lt⟩
  · intro sizes hsizes
    obtain ⟨x, hx, hsum⟩ := exists_applyNth_eq_sum ha.1 hsizes
    refine ⟨x, hx, hsum, hsum, ?_⟩
    intro hrising
    rw [← hsum]
    exact solveNth_applyNth x _ fun hflat => absurd hflat hrising

/-- Lines of slopes 4, 6 and 0: sizes 9 and 14 of the first two add up to a size of slope 2 and no steeper one, and three sizes
of the first line are told by the place 3 and worked out again. -/
theorem sums_of_fours_and_sixes :
    (⟨4, 1⟩ : AffineSize).Rises ∧ (⟨6, 2⟩ : AffineSize).Rises ∧ (always 8).Rises ∧
    add ⟨4, 1⟩ ⟨6, 2⟩ = ⟨2, 3⟩ ∧ (add ⟨4, 1⟩ ⟨6, 2⟩).fits (9 + 14) = true ∧
    ((add ⟨4, 1⟩ ⟨6, 2⟩).add (always 8) = add ⟨4, 1⟩ (add ⟨6, 2⟩ (always 8))) ∧
    (∀ d, (∀ y z, fits ⟨4, 1⟩ y = true → fits ⟨6, 2⟩ z = true → d ∣ y + z - 3) → d ∣ 2) ∧
    gcd (-12) 18 = 6 ∧ ∃ x, 0 ≤ x ∧ applyNth ⟨4, 1⟩ x 3 = 15 ∧ solveNth ⟨4, 1⟩ 15 3 = x := by
  have ha : (⟨4, 1⟩ : AffineSize).Rises := by constructor <;> decide
  have hb : (⟨6, 2⟩ : AffineSize).Rises := by constructor <;> decide
  have hc : (always 8).Rises := rises_always 8
  obtain ⟨-, -, hassoc, hadd, htight, hgcd, hsums⟩ := sums_lie_on_lines ha hb hc
  obtain ⟨x, hx, hsum, -, hsolve⟩ := hsums [1, 9, 5] (by decide)
  exact ⟨ha, hb, hc, by decide, hadd 9 14 (by decide) (by decide), hassoc, htight, (hgcd (-12) 18).2 (by decide), x, hx, hsum,
    hsolve (by decide)⟩

/-- The one greatest common divisor of signed words that is none. -/
example : gcd (-0x8000000000000000) 0 = -0x8000000000000000 := by decide

end FrozenTable.AffineSize
