import FrozenTable.Proofs.Lemmas.Offsets

/-!
# Compressed offsets tell records apart

The number that stands for the start of a record is its place on the line of sizes plus the count of the records before it.
The place never falls, and the count grows with every record, so no two records share a number, not even where all records are
empty and all of them start at zero. From the number and the count the start is worked out again.
-/

namespace FrozenTable.Settings

variable {κ ν : Type}

/-- Numbers for the starts of records grow strictly, those of the records are below the one for the end of the data, and each
start is recovered from its number. The line may be flat, at zero too, and the sizes may be any that fit it, as long as their
sum, what it has above the constants, and their count are signed words. -/
theorem compression_is_ordered_and_inverted (s : Settings κ ν) (sizes : List Nat)
    (hslope : 0 ≤ s.entryLine.slope ∧ s.entryLine.slope < 0x8000000000000000)
    (hfits : ∀ size ∈ sizes, s.entryLine.fits size = true) (hcount : sizes.length < 0x8000000000000000)
    (hsum : sizes.sum < 0x8000000000000000)
    (hrest : (sizes.sum : Int) - s.entryLine.constant * sizes.length < 0x8000000000000000) :
    ∃ number : Nat → Nat,
      (∀ i ≤ sizes.length, s.compress (startOf sizes i) i = .ok (number i)) ∧
      (∀ i j, i < j → j ≤ sizes.length → number i < number j) ∧
      (∃ bits, s.compress sizes.sum sizes.length = .ok bits ∧ ∀ i < sizes.length, number i < bits) ∧
      ∀ i ≤ sizes.length, s.decompress (number i) i = startOf sizes i := by
  have hcarries : s.entryLine.Carries sizes := ⟨.inl hslope, hfits, hcount, hsum, hrest⟩
  have hcompress : ∀ i ≤ sizes.length, s.compress (startOf sizes i) i = .ok (s.entryLine.position sizes i) :=
    fun _ hi => s.compress_startOf hcarries hi
  refine ⟨s.entryLine.position sizes, hcompress, fun _ _ hij hj => hcarries.position_lt hij hj, ?_,
    fun _ hi => s.decompress_position hcarries hi⟩
  have hend := hcompress sizes.length (Nat.le_refl _)
  rw [startOf_length] at hend
  exact ⟨_, hend, fun _ hi => hcarries.position_lt hi (Nat.le_refl _)⟩

/-- Sizes of three and some fours, and empty records. -/
theorem compression_of_fours_and_of_nothing :
    (∃ number : Nat → Nat,
      (∀ i ≤ 3, ({ initial with entryLine := ⟨4, 3⟩ } : Settings Unit Unit).compress (startOf [3, 11, 7] i) i =
        .ok (number i)) ∧
      number 0 < number 1 ∧ number 1 < number 2 ∧ number 2 < number 3 ∧
      ({ initial with entryLine := ⟨4, 3⟩ } : Settings Unit Unit).decompress (number 2) 2 = 14) ∧
    ∃ number : Nat → Nat,
      (∀ i ≤ 3, (initial : Settings Unit Unit).compress (startOf [0, 0, 0] i) i = .ok (number i)) ∧
      number 0 < number 1 ∧ number 1 < number 2 ∧ number 2 < number 3 ∧
      (initial : Settings Unit Unit).decompress (number 2) 2 = 0 := by
  constructor
  · obtain ⟨number, hcompress, hlt, -, hdecompress⟩ :=
      compression_is_ordered_and_inverted ({ initial with entryLine := ⟨4, 3⟩ } : Settings Unit Unit) [3, 11, 7]
        (by decide) (by decide) (by decide) (by decide) (by decide)
    exact ⟨number, hcompress, hlt 0 1 (by decide) (by decide), hlt 1 2 (by decide) (by decide),
      hlt 2 3 (by decide) (by decide), hdecompress 2 (by decide)⟩
  · obtain ⟨number, hcompress, hlt, -, hdecompress⟩ :=
      compression_is_ordered_and_inverted (initial : Settings Unit Unit) [0, 0, 0]
        (by decide) (by decide) (by decide) (by decide) (by decide)
    exact ⟨number, hcompress, hlt 0 1 (by decide) (by decide), hlt 1 2 (by decide) (by decide),
      hlt 2 3 (by decide) (by decide), hdecompress 2 (by decide)⟩

/-- The sum has to be a signed word: these two sizes are multiples of three, their sum is read as a negative number, and another
start is recovered from its number. -/
example : ((({ initial with entryLine := ⟨3, 0⟩ } : Settings Unit Unit).compress
    (startOf [0x3FFFFFFFFFFFFFFF, 0x4000000000000002] 2) 2).toOption.map fun number =>
      ({ initial with entryLine := ⟨3, 0⟩ } : Settings Unit Unit).decompress number 2) = some 0x8000000000000002 ∧
    startOf [0x3FFFFFFFFFFFFFFF, 0x4000000000000002] 2 = 0x8000000000000001 := by decide

end FrozenTable.Settings
