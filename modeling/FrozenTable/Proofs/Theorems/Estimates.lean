import FrozenTable.Proofs.Theorems.Buildable

/-!
# Estimating the cost of selected offsets before the size of the data is known to be right

Where a build is free to choose how offsets are kept it compares what plain and selected ones would take, and it does so with the
size that was declared for its data, before the records are there to tell whether it is right. The number that stands for the
end of the data counts the records and the steps of the slope that the size has above the constants of all records. A size that
falls short of the constants by more than the records make up for gives a negative number, which is read as a word close to the
largest one, and its triple is no word any more. This happens for wrong sizes only. The choice then falls on plain offsets, and
the build still ends with the fault of a wrong size.
-/

namespace FrozenTable

/-- Rounding toward zero, a quotient is at least `-n` when less than `n + 1` divisors are missing. -/
theorem tdiv_add_nonneg_iff {x slope : Int} (hslope : 0 < slope) (n : Nat) :
    0 ≤ x.tdiv slope + n ↔ -(slope * (n + 1)) < x := by
  have hmissing : 0 < slope * (n + 1) := Int.mul_pos hslope (by omega)
  rcases Int.le_total 0 x with hpos | hneg
  · have hquotient : 0 ≤ x.tdiv slope := Int.tdiv_nonneg hpos (by omega)
    constructor <;> intro _ <;> omega
  · have hquotient : x.tdiv slope = -(-x / slope) := by
      rw [← Int.tdiv_eq_ediv_of_nonneg (by omega), Int.neg_tdiv, Int.neg_neg]
    have hlt : -x / slope < n + 1 ↔ -x < (n + 1) * slope := Int.ediv_lt_iff_lt_mul hslope
    rw [hquotient]
    rw [Int.mul_comm] at hlt
    omega

/-- A line that rises, by less than 2^20 and from less than 2^20 on. -/
structure AffineSize.Gentle (e : AffineSize) : Prop where
  slope_pos : 1 ≤ e.slope
  slope_lt : e.slope < 0x100000
  constant_nonneg : 0 ≤ e.constant
  constant_lt : e.constant < 0x100000

namespace AffineSize

/-- Where `size` bytes of `n` records end on the line of the records, the records counted in. -/
def endOf (e : AffineSize) (size n : Nat) : Int :=
  (size - e.constant * n).tdiv e.slope + n

variable {e : AffineSize} {n size : Nat}

/-- Constants of fewer than 2^32 records are less than 2^52 bytes. -/
theorem Gentle.constants_lt (h : e.Gentle) (hn : n < 0x100000000) : 0 ≤ e.constant * n ∧ e.constant * n < 0x10000000000000 := by
  obtain ⟨-, -, hnonneg, hlt⟩ := h
  constructor
  · exact Int.mul_nonneg hnonneg (by omega)
  · calc e.constant * n ≤ 0x100000 * n := Int.mul_le_mul_of_nonneg_right (by omega) (by omega)
      _ < 0x10000000000000 := by omega

/-- The end of the data is not far from zero, on one side or the other. -/
theorem Gentle.endOf_bounds (h : e.Gentle) (hn : n < 0x100000000) (hsize : size < 0x1000000000000) :
    -0x10000000000000 < e.endOf size n ∧ e.endOf size n < 0x10000000000000 := by
  obtain ⟨hnonneg, hlt⟩ := h.constants_lt hn
  have hslope := h.slope_pos
  unfold endOf
  generalize e.constant * n = constants at hnonneg hlt ⊢
  have habs := Int.natAbs_tdiv_le_natAbs (size - constants) e.slope
  rcases Int.le_total 0 (size - constants) with hpos | hneg
  · have hquotient : 0 ≤ (size - constants).tdiv e.slope := Int.tdiv_nonneg hpos (by omega)
    omega
  · have hquotient : 0 ≤ (-(size - constants)).tdiv e.slope := Int.tdiv_nonneg (by omega) (by omega)
    rw [Int.neg_tdiv] at hquotient
    omega

/-- The end of the data is negative when more is missing from the constants than the records make up for. -/
theorem Gentle.endOf_nonneg_iff (h : e.Gentle) :
    0 ≤ e.endOf size n ↔ e.constant * n < size + e.slope * (n + 1) := by
  have hslope := h.slope_pos
  rw [endOf, tdiv_add_nonneg_iff (by omega)]
  omega

end AffineSize

namespace Settings

variable {κ ν : Type} {s : Settings κ ν} {n size : Nat}

/-- The number that stands for the end of the data. -/
theorem compress_eq_endOf (h : s.entryLine.Gentle) (hn : n < 0x100000000) (hsize : size < 0x1000000000000) :
    s.compress size n = .ok (Word64.unsigned (s.entryLine.endOf size n)) := by
  obtain ⟨hlow, hhigh⟩ := h.endOf_bounds hn hsize
  have hdivisor : s.entryLine.divisor = s.entryLine.slope := by
    have hslope := h.slope_pos
    rw [AffineSize.divisor, if_neg (by omega)]
  have hquotient : s.entryLine.solveNth (Word64.signed size) (Word64.signed n) = s.entryLine.endOf size n - n := by
    rw [AffineSize.solveNth, hdivisor, Word64.signed_of_lt (by omega), Word64.signed_of_lt (by omega), AffineSize.endOf]
    omega
  have hword : Word64.IsSigned (s.entryLine.endOf size n - n) := by
    constructor <;> omega
  rw [compress, hquotient, AffineSize.word?, if_pos hword, Word64.signed_of_lt (by omega)]
  dsimp only [Option.elim]
  rw [Int.sub_add_cancel]

/-- The triple of the number for the end of the data is a word unless the number is that of a negative end. -/
theorem triple_lt_iff (h : s.entryLine.Gentle) (hn : n < 0x100000000) (hsize : size < 0x1000000000000) :
    Word64.unsigned (s.entryLine.endOf size n) * 3 < 0x10000000000000000 ↔ 0 ≤ s.entryLine.endOf size n := by
  obtain ⟨hlow, hhigh⟩ := h.endOf_bounds hn hsize
  generalize s.entryLine.endOf size n = x at hlow hhigh ⊢
  unfold Word64.unsigned
  omega

/-- A triple that is a word gives the cost that is meant. -/
theorem selectedCost_of_triple {number : Nat} (h : s.compress size n = .ok number) (hword : number * 3 < 0x10000000000000000) :
    s.selectedCost n size = .ok (number * 3 / 64) := by
  have hunsigned : Word64.unsigned (number * 3) = number * 3 := by
    refine Word64.unsigned_eq_of_emod ?_
    rw [Int.natCast_mul]
    exact Int.emod_eq_of_lt (by omega) (by omega)
  rw [selectedCost, h]
  exact congrArg (fun bits => Except.ok (bits / 64)) hunsigned

/-- The triple of a number that stands for a little below zero wraps around to a cost above that of plain offsets. -/
theorem indexedCost_le_of_wrapped {x : Int} (hlow : -0x10000000000000 < x) (hneg : x < 0) (hn : n < 0x100000000) (size : Nat) :
    indexedCost n size ≤ Word64.unsigned (Word64.unsigned x * 3) / 64 := by
  have hplain : indexedCost n size ≤ n * 8 := Nat.mul_le_mul_left n (offsetWidth_le size)
  have hword : (Word64.unsigned x : Int) = x + 0x10000000000000000 := by
    unfold Word64.unsigned
    omega
  -- three words less three times what is missing are one word less that much, and this is still more than all plain offsets
  have htriple : (x + 0x10000000000000000) * 3 % 0x10000000000000000 = 3 * x + 0x10000000000000000 := by omega
  have hcost : Word64.unsigned (Word64.unsigned x * 3) = (3 * x + 0x10000000000000000).toNat := by
    rw [hword, Word64.unsigned, htriple]
  omega

/-- Where the triple is no word plain offsets seem to be cheaper. -/
theorem cheapest_of_wrapped (h : s.entryLine.Gentle) (hn : n < 0x100000000) (hsize : size < 0x1000000000000)
    (hwrapped : s.entryLine.endOf size n < 0) : s.cheapest n size = .ok .indexed := by
  obtain ⟨hlow, -⟩ := h.endOf_bounds hn hsize
  have hcost := indexedCost_le_of_wrapped hlow hwrapped hn size
  have hslope := h.slope_pos
  have hsloped : s.entryLine.isConstant = false := by
    rw [AffineSize.isConstant, beq_eq_false_iff_ne]
    omega
  have hselected : s.selectedCost n size = .ok (Word64.unsigned (Word64.unsigned (s.entryLine.endOf size n) * 3) / 64) := by
    rw [selectedCost, compress_eq_endOf h hn hsize]
    rfl
  rw [cheapest, hsloped, if_neg Bool.false_ne_true, hselected, Outcome.ok_bind, if_pos hcost]
  rfl

/-- However far off the size is, a way to keep offsets is chosen. -/
theorem exists_resolved_of_gentle (h : s.entryLine.Gentle) (hn : n < 0x100000000) (hsize : size < 0x1000000000000) :
    ∃ storage, s.resolved n size = .ok { s with offsetStorage := storage } := by
  unfold resolved cheapest selectedCost
  rw [compress_eq_endOf h hn hsize]
  split
  · split <;> exact ⟨_, rfl⟩
  · exact ⟨s.offsetStorage, rfl⟩

/-- Sizes on the line of the records leave nothing missing from the constants. -/
theorem constants_le_of_fits {sizes : List Nat} (hfits : ∀ size ∈ sizes, s.entryLine.fits size = true) :
    s.entryLine.constant * sizes.length ≤ sizes.sum := by
  induction sizes with
  | nil => simp
  | cons size sizes ih =>
    obtain ⟨hfirst, hrest⟩ := List.forall_mem_cons.1 hfits
    have hconstant := AffineSize.constant_le_of_fits hfirst
    have hconstants := ih hrest
    rw [List.length_cons, List.sum_cons, Int.natCast_add, Int.natCast_one, Int.mul_add, Int.mul_one]
    omega

end Settings

namespace Build

section

variable {κ ν : Type} [HashLibrary] [Ord κ] {settings : Settings κ ν} {entries : List (Entry κ ν)} {records : List Bytes}

/-- What can be built without a declared size is hashed whatever size is declared. -/
theorem Buildable.exists_hashed (hlibrary : HashLibrary.Resolves) (h : Buildable settings none entries) (size : Nat) :
    ∃ scan hash, Hashed settings (some size) (.ofEntries entries) scan hash := by
  obtain ⟨hflaw, hvalues, ⟨fingerprints, hprints, hnodup⟩, -⟩ := h
  have hneed : ∀ entry ∈ entries, settings.needValue entry = .ok () := by
    intro entry hentry
    exact Settings.needValue_of_value_isSome fun hkeeps => hvalues hkeeps entry hentry
  have hcovers : Scan.Covers settings entries ⟨fingerprints.reverse, 0, settings.rangeOf entries⟩ := by
    refine ⟨hneed, ?_, rfl⟩
    rw [List.reverse_reverse]
    exact hprints
  -- the sizes that codecs tell are not asked for, so no codec can fail for one
  have hsizes : entries.mapM (Scan.counted settings true) = .ok (entries.map fun _ => 0) := by
    exact Outcome.mapM_ok fun entry _ => rfl
  have hscanned := Scan.run_eq_ok_iff.2 ⟨hcovers, _, hsizes, by simp⟩
  obtain ⟨hash, hbuilt⟩ : ∃ hash, PerfectHash.build fingerprints.reverse settings.signatureWidth = .ok hash :=
    (PerfectHash.build_eq_ok_iff hlibrary).2 (List.nodup_reverse.2 hnodup)
  exact ⟨_, hash, hflaw, hscanned, hbuilt⟩

variable [Spelled κ]

/-- Records that fit in other respects are refused for a wrong size, however offsets are kept. -/
theorem Hashed.arrange_of_wrong_size {size : Nat} {scan : Scan κ} {hash : PerfectHash}
    (h : Hashed settings (some size) (.ofEntries entries) scan hash) (hcount : entries.length < 0x100000000)
    (hrecords : entries.mapM settings.record = .ok records) (hsmall : ∀ record ∈ records, record.length < 0x100000000)
    (hfits : ∀ record ∈ records, settings.entryLine.fits record.length = true) (hwrong : size ≠ (records.map List.length).sum)
    (storage : OffsetStorage) :
    arrange { settings with offsetStorage := storage } hash size (entries.map .ok) =
      .error (.dataSizeDiffers size (records.map List.length).sum) := by
  have hlength : hash.length = entries.length := h.separates.length_eq.trans h.length_fingerprints
  cases harrange : arrange { settings with offsetStorage := storage } hash size (entries.map .ok) with
  | ok arranged =>
    obtain ⟨written, hwritten, -, hsum⟩ := records_of_arrange harrange
    cases hrecords.symm.trans hwritten
    exact absurd hsum hwrong
  | error fault =>
    obtain ⟨hleads, hnodup, hlt⟩ := h.seats size settings.shardSize
    have hseats : Spread.Seats { settings with offsetStorage := storage } hash _ entries _ := ⟨hleads, hnodup, hlt⟩
    rcases fault_of_arrange (hlength ▸ hcount) hlength.symm hseats h.covers.value harrange with
      ⟨entry, hentry, hfault⟩ | ⟨written, hwritten, -, rfl⟩
    · obtain ⟨record, hmem, hrecord⟩ := Outcome.exists_of_mapM hrecords hentry
      rcases hfault with hunwritten | ⟨record', hrecord', hsize⟩
      · cases hrecord.symm.trans hunwritten
      · cases hrecord.symm.trans hrecord'
        have hfit : { settings with offsetStorage := storage }.entryLine.fits record.length = true := hfits record hmem
        obtain ⟨hlarge, -⟩ := Spread.le_of_checkSize_eq_error hfit hsize
        exact absurd (hsmall record hmem) (Nat.not_lt.2 hlarge)
    · cases hrecords.symm.trans hwritten
      rfl

variable [Spelled ν]

/-- A build of what can be built is refused for a wrong size, even where the choice of how offsets are kept went by it. -/
theorem run_of_wrong_size (hlibrary : HashLibrary.Resolves) (hgentle : settings.entryLine.Gentle)
    (hbuildable : Buildable settings none entries) (hcount : entries.length < 0x100000000)
    (hrecords : entries.mapM settings.record = .ok records)
    (hfits : ∀ record ∈ records, settings.entryLine.fits record.length = true) {size : Nat} (hsize : size < 0x1000000000000)
    (hwrong : size ≠ (records.map List.length).sum) {store : FileStore} {directory : Path} (haccepts : store.Accepts directory)
    (timestamp : Nat) :
    ∃ store', run store settings (some size) timestamp directory (.ofEntries entries) =
      (store', .error (.dataSizeDiffers size (records.map List.length).sum)) := by
  obtain ⟨scan, hash, hhashed⟩ := hbuildable.exists_hashed hlibrary size
  have hsmall : ∀ record ∈ records, record.length < 0x100000000 := by
    obtain ⟨written, hwritten, hsmall, -⟩ := hbuildable.records
    cases hrecords.symm.trans hwritten
    exact hsmall
  obtain ⟨storage, hresolved⟩ := Settings.exists_resolved_of_gentle hgentle hcount hsize
  have harrange := hhashed.arrange_of_wrong_size hcount hrecords hsmall hfits hwrong storage
  have hplan : plan settings (some size) timestamp directory (.ofEntries entries) =
      .ok (planWriting { settings with offsetStorage := storage } hash size scan.range timestamp directory (entries.map .ok)) := by
    refine plan_eq_ok.2 ⟨scan, hash, hhashed, ?_⟩
    rw [hhashed.length_fingerprints, Option.getD_some, hresolved]
    rfl
  obtain ⟨store', hperform⟩ := unhindered_of_accepts haccepts settings (some size) timestamp (.ofEntries entries) _ hplan
  refine ⟨store', ?_⟩
  unfold run
  rw [hplan]
  dsimp only
  rw [carryOut, hperform, Prod.mk.injEq]
  refine ⟨rfl, ?_⟩
  unfold planWriting
  rw [harrange]

/-- Where offsets may be kept in any way and the line of the records rises, by less than 2^20 and from less than 2^20 on, the
number for the end of up to 2^48 bytes of fewer than 2^32 records is a word. The triple of it that selected offsets are judged
by is a word too, exactly when the size does not fall short of the constants of all records by more than a slope for each record
and one more; then the cost is the one that is meant. Otherwise the triple wraps around and plain offsets are chosen. A way to
keep offsets is always chosen, sizes that the records can have always have a triple that is a word, and a build of what can be
built is refused for a wrong size in every case, with a fault that tells both sizes. -/
theorem estimates_wrap_for_wrong_sizes (hlibrary : HashLibrary.Resolves) (hgentle : settings.entryLine.Gentle)
    (hautomatic : settings.offsetStorage = .automatic) :
    (∀ n size, n < 0x100000000 → size < 0x1000000000000 → ∃ number storage, settings.compress size n = .ok number ∧
      settings.resolved n size = .ok { settings with offsetStorage := storage } ∧
      (number * 3 < 0x10000000000000000 ↔
        settings.entryLine.constant * n < size + settings.entryLine.slope * (n + 1)) ∧
      (number * 3 < 0x10000000000000000 → settings.selectedCost n size = .ok (number * 3 / 64)) ∧
      (0x10000000000000000 ≤ number * 3 → storage = .indexed)) ∧
    (∀ sizes : List Nat, sizes.length < 0x100000000 → sizes.sum < 0x1000000000000 →
      (∀ size ∈ sizes, settings.entryLine.fits size = true) →
      ∃ number, settings.compress sizes.sum sizes.length = .ok number ∧ number * 3 < 0x10000000000000000) ∧
    ∀ (entries : List (Entry κ ν)) records size (store : FileStore) timestamp directory, Buildable settings none entries →
      entries.length < 0x100000000 → entries.mapM settings.record = .ok records →
      (∀ record ∈ records, settings.entryLine.fits record.length = true) → size < 0x1000000000000 →
      size ≠ (records.map List.length).sum → store.Accepts directory →
      ∃ store', run store settings (some size) timestamp directory (.ofEntries entries) =
        (store', .error (.dataSizeDiffers size (records.map List.length).sum)) := by
  refine ⟨?_, ?_, ?_⟩
  · intro n size hn hsize
    have hcompress := Settings.compress_eq_endOf hgentle hn hsize
    have htriple := Settings.triple_lt_iff hgentle hn hsize
    obtain ⟨storage, hresolved⟩ := Settings.exists_resolved_of_gentle hgentle hn hsize
    refine ⟨_, storage, hcompress, hresolved, htriple.trans hgentle.endOf_nonneg_iff, ?_, ?_⟩
    · intro hword
      exact Settings.selectedCost_of_triple hcompress hword
    · intro hwrapped
      have hnegative : settings.entryLine.endOf size n < 0 := by
        rw [← Int.not_le, ← htriple]
        exact Nat.not_lt.2 hwrapped
      rw [Settings.resolved, if_pos hautomatic, Settings.cheapest_of_wrapped hgentle hn hsize hnegative] at hresolved
      cases hresolved
      rfl
  · intro sizes hcount hsum hfits
    refine ⟨_, Settings.compress_eq_endOf hgentle hcount hsum, ?_⟩
    have hconstants := Settings.constants_le_of_fits hfits
    have hslope : 0 < settings.entryLine.slope * (sizes.length + 1) := by
      exact Int.mul_pos hgentle.slope_pos (by omega)
    rw [Settings.triple_lt_iff hgentle hcount hsum, hgentle.endOf_nonneg_iff]
    omega
  · intro entries records size store timestamp directory hbuildable hcount hrecords hfits hsize hwrong haccepts
    exact run_of_wrong_size hlibrary hgentle hbuildable hcount hrecords hfits hsize hwrong haccepts timestamp

end

/-- A record of a signed word and a varint, for which no bytes at all were declared, has its own size told in the refusal. -/
theorem refuses_no_bytes_for_one_record : ∃ store,
    @run _ _ HashFunction.byOrder _ _ _ (.rooted ["work"]) (Settings.initial.changed [.keyCodec .long, .valueCodec .varLong])
      (some 0) 0 ["work", "table"] (.ofEntries [⟨7, some 5⟩]) = (store, .error (.dataSizeDiffers 0 9)) := by
  have hgentle : (Settings.initial.changed [.keyCodec .long, .valueCodec .varLong]).entryLine.Gentle := by
    constructor <;> decide
  have hvalue : [Varint.encode 10].flatten = [10] := by
    rw [Varint.encode]
    rfl
  have hrecords : [⟨7, some 5⟩].mapM (Settings.initial.changed [.keyCodec .long, .valueCodec .varLong]).record =
      .ok [Codec.longBytes 7 ++ [10]] := by
    rw [← hvalue]
    rfl
  have hbuildable : Buildable (Settings.initial.changed [.keyCodec .long, .valueCodec .varLong]) none [⟨7, some 5⟩] := by
    refine ⟨rfl, by decide, ⟨[.ofBytes (Codec.longBytes 7)], rfl, by decide⟩, _, hrecords, by decide, ?_⟩
    intro size hsize
    cases hsize
  have haccepts : (FileStore.rooted ["work"]).Accepts ["work", "table"] := by decide +kernel
  obtain ⟨-, -, hrefused⟩ := @estimates_wrap_for_wrong_sizes _ _ HashFunction.byOrder _ _ _ _ HashFunction.resolves_byOrder
    hgentle rfl
  exact hrefused [⟨7, some 5⟩] _ 0 _ 0 _ hbuildable (by decide) hrecords (by decide) (by decide) (by decide) haccepts

end Build

/-- Where one record of a signed word and a varint is said to have no bytes, the number for the end of the data has no
triple. -/
theorem Settings.estimate_of_one_record_is_no_word :
    (Settings.initial.changed [.keyCodec .long, .valueCodec .varLong]).flaw = none ∧
    (Settings.initial.changed [.keyCodec .long, .valueCodec .varLong]).offsetStorage = .automatic ∧
    (Settings.initial.changed [.keyCodec .long, .valueCodec .varLong]).entryLine = ⟨1, 8⟩ ∧
    (Settings.initial.changed [.keyCodec .long, .valueCodec .varLong]).compress 0 1 = .ok 18446744073709551609 ∧
    0x10000000000000000 ≤ 18446744073709551609 * 3 := by
  decide

end FrozenTable
