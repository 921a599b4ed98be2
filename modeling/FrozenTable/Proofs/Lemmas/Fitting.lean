import FrozenTable.Proofs.Lemmas.Lookups

/-!
# The size of a record is on the line of records

The line of records is worked out from the lines of the codecs: the slopes fold into their greatest common divisor. A size on
one line followed by a size on the other is on the line of both, so with codecs that tell the truth about their sizes
(`Codec.Exact`) every record has a size that the line of records admits.
-/

namespace FrozenTable

/-! ## Lines -/

namespace AffineSize

/-- A line that does not fall, by a slope that is a signed word. -/
def Rises (e : AffineSize) : Prop :=
  0 ≤ e.slope ∧ e.slope < 0x8000000000000000

/-- A size fits a line when it is the constant and a multiple of the slope more. -/
theorem fits_iff {e : AffineSize} {size : Int} : e.fits size = true ↔ e.constant ≤ size ∧ e.slope ∣ size - e.constant := by
  unfold fits
  by_cases hflat : e.slope = 0
  · rw [if_pos hflat, hflat, zero_dvd_iff, beq_iff_eq]
    omega
  · rw [if_neg hflat, Int.dvd_iff_tmod_eq_zero]
    simp only [Bool.and_eq_true, decide_eq_true_eq, beq_iff_eq, Int.sub_nonneg]

/-- A line that does not fall has a slope. -/
theorem Rises.hasSlope {e : AffineSize} (h : e.Rises) : e.HasSlope :=
  .inl h

/-- The line of a size that never changes does not fall. -/
theorem rises_always (value : Int) : (always value).Rises :=
  ⟨Int.le_refl 0, show (0 : Int) < 0x8000000000000000 by decide⟩

variable {a b : AffineSize}

/-- The slope of the line of two sizes, one after the other. -/
theorem Rises.slope_add (ha : a.Rises) (hb : b.Rises) : (a.add b).slope = Int.gcd a.slope b.slope := by
  obtain ⟨ha, ha'⟩ := ha
  obtain ⟨hb, hb'⟩ := hb
  unfold add
  simp only [gcd_eq, Int.gcd]
  refine Word64.signed_of_lt ?_
  rcases Nat.eq_zero_or_pos a.slope.natAbs with hzero | hpos
  · rw [hzero, Nat.gcd_zero_left]
    omega
  · have hle := Nat.gcd_le_left b.slope.natAbs hpos
    omega

/-- The line of two sizes, one after the other, does not fall if neither of theirs does. -/
theorem Rises.add (ha : a.Rises) (hb : b.Rises) : (a.add b).Rises := by
  have hslope := ha.slope_add hb
  have hword : (a.add b).HasSlope := hasSlope_add a b ⟨by have := ha.1; omega, ha.2⟩ ⟨by have := hb.1; omega, hb.2⟩
  unfold HasSlope at hword
  unfold Rises
  omega

/-- A size on one line and a size on another are together on the line of both. -/
theorem fits_add (ha : a.Rises) (hb : b.Rises) {x y : Int} (hx : a.fits x = true) (hy : b.fits y = true) :
    (a.add b).fits (x + y) = true := by
  rw [fits_iff] at hx hy ⊢
  obtain ⟨hlow, hdvd⟩ := hx
  obtain ⟨hlow', hdvd'⟩ := hy
  have hconstant : (a.add b).constant = a.constant + b.constant := rfl
  have hsplit : x + y - (a.constant + b.constant) = (x - a.constant) + (y - b.constant) := by omega
  rw [ha.slope_add hb, hconstant, hsplit]
  refine ⟨by omega, Int.dvd_add ?_ ?_⟩
  · exact Int.dvd_trans (Int.gcd_dvd_left ..) hdvd
  · exact Int.dvd_trans (Int.gcd_dvd_right ..) hdvd'

end AffineSize

/-! ## Codecs -/

/-- What a codec says about sizes is true: an item takes as many bytes as it is said to, and the line, where there is one, does
not fall and has the size of every item that can be written. -/
structure Codec.Exact {α : Type} (c : Codec α) : Prop where
  sizeOf_eq : ∀ x bytes, c.write x = .ok bytes → c.sizeOf x = .ok bytes.length
  rises : ∀ line, c.sizeLine = some line → line.Rises
  fits : ∀ line, c.sizeLine = some line → ∀ x bytes, c.write x = .ok bytes → line.fits bytes.length = true

namespace Codec.Exact

variable {α : Type} {c : Codec α}

/-- The line that settings take for a codec does not fall, also where the codec says none. -/
theorem rises_lineOf (h : c.Exact) : (Settings.lineOf c).Rises := by
  unfold Settings.lineOf
  cases hline : c.sizeLine with
  | none =>
    show (AffineSize.multipleOf 1).Rises
    unfold AffineSize.Rises AffineSize.multipleOf
    decide
  | some line => exact h.rises line hline

/-- The size of every item that can be written lies on that line. -/
theorem fits_lineOf (h : c.Exact) {x : α} {bytes : Bytes} (hwrite : c.write x = .ok bytes) :
    (Settings.lineOf c).fits bytes.length = true := by
  unfold Settings.lineOf
  cases hline : c.sizeLine with
  | none =>
    rw [Option.getD_none, AffineSize.fits_iff]
    exact ⟨Int.natCast_nonneg _, Int.one_dvd _⟩
  | some line => exact h.fits line hline x bytes hwrite

end Codec.Exact

/-! ## Records -/

namespace Settings

variable {κ ν : Type} {s : Settings κ ν}

/-- What the codecs of settings say about sizes is true. -/
structure Exact (s : Settings κ ν) : Prop where
  key : ∀ codec, s.keyCodec = some codec → codec.Exact
  value : ∀ codec, s.valueCodec = some codec → codec.Exact

/-- The size of what a record has of a key, as far as the codec knows it. -/
def keySize (s : Settings κ ν) (key : κ) : Except Fault Nat :=
  if s.storesKeys then s.needKeyCodec >>= fun codec => codec.sizeOf key else .ok 0

/-- The size of what a record has of a value, as far as the codec knows it. -/
def valueSize (s : Settings κ ν) (value : Option ν) : Except Fault Nat :=
  match s.valueCodec, value with
  | some codec, some value => codec.sizeOf value
  | _, _ => .ok 0

/-- A record is as long as its key and its value. -/
theorem recordSize_eq (s : Settings κ ν) (entry : Entry κ ν) :
    s.recordSize entry = s.keySize entry.key >>= fun keySize => (s.valueSize entry.value).map (keySize + ·) := by
  have hvalue (keySize : Nat) : (s.valueSize entry.value).map (keySize + ·) =
      (match s.valueCodec, entry.value with
        | some codec, some value => do pure (keySize + (← codec.sizeOf value))
        | _, _ => pure (keySize + 0)) := by
    unfold valueSize
    split
    · rename_i codec value _ _
      cases codec.sizeOf value <;> rfl
    · rfl
  simp only [hvalue]
  unfold recordSize keySize
  by_cases hstores : s.storesKeys = true
  · rw [if_pos hstores, if_pos hstores]
    cases s.needKeyCodec <;> cases s.valueCodec <;> cases entry.value <;> rfl
  · rw [if_neg hstores, if_neg hstores]
    cases s.valueCodec <;> cases entry.value <;> rfl

/-- An entry that passes has a value where values are kept. -/
theorem value_isSome_of_needValue {entry : Entry κ ν} (h : s.needValue entry = .ok ()) (hvalues : s.hasValues = true) :
    entry.value.isSome = true := by
  rw [needValue, hvalues] at h
  cases hvalue : entry.value with
  | none =>
    rw [hvalue] at h
    cases h
  | some value => rfl

/-- An entry with a value, where one is needed, is taken. -/
theorem needValue_of_value_isSome {entry : Entry κ ν} (h : s.hasValues = true → entry.value.isSome = true) :
    s.needValue entry = .ok () := by
  rw [needValue, if_neg]
  rintro ⟨hvalues, hnone⟩
  rw [Option.isNone_iff_eq_none] at hnone
  have hsome := h hvalues
  rw [hnone] at hsome
  cases hsome

namespace Exact

/-- The line of keys does not fall. -/
theorem rises_keyLine (h : s.Exact) : s.keyLine.Rises := by
  unfold keyLine
  cases hcodec : s.keyCodec with
  | none => exact AffineSize.rises_always 0
  | some codec =>
    dsimp only
    split
    · exact (h.key codec hcodec).rises_lineOf
    · exact AffineSize.rises_always 0

/-- The line of values does not fall. -/
theorem rises_valueLine (h : s.Exact) : s.valueLine.Rises := by
  unfold valueLine
  cases hcodec : s.valueCodec with
  | none => exact AffineSize.rises_always 0
  | some codec => exact (h.value codec hcodec).rises_lineOf

/-- Keys are as long as their codec says. -/
theorem keySize_eq (h : s.Exact) {key : κ} {bytes : Bytes} (hkey : s.keyPart key = .ok bytes) :
    s.keySize key = .ok bytes.length := by
  unfold keyPart at hkey
  unfold keySize
  by_cases hstores : s.storesKeys = true
  · rw [if_pos hstores] at hkey ⊢
    obtain ⟨codec, hcodec, hwrite⟩ := Outcome.bind_eq_ok.1 hkey
    rw [hcodec]
    exact (h.key codec (needKeyCodec_eq_ok hcodec)).sizeOf_eq key bytes hwrite
  · rw [if_neg hstores] at hkey ⊢
    cases hkey
    rfl

/-- Values are as long as their codec says. -/
theorem valueSize_eq (h : s.Exact) {value : Option ν} {bytes : Bytes} (hvalue : s.valuePart value = .ok bytes) :
    s.valueSize value = .ok bytes.length := by
  unfold valuePart at hvalue
  unfold valueSize
  cases hcodec : s.valueCodec with
  | none =>
    rw [hcodec] at hvalue
    cases hvalue
    rfl
  | some codec =>
    cases value with
    | none =>
      rw [hcodec] at hvalue
      cases hvalue
      rfl
    | some item =>
      rw [hcodec] at hvalue
      exact (h.value codec hcodec).sizeOf_eq item bytes hvalue

/-- What is known of the size of a record is what it takes. -/
theorem recordSize_eq_ok (h : s.Exact) {entry : Entry κ ν} {record : Bytes} (hrecord : s.record entry = .ok record) :
    s.recordSize entry = .ok record.length := by
  simp only [record_eq, Outcome.bind_eq_ok, Outcome.map_eq_ok] at hrecord
  obtain ⟨front, hfront, back, hback, rfl⟩ := hrecord
  rw [recordSize_eq, h.keySize_eq hfront, Outcome.ok_bind, h.valueSize_eq hback, List.length_append]
  rfl

/-- All records are as long as the codecs say. -/
theorem recordSizes_eq (h : s.Exact) {entries : List (Entry κ ν)} {records : List Bytes}
    (hrecords : entries.mapM s.record = .ok records) : entries.mapM s.recordSize = .ok (records.map List.length) := by
  rw [Outcome.mapM_eq_ok] at hrecords ⊢
  induction entries generalizing records with
  | nil =>
    rw [List.map_eq_nil_iff.1 hrecords.symm]
    rfl
  | cons entry entries ih =>
    cases records with
    | nil => exact nomatch hrecords
    | cons record records =>
      rw [List.map_cons, List.map_cons, List.cons.injEq] at hrecords
      rw [List.map_cons, h.recordSize_eq_ok hrecords.1, ih hrecords.2]
      rfl

/-- What a record has of its key lies on the line of keys. -/
theorem fits_keyPart (h : s.Exact) {key : κ} {bytes : Bytes} (hkey : s.keyPart key = .ok bytes) :
    s.keyLine.fits bytes.length = true := by
  unfold keyPart at hkey
  by_cases hstores : s.storesKeys = true
  · rw [if_pos hstores] at hkey
    obtain ⟨codec, hcodec, hwrite⟩ := Outcome.bind_eq_ok.1 hkey
    have hcodec := needKeyCodec_eq_ok hcodec
    simp only [keyLine, hcodec, if_pos hstores]
    exact (h.key codec hcodec).fits_lineOf hwrite
  · rw [if_neg hstores] at hkey
    cases hkey
    have hline : s.keyLine = .always 0 := by
      unfold keyLine
      cases s.keyCodec with
      | none => rfl
      | some codec => exact if_neg hstores
    rw [hline, AffineSize.fits_always]
    rfl

/-- What a record has of its value lies on the line of values. -/
theorem fits_valuePart (h : s.Exact) {entry : Entry κ ν} (hneed : s.needValue entry = .ok ()) {bytes : Bytes}
    (hvalue : s.valuePart entry.value = .ok bytes) : s.valueLine.fits bytes.length = true := by
  unfold valuePart at hvalue
  unfold valueLine
  cases hcodec : s.valueCodec with
  | none =>
    rw [hcodec] at hvalue
    cases hvalue
    rw [AffineSize.fits_always]
    rfl
  | some codec =>
    have hvalues : s.hasValues = true := by rw [hasValues, hcodec]; rfl
    obtain ⟨item, hitem⟩ := Option.isSome_iff_exists.1 (value_isSome_of_needValue hneed hvalues)
    rw [hcodec, hitem] at hvalue
    exact (h.value codec hcodec).fits_lineOf hvalue

/-- The size of a record is on the line of keys and values. -/
theorem fits_record (h : s.Exact) {entry : Entry κ ν} (hneed : s.needValue entry = .ok ()) {record : Bytes}
    (hrecord : s.record entry = .ok record) : (s.keyLine.add s.valueLine).fits record.length = true := by
  simp only [record_eq, Outcome.bind_eq_ok, Outcome.map_eq_ok] at hrecord
  obtain ⟨front, hfront, back, hback, rfl⟩ := hrecord
  rw [List.length_append, Int.natCast_add]
  exact AffineSize.fits_add h.rises_keyLine h.rises_valueLine (h.fits_keyPart hfront) (h.fits_valuePart hneed hback)

end Exact

end Settings

end FrozenTable
