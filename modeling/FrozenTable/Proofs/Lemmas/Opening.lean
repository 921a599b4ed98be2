import FrozenTable.Proofs.Lemmas.Building
import FrozenTable.Proofs.Lemmas.Persisting
import FrozenTable.Resident.Map

/-!
# An opened table finds the start of every record

However a table is opened, and however its offsets are kept, each bucket leads to the start of its record in the data. What may
go wrong after a build that ended well is gathered in `Descriptor.Supported`: lengths that MessagePack has no form for and, where
offsets are selected, sums that the line of the settings does not tell in words. Settings that changes made have a line on which
this cannot happen but for data of 2^63 bytes (`Settings.formed_changed`, `Build.supported_of_run`); a line that was stored with
them may be any, and with one that falls two records may have the same number. The reader has to know the codecs, and the library
of hash functions to read back what it made. Then the keys of the range are the only thing left that opening may fail for, as
they are read by a codec.
-/

namespace FrozenTable

variable {κ ν : Type}

/-! ## Settings -/

namespace Settings

/-- Settings as changes make them: their line is that of their codecs, and their numbers fit their types. -/
structure Formed (s : Settings κ ν) : Prop where
  entryLine_eq : s.entryLine = s.keyLine.add s.valueLine
  keySlope : Word64.IsSigned s.keyLine.slope
  valueSlope : Word64.IsSigned s.valueLine.slope
  bounded : s.Bounded

theorem keyLine_with (s : Settings κ ν) (line : AffineSize) : { s with entryLine := line }.keyLine = s.keyLine := rfl

theorem valueLine_with (s : Settings κ ν) (line : AffineSize) : { s with entryLine := line }.valueLine = s.valueLine := rfl

/-- The line of changed codecs is that of a key and a value. -/
theorem entryLine_refreshed (s : Settings κ ν) :
    (refreshed s).entryLine = (refreshed s).keyLine.add (refreshed s).valueLine := by
  have hkey := keyLine_with s (s.keyLine.add s.valueLine)
  have hvalue := valueLine_with s (s.keyLine.add s.valueLine)
  rw [refreshed, hkey, hvalue]

/-- A change leaves the line that goes with the codecs. -/
theorem entryLine_change {s : Settings κ ν} (h : s.entryLine = s.keyLine.add s.valueLine) (change : Change κ ν) :
    (s.change change).entryLine = (s.change change).keyLine.add (s.change change).valueLine := by
  cases change with
  | keyCodec | valueCodec | keyStorage => exact entryLine_refreshed _
  | validation | offsetStorage | rangeChecking | signatureWidth | maxHeap | maxDataHeap | shardSize | describeDuplicates =>
    exact h

/-- The line of settings as changes make them does not fall, unless it is too steep for any size but one. -/
theorem Formed.hasSlope {s : Settings κ ν} (h : s.Formed) : s.entryLine.HasSlope := by
  rw [h.entryLine_eq]
  exact AffineSize.hasSlope_add _ _ h.keySlope h.valueSlope

/-- Settings that were made by changes have the line of their codecs. -/
theorem entryLine_changed (changes : List (Change κ ν)) : (initial.changed changes).entryLine =
    (initial.changed changes : Settings κ ν).keyLine.add (initial.changed changes : Settings κ ν).valueLine := by
  have hinitial : (initial : Settings κ ν).entryLine =
      (initial : Settings κ ν).keyLine.add (initial : Settings κ ν).valueLine := by
    simp only [initial, keyLine, valueLine]
    decide
  refine List.foldlRecOn (motive := fun s => s.entryLine = s.keyLine.add s.valueLine) changes change hinitial ?_
  intro s hs change _
  exact entryLine_change hs change

/-- A change to a number that fits its type, or to a codec whose line has a signed word for its slope. -/
def Change.Fits : Change κ ν → Prop
  | .keyCodec codec => Word64.IsSigned (lineOf codec).slope
  | .valueCodec codec => Word64.IsSigned (lineOf codec).slope
  | .signatureWidth width => width < 0x100000000
  | .maxHeap limit | .maxDataHeap limit | .shardSize limit => limit < 0x10000000000000000
  | .validation _ | .keyStorage _ | .offsetStorage _ | .rangeChecking _ | .describeDuplicates _ => True

instance : (change : Change κ ν) → Decidable change.Fits
  | .keyCodec _ | .valueCodec _ => inferInstanceAs (Decidable (Word64.IsSigned _))
  | .signatureWidth _ | .maxHeap _ | .maxDataHeap _ | .shardSize _ => inferInstanceAs (Decidable (_ < _))
  | .validation _ | .keyStorage _ | .offsetStorage _ | .rangeChecking _ | .describeDuplicates _ => isTrue trivial

/-- Settings in which everything that a change may replace fits. -/
structure Fits (s : Settings κ ν) : Prop where
  key : ∀ codec, s.keyCodec = some codec → Word64.IsSigned (lineOf codec).slope
  value : ∀ codec, s.valueCodec = some codec → Word64.IsSigned (lineOf codec).slope
  signatureWidth : s.signatureWidth < 0x100000000
  maxHeap : s.maxHeap < 0x10000000000000000
  maxDataHeap : s.maxDataHeap < 0x10000000000000000
  shardSize : s.shardSize < 0x10000000000000000

/-- A change that fits leaves settings that do. -/
theorem Fits.change {s : Settings κ ν} (h : s.Fits) {change : Change κ ν} (hchange : change.Fits) :
    (s.change change).Fits := by
  cases change with
  | keyCodec codec => exact { h with key := fun _ hcodec => Option.some.inj hcodec ▸ hchange }
  | valueCodec codec => exact { h with value := fun _ hcodec => Option.some.inj hcodec ▸ hchange }
  | signatureWidth width => exact { h with signatureWidth := hchange }
  | maxHeap limit => exact { h with maxHeap := hchange }
  | maxDataHeap limit => exact { h with maxDataHeap := hchange }
  | shardSize size => exact { h with shardSize := hchange }
  | validation | keyStorage | offsetStorage | rangeChecking | describeDuplicates => exact { h with }

/-- Settings that changes made fit if each of the changes does. -/
theorem fits_changed {changes : List (Change κ ν)} (h : ∀ change ∈ changes, change.Fits) :
    (initial.changed changes : Settings κ ν).Fits := by
  have hshard : defaultShardSize < 0x10000000000000000 := by decide
  have hinitial : (initial : Settings κ ν).Fits :=
    ⟨nofun, nofun, Nat.two_pow_pos 32, Nat.two_pow_pos 64, Nat.two_pow_pos 64, hshard⟩
  refine List.foldlRecOn (motive := Fits) changes Settings.change hinitial ?_
  intro s hs change hmem
  exact hs.change (h change hmem)

/-- The slopes of the lines of keys and values are signed words. -/
theorem Fits.slopes {s : Settings κ ν} (h : s.Fits) :
    Word64.IsSigned s.keyLine.slope ∧ Word64.IsSigned s.valueLine.slope := by
  have hnone : Word64.IsSigned (AffineSize.always 0).slope := by decide
  constructor
  · unfold keyLine
    split
    · rename_i codec hcodec
      split
      · exact h.key codec hcodec
      · exact hnone
    · exact hnone
  · unfold valueLine
    split
    · rename_i codec hcodec
      exact h.value codec hcodec
    · exact hnone

/-- Settings are as changes make them when changes that fit have made them, and the constants of their lines add up to a signed
word. -/
theorem formed_changed {changes : List (Change κ ν)} (h : ∀ change ∈ changes, change.Fits)
    (hconstant : Word64.IsSigned ((initial.changed changes : Settings κ ν).keyLine.constant +
      (initial.changed changes : Settings κ ν).valueLine.constant)) :
    (initial.changed changes : Settings κ ν).Formed := by
  have hfits := fits_changed h
  have hline := entryLine_changed changes
  obtain ⟨hkey, hvalue⟩ := hfits.slopes
  refine ⟨hline, hkey, hvalue, hfits.signatureWidth, hfits.maxHeap, hfits.maxDataHeap, hfits.shardSize, ?_, ?_⟩
  · rw [hline]
    exact (AffineSize.hasSlope_add _ _ hkey hvalue).isSigned
  · rw [hline]
    exact hconstant

end Settings

/-- A library that reads back the functions it has made. -/
def HashLibrary.Restores [HashLibrary] : Prop :=
  ∀ keys, keys ≠ [] → load (train keys).bytes = some (train keys)

/-- A hash that was built is found again by its bytes. -/
theorem PerfectHash.loadable_of_build [HashLibrary] (hlibrary : HashLibrary.Restores) {fingerprints : List Fingerprint}
    {width : Nat} {h : PerfectHash} (hbuild : build fingerprints width = .ok h) (hs : h.Separates width fingerprints) :
    h.Loadable := by
  refine ⟨hs.function_eq_none, hs.functionSize_eq.symm, ?_⟩
  intro function hsome
  obtain ⟨keys, hkeys, rfl⟩ := function_of_build hbuild hsome
  exact hlibrary keys hkeys

/-- What selected offsets ask of a table: a line with a slope that changes of settings lead to, and data of so many bytes that
signed words tell them, with the constants of all records and without. -/
structure Descriptor.Carried (d : Descriptor κ ν) : Prop where
  slope : d.settings.entryLine.HasSlope
  dataSize : d.dataSize < 0x8000000000000000
  rest : (d.dataSize : Int) - d.settings.entryLine.constant * d.count < 0x8000000000000000

/-- A descriptor that MessagePack has a form for, with a line that carries its offsets if these are selected. -/
structure Descriptor.Supported (d : Descriptor κ ν) : Prop where
  regular : d.form.Regular Msgpack.maxLevels
  carried : d.settings.offsetStorage = .selected → d.Carried

/-- A descriptor whose counts are words of the machine: a signed word tells the number of entries, and a word the size of the
data. -/
structure Descriptor.InWords (d : Descriptor κ ν) : Prop where
  count : d.count < 0x8000000000000000
  dataSize : d.dataSize < 0x10000000000000000

/-- Lengths and numbers for which MessagePack has a form, and signed words tell selected offsets. -/
structure Descriptor.Bounded (d : Descriptor κ ν) : Prop where
  function : d.hash.functionBytes.length < 0x100000000
  select : ∀ select ∈ d.select, select.block.words.size < 0x100000000
  minKey : ∀ bytes ∈ d.minKey, bytes.length < 0x100000000
  maxKey : ∀ bytes ∈ d.maxKey, bytes.length < 0x100000000
  timestamp : d.timestamp < 0x10000000000000000
  dataSize : d.settings.offsetStorage = .selected → d.dataSize < 0x8000000000000000
  rest : d.settings.offsetStorage = .selected →
    (d.dataSize : Int) - d.settings.entryLine.constant * d.count < 0x8000000000000000

instance (d : Descriptor κ ν) : Decidable d.Bounded :=
  decidable_of_iff (_ ∧ _ ∧ _ ∧ _ ∧ _ ∧ _ ∧ _)
    ⟨fun ⟨function, select, minKey, maxKey, timestamp, dataSize, rest⟩ =>
      ⟨function, select, minKey, maxKey, timestamp, dataSize, rest⟩,
    fun ⟨function, select, minKey, maxKey, timestamp, dataSize, rest⟩ =>
      ⟨function, select, minKey, maxKey, timestamp, dataSize, rest⟩⟩

/-- Whether every record of some data is found at its start. -/
def Descriptor.Leads (d : Descriptor κ ν) (sizes : List Nat) (offsets : Option Region) (select : Option SelectIndex) : Prop :=
  ∀ i < sizes.length, d.offsetOf i offsets select = .ok (startOf sizes i)

/-- How the offsets that go with a descriptor are arranged: plain ones, and the words of selected ones that stand in no
descriptor, are those of the offsets file, and without the file none are needed. -/
inductive Table.Arranges (d : Descriptor κ ν) : Option Region → Option Region → Option SelectIndex → Prop where
  | plain (r : Region) (hstorage : d.settings.offsetStorage = .indexed)
      (hsize : Settings.indexedCost d.count d.dataSize ≤ r.size) : Arranges d (some r) (some r) none
  | words (r : Region) (bits : Nat) (hstorage : d.settings.offsetStorage = .selected) (hselect : d.select = none)
      (hbits : d.selectBits = .ok bits) (hsize : 8 * wordsFor bits ≤ r.size) :
      Arranges d (some r) none (some (.ofBlock (.ofBytes r.bytes) bits))
  | absent (hneeds : d.needsOffsetsFile = false) : Arranges d none none none

/-- Offsets that can be arranged are arranged in one of three ways. -/
theorem Table.arrangeOffsets_eq_ok {d : Descriptor κ ν} {offsets o : Option Region} {s : Option SelectIndex} :
    arrangeOffsets d offsets = .ok (o, s) ↔ Arranges d offsets o s := by
  constructor
  · intro h
    unfold arrangeOffsets at h
    split at h
    · rename_i r hstorage
      dsimp only at h
      split at h
      · cases h
      · rename_i hsize
        cases h
        exact .plain r hstorage (Nat.not_lt.1 hsize)
    · rename_i r hstorage hselect
      obtain ⟨bits, hbits, h⟩ := Outcome.bind_eq_ok.1 h
      split at h
      · cases h
      · rename_i hsize
        cases h
        exact .words r bits hstorage hselect hbits (Nat.not_lt.1 hsize)
    · split at h
      · cases h
      · rename_i hneeds
        cases h
        exact .absent (Bool.eq_false_of_not_eq_true hneeds)
    · cases h
  · intro h
    unfold arrangeOffsets
    cases h with
    | plain _ hstorage hsize =>
      rw [hstorage]
      exact if_neg (Nat.not_lt.2 hsize)
    | words _ bits hstorage hselect hbits hsize =>
      rw [hstorage, hselect, hbits]
      exact if_neg (Nat.not_lt.2 hsize)
    | absent hneeds =>
      rw [hneeds]
      cases d.settings.offsetStorage <;> rfl

/-! ## Selected offsets -/

/-- The vector of the selected offsets of a table: it has a bit for the start of every record, and it is kept in the offsets
file or in the descriptor. -/
structure Descriptor.Selects (d : Descriptor κ ν) (sizes : List Nat) (file : Option Bytes) (bits : BitSet) : Prop where
  storage : d.settings.offsetStorage = .selected
  carries : d.settings.entryLine.Carries sizes
  count_eq : sizes.length = d.count
  selectedBits_eq : Build.selectedBits d.settings d.dataSize (Build.offsetsFrom 0 sizes) = .ok bits
  selectBits_eq : d.selectBits = .ok bits.length
  length_eq : bits.length = d.settings.entryLine.position sizes sizes.length
  words_size : bits.words.size = wordsFor bits.length
  bitAt_eq_true : ∀ p, bitAt bits.words p = true ↔ ∃ i < sizes.length, d.settings.entryLine.position sizes i = p
  kept : (file = some (wordsBytes bits.words) ∧ d.select = none) ∨ (file = none ∧ d.select = some (.ofBits bits))

namespace Descriptor.Selects

variable {d : Descriptor κ ν} {sizes : List Nat} {file : Option Bytes} {bits : BitSet}

/-- The set bits are all in front of the end. -/
theorem lt_length (h : d.Selects sizes file bits) {p : Nat} (hp : bitAt bits.words p = true) : p < bits.length := by
  obtain ⟨i, hi, rfl⟩ := (h.bitAt_eq_true p).1 hp
  rw [h.length_eq]
  exact h.carries.position_lt hi (Nat.le_refl _)

/-- An index of the words of the vector finds the start of every record. -/
theorem select_eq (h : d.Selects sizes file bits) {block : WordBlock} (hblock : block.words = bits.words) (numBits : Nat)
    {i : Nat} (hi : i < sizes.length) :
    (SelectIndex.ofBlock block numBits).select i = some (d.settings.entryLine.position sizes i) := by
  have hsize := h.words_size
  rw [h.length_eq] at hsize
  exact Build.select_position h.carries hsize h.bitAt_eq_true hblock numBits hi

/-- An index of the bits leads to the starts of the records. -/
theorem leads (h : d.Selects sizes file bits) {offsets : Option Region} {select : Option SelectIndex} {block : WordBlock}
    {numBits : Nat} (hindex : select.or d.select = some (.ofBlock block numBits)) (hblock : block.words = bits.words) :
    d.Leads sizes offsets select := by
  intro i hi
  simp only [offsetOf, h.storage, hindex, h.select_eq hblock numBits hi, Option.getD_some,
    d.settings.decompress_position h.carries (Nat.le_of_lt hi)]

/-- The words of the vector are found in the offsets file or in the descriptor. -/
theorem arrangeOffsets_eq (h : d.Selects sizes file bits) {offsets : Option Region} (hoffsets : offsets.map Region.bytes = file) :
    ∃ o s block numBits, Table.arrangeOffsets d offsets = .ok (o, s) ∧ s.or d.select = some (.ofBlock block numBits) ∧
      block.words = bits.words := by
  rcases h.kept with ⟨rfl, hnone⟩ | ⟨rfl, hsome⟩
  · obtain ⟨r, rfl, hbytes⟩ := Option.map_eq_some_iff.1 hoffsets
    have hlong : 8 * wordsFor bits.length ≤ r.size := by
      rw [Region.size_eq, hbytes, length_wordsBytes, h.words_size]
    refine ⟨none, _, .ofBytes r.bytes, bits.length,
      Table.arrangeOffsets_eq_ok.2 (.words r _ h.storage hnone h.selectBits_eq hlong), rfl, ?_⟩
    rw [hbytes, words_ofBytes_wordsBytes]
  · rw [Option.map_eq_none_iff] at hoffsets
    subst hoffsets
    have hneeds : d.needsOffsetsFile = false := by
      rw [needsOffsetsFile, h.storage, hsome]
      rfl
    exact ⟨none, none, .owned bits.words, bits.length, Table.arrangeOffsets_eq_ok.2 (.absent hneeds), hsome, rfl⟩

end Descriptor.Selects

/-! ## Tables that were written -/

namespace Build.Written

variable [HashLibrary] {finder : CodecFinder κ ν} {settings : Settings κ ν} {d : Descriptor κ ν} {sizes : List Nat}
  {file : Option Bytes}

/-- The hash of a build is made of fingerprints that it tells apart. -/
theorem separates (h : Written settings d sizes file) :
    ∃ fingerprints, PerfectHash.build fingerprints settings.signatureWidth = .ok d.hash ∧
      d.hash.Separates settings.signatureWidth fingerprints := by
  obtain ⟨fingerprints, hbuild⟩ := h.hashed
  exact ⟨fingerprints, hbuild, PerfectHash.separates_of_build hbuild (signatureWidth_le h.flaw_eq_none)⟩

/-- So few records of so few bytes are no more than words can count. -/
theorem inWords (h : Written settings d sizes file) (hcount : d.count < 0x100000000) : d.InWords := by
  refine ⟨by omega, ?_⟩
  have hle := List.sum_le_card_nsmul sizes 0xFFFFFFFF fun size hsize =>
    Nat.le_of_lt_succ (Spread.size_lt_of_checkSize (h.checkSize_eq size hsize))
  rw [h.length_eq, smul_eq_mul] at hle
  rw [h.dataSize_eq]
  omega

/-- So few signatures take fewer words than MessagePack can tell, as none is wider than a word. -/
theorem signatures_size_lt (h : Written settings d sizes file) (hcount : d.count < 0x100000000) :
    d.hash.signatures.words.size < 0x100000000 := by
  obtain ⟨fingerprints, -, hseparates⟩ := h.separates
  have hlength : d.hash.length < 0x100000000 := hcount
  have hle : d.hash.length * settings.signatureWidth ≤ d.hash.length * 64 :=
    Nat.mul_le_mul_left _ (signatureWidth_le h.flaw_eq_none)
  rw [hseparates.words_size, wordsFor]
  omega

/-- The sizes of records with selected offsets lie on the line of the settings. -/
theorem carries (h : Written settings d sizes file) (hwords : d.InWords)
    (hselected : d.settings.offsetStorage = .selected) (hcarried : d.Carried) : d.settings.entryLine.Carries sizes := by
  refine ⟨hcarried.slope, fun size hsize => ?_, ?_, ?_, ?_⟩
  · exact Spread.fits_of_checkSize (h.checkSize_eq size hsize) (by rw [hselected]; exact nofun)
  · rw [h.length_eq]
    exact hwords.count
  · rw [← h.dataSize_eq]
    exact hcarried.dataSize
  · rw [← h.dataSize_eq, h.length_eq]
    exact hcarried.rest

/-- The offsets file of plain offsets has the start of every record. -/
theorem file_indexed (h : Written settings d sizes file) (hindexed : d.settings.offsetStorage = .indexed) :
    file = some (indexedBytes d.offsetWidth (offsetsFrom 0 sizes)) := by
  have hplan := h.offsets
  simp only [planOffsets, hindexed, Except.ok.injEq, OffsetPlan.mk.injEq] at hplan
  rw [h.offsetWidth_eq, ← hplan.1]

/-- The start of a record is read back from the bytes of plain offsets. -/
theorem readNat_start (h : Written settings d sizes file) (hwords : d.InWords) {r : Region}
    (hbytes : r.bytes = indexedBytes d.offsetWidth (offsetsFrom 0 sizes)) {i : Nat} (hi : i < sizes.length) :
    r.readNat (i * d.offsetWidth) d.offsetWidth = .ok (some (startOf sizes i)) := by
  have hi' : i < (offsetsFrom 0 sizes).length := by rwa [length_offsetsFrom]
  have hstart : (offsetsFrom 0 sizes)[i] = startOf sizes i := by
    simp [offsetsFrom_eq]
  rw [h.offsetWidth_eq] at hbytes ⊢
  rw [Settings.readNat_indexedBytes hbytes hi' (by rw [hstart, h.dataSize_eq]; exact startOf_le_sum _ i) hwords.dataSize,
    hstart]

/-- Plain offsets lead to the starts of the records. -/
theorem arrange_indexed (h : Written settings d sizes file) (hwords : d.InWords)
    (hindexed : d.settings.offsetStorage = .indexed) {offsets : Option Region} (hoffsets : offsets.map Region.bytes = file) :
    ∃ o s, Table.arrangeOffsets d offsets = .ok (o, s) ∧ d.Leads sizes o s := by
  rw [h.file_indexed hindexed, Option.map_eq_some_iff] at hoffsets
  obtain ⟨r, rfl, hbytes⟩ := hoffsets
  have hsize : Settings.indexedCost d.count d.dataSize ≤ r.size := by
    rw [Region.size_eq, hbytes, indexedBytes, length_flatMap_of_width (Bytes.length_littleEndian _), length_offsetsFrom,
      h.length_eq, Settings.indexedCost, h.offsetWidth_eq]
  refine ⟨some r, none, Table.arrangeOffsets_eq_ok.2 (.plain r hindexed hsize), ?_⟩
  intro i hi
  simp only [Descriptor.offsetOf, hindexed, h.readNat_start hwords hbytes hi, Outcome.ok_bind]
  rfl

/-- Records of one size start where the line says. -/
theorem arrange_fixed (h : Written settings d sizes file) (hwords : d.InWords)
    (hfixed : d.settings.offsetStorage = .fixed) {offsets : Option Region} (hoffsets : offsets.map Region.bytes = file) :
    ∃ o s, Table.arrangeOffsets d offsets = .ok (o, s) ∧ d.Leads sizes o s := by
  have hplan := h.offsets
  simp only [planOffsets, hfixed, Except.ok.injEq, OffsetPlan.mk.injEq] at hplan
  obtain ⟨hfile, -⟩ := hplan
  rw [← hfile, Option.map_eq_none_iff] at hoffsets
  subst hoffsets
  have hflat : d.settings.entryLine.slope = 0 := beq_iff_eq.1 (h.flat hfixed)
  have hfits : ∀ size ∈ sizes, d.settings.entryLine.fits size = true := fun size hsize =>
    Spread.fits_of_checkSize (h.checkSize_eq size hsize) (by rw [hfixed]; rintro ⟨⟩)
  have hneeds : d.needsOffsetsFile = false := by rw [Descriptor.needsOffsetsFile, hfixed]
  refine ⟨none, none, Table.arrangeOffsets_eq_ok.2 (.absent hneeds), ?_⟩
  intro i hi
  have hsum := hwords.dataSize
  rw [h.dataSize_eq] at hsum
  simp only [Descriptor.offsetOf, hfixed, Settings.decompress_zero hflat hfits (Nat.le_of_lt hi) hsum]

/-- The vector of selected offsets is kept in the offsets file or in the descriptor. -/
theorem exists_selects (h : Written settings d sizes file) (hwords : d.InWords)
    (hselected : d.settings.offsetStorage = .selected) (hcarried : d.Carried) : ∃ bits, d.Selects sizes file bits := by
  have hcarries := h.carries hwords hselected hcarried
  obtain ⟨bits, hbits, hlength, hsize, hset⟩ := selectedBits_eq hcarries
  have hcompress := d.settings.compress_startOf hcarries (Nat.le_refl sizes.length)
  rw [startOf_length, ← h.dataSize_eq, h.length_eq] at hcompress
  rw [← h.dataSize_eq] at hbits
  refine ⟨bits, hselected, hcarries, h.length_eq, hbits, ?_, hlength, hsize, hset, ?_⟩
  · rw [Descriptor.selectBits, hcompress, hlength, h.length_eq]
  · have hplan := h.offsets
    simp only [planOffsets, hselected, hbits, Outcome.ok_bind, Outcome.pure_eq_ok] at hplan
    split at hplan
    · rw [OffsetPlan.mk.injEq] at hplan
      exact Or.inl ⟨hplan.1.symm, hplan.2.symm⟩
    · rw [OffsetPlan.mk.injEq] at hplan
      exact Or.inr ⟨hplan.1.symm, hplan.2.symm⟩

/-- Selected offsets lead to the starts of the records, wherever their bits are kept. -/
theorem arrange_selected (h : Written settings d sizes file) (hwords : d.InWords)
    (hselected : d.settings.offsetStorage = .selected) (hcarried : d.Carried) {offsets : Option Region}
    (hoffsets : offsets.map Region.bytes = file) :
    ∃ o s, Table.arrangeOffsets d offsets = .ok (o, s) ∧ d.Leads sizes o s := by
  obtain ⟨bits, hselects⟩ := h.exists_selects hwords hselected hcarried
  obtain ⟨o, s, block, numBits, harrange, hindex, hblock⟩ := hselects.arrangeOffsets_eq hoffsets
  exact ⟨o, s, harrange, hselects.leads hindex hblock⟩

/-- However offsets are kept, the offsets file gives them back, or there is none and none is needed. -/
theorem arrangeOffsets_eq (h : Written settings d sizes file) (hwords : d.InWords) (hsupported : d.Supported)
    {offsets : Option Region} (hoffsets : offsets.map Region.bytes = file) :
    ∃ o s, Table.arrangeOffsets d offsets = .ok (o, s) ∧ d.Leads sizes o s := by
  cases hstorage : d.settings.offsetStorage with
  | automatic => exact absurd hstorage h.resolved
  | indexed => exact h.arrange_indexed hwords hstorage hoffsets
  | selected => exact h.arrange_selected hwords hstorage (hsupported.carried hstorage) hoffsets
  | fixed => exact h.arrange_fixed hwords hstorage hoffsets

/-! ## Descriptors -/

/-- A build only replaces the mode of the offsets, so settings stay within bounds. -/
theorem settings_bounded (h : Written settings d sizes file) (hbounded : settings.Bounded) : d.settings.Bounded := by
  rw [h.settings_eq]
  exact ⟨hbounded.signatureWidth, hbounded.maxHeap, hbounded.maxDataHeap, hbounded.shardSize, hbounded.slope, hbounded.constant⟩

/-- MessagePack can hold the descriptor. Its numbers are words anyway, and there are no more signatures than entries. -/
theorem regular (h : Written settings d sizes file) (hcount : d.count < 0x100000000) (hsettings : settings.Bounded)
    (hheld : settings.Held) (hbounded : d.Bounded) : d.form.Regular Msgpack.maxLevels := by
  obtain ⟨fingerprints, -, hseparates⟩ := h.separates
  have hwidth := signatureWidth_le h.flaw_eq_none
  have hoffsetWidth := Settings.offsetWidth_le d.dataSize
  have hlength : d.hash.length < 0x100000000 := hcount
  have hform : d.settings.form.Regular 1022 := by
    have hkey := hheld.key
    have hvalue := hheld.value
    refine Settings.regular_form (h.settings_bounded hsettings) ?_ ?_
    all_goals
      rw [h.settings_eq]
      assumption
  have hhash : (d.hash.form .record).Regular 1022 := by
    refine PerfectHash.regular_form (.inl rfl) (by omega) hbounded.function ?_ ?_ (h.signatures_size_lt hcount)
    · rw [hseparates.width_eq]
      omega
    · rw [hseparates.signatures_length]
      omega
  have hselect : ∀ select, d.select = some select → select.form.Regular 1022 := by
    intro select hsome
    obtain ⟨bits, rfl, -, hbits⟩ := exists_bits_of_planOffsets h.offsets hsome
    rw [← SelectIndex.formBy_record]
    exact SelectIndex.regular_formBy (.inl rfl) hbits (hbounded.select _ hsome)
  have hversion : d.version < 0x10000000000000000 := by
    rw [h.version_eq]
    decide
  have hoffsetWidth : d.offsetWidth < 0x10000000000000000 := by
    rw [h.offsetWidth_eq]
    omega
  exact Descriptor.regular_form hversion hform hhash hselect (h.inWords hcount).dataSize hoffsetWidth hbounded.timestamp
    hbounded.minKey hbounded.maxKey

/-- Settings that changes made lead to a supported table: only its lengths have to keep to their bounds. -/
theorem supported (h : Written settings d sizes file) (hcount : d.count < 0x100000000) (hformed : settings.Formed)
    (hheld : settings.Held) (hbounded : d.Bounded) : d.Supported := by
  refine ⟨h.regular hcount hformed.bounded hheld hbounded, fun hselected => ⟨?_, hbounded.dataSize hselected,
    hbounded.rest hselected⟩⟩
  rw [h.settings_eq]
  exact hformed.hasSlope

/-- The descriptor of a build that ended well can be read back by who knows its codecs. -/
theorem readable (h : Written settings d sizes file) (hlibrary : HashLibrary.Restores) (hknown : finder.Knows settings)
    (hbounded : settings.Bounded) (hregular : d.form.Regular Msgpack.maxLevels) : d.Readable finder := by
  obtain ⟨fingerprints, hbuild, hseparates⟩ := h.separates
  have hwidth := signatureWidth_le h.flaw_eq_none
  have hoffsets := Settings.offsetWidth_le d.dataSize
  exact {
    version_eq := h.version_eq
    regular := hregular
    known := by
      rw [h.settings_eq]
      exact ⟨hknown.key, hknown.value⟩
    bounded := h.settings_bounded hbounded
    hash := PerfectHash.loadable_of_build hlibrary hbuild hseparates
    width_lt := by rw [hseparates.width_eq]; omega
    offsetWidth_lt := by rw [h.offsetWidth_eq]; omega
    select := fun select hselect => by
      obtain ⟨bits, rfl, hwords, -⟩ := exists_bits_of_planOffsets h.offsets hselect
      exact ⟨bits.words, bits.length, rfl, Nat.le_of_eq hwords.symm⟩
    resolved := h.resolved }

/-- An offsets file is there when the descriptor asks for one. -/
theorem isSome_file (h : Written settings d sizes file) : file.isSome = d.needsOffsetsFile :=
  isSome_of_planOffsets h.offsets

end Build.Written

namespace Build.Made

variable [HashLibrary] [Ord κ] {settings : Settings κ ν} {entries slots : List (Entry κ ν)} {d : Descriptor κ ν}
  {records : List Bytes} {file : Option Bytes}

/-- A build keeps the width of signatures. -/
theorem signatureWidth_eq (h : Made settings entries d slots records file) :
    d.settings.signatureWidth = settings.signatureWidth := by
  rw [h.settings_eq]

/-- A descriptor counts the entries. -/
theorem count_eq (h : Made settings entries d slots records file) : d.count = entries.length := by
  rw [Descriptor.count, ← h.arranged.count_eq, h.arranged.perm.length_eq]

/-- The counts of a table of less than 2^32 entries are words. -/
theorem words (h : Made settings entries d slots records file) (hcount : entries.length < 0x100000000) : d.InWords := by
  refine h.inWords ?_
  rw [h.count_eq]
  exact hcount

/-- There is a record for each bucket. -/
theorem records_length (h : Made settings entries d slots records file) : records.length = d.count := by
  rw [h.arranged.records_length, h.arranged.count_eq, Descriptor.count]

end Build.Made

/-! ## Opening -/

theorem FileStore.lift_ok {α : Type} (a : α) : FileStore.lift (.ok a) = .ok a := rfl

/-- The files of a table that is given by its directory are those in the directory. -/
theorem FileStore.Leads.tablePaths_eq {store : FileStore} {directory place : Path} (h : store.Leads directory place) :
    TablePaths.locate store directory none none = .inDirectory directory := by
  rw [TablePaths.locate, h.isDirectory_eq]
  rfl

/-- The descriptor of a table that is given by its directory is found there. -/
theorem Filed.read_descriptor {store : FileStore} {directory place : Path} {data bytes : Bytes} {file : Option Bytes}
    (h : Filed store directory place data file bytes) :
    TablePaths.locate store directory none none = .inDirectory directory ∧
      store.read (TablePaths.inDirectory directory).descriptor = .ok bytes := by
  obtain ⟨_, hdescriptor⟩ := h.descriptor
  exact ⟨h.leads.tablePaths_eq, h.leads.read_child plain_descriptorName hdescriptor⟩

/-- A descriptor that can be read back is found in the directory of its table. -/
theorem Descriptor.load_eq [HashLibrary] {finder : CodecFinder κ ν} {d : Descriptor κ ν} (h : d.Readable finder)
    {store : FileStore} {directory place : Path} {data : Bytes} {file : Option Bytes}
    (hfiled : Filed store directory place data file d.encode) (hpaths : d.paths = TablePaths.inDirectory directory) :
    load finder store directory none none = .ok d := by
  obtain ⟨hlocate, hread⟩ := hfiled.read_descriptor
  rw [← hpaths] at hlocate hread
  simp only [load, hlocate, hread, FileStore.lift_ok, Outcome.ok_bind, decode_encode h]

/-- What looks at found records unless the one who opens a table brings an acceptance. -/
def Settings.acceptance [DecidableEq κ] (s : Settings κ ν) : Option (Acceptance κ ν) :=
  match s.validation with
  | .equality => some Acceptance.sameKey
  | .disabled => none

/-- The table with a descriptor, the range of its keys, and what it holds. -/
def Table.fresh [DecidableEq κ] (d : Descriptor κ ν) (storage : Storage) (range : Option (κ × κ)) : Table κ ν where
  descriptor := d
  range := range
  acceptance := d.settings.acceptance
  tally := .zero
  storage := some storage

/-- What a table holds lets every record be found. -/
structure Storage.Serves (storage : Storage) (d : Descriptor κ ν) (records : List Bytes) : Prop where
  bytes_eq : storage.data.bytes = records.flatten
  leads : d.Leads (records.map List.length) storage.offsets storage.select

/-- The ways of opening a table that leave its acceptance alone: by a reader, with its own limits or those of the table, or as
a map in memory. -/
inductive Opening where
  | reader (maxHeap maxDataHeap : Option Nat) (resident : Bool)
  | map
deriving DecidableEq, Repr

/-- Opens a table in one of these ways. -/
def Opening.open [HashLibrary] [DecidableEq κ] (finder : CodecFinder κ ν) (store : FileStore) (path : Path) :
    Opening → Except Fault (Table κ ν)
  | reader maxHeap maxDataHeap resident => Table.openAt finder store path { maxHeap, maxDataHeap, resident }
  | map => (ResidentMap.load finder store path).map ResidentMap.table

namespace Filed

variable [HashLibrary] [DecidableEq κ] {finder : CodecFinder κ ν} {d : Descriptor κ ν} {store : FileStore}
  {directory place : Path} {data : Bytes} {file : Option Bytes}

/-- Opening a table in its directory puts it together from its descriptor and the bytes of its files, whatever the limits
are. -/
theorem openAt_eq (h : Filed store directory place data file d.encode) (hreadable : d.Readable finder)
    (hfile : file.isSome = d.needsOffsetsFile) (hpaths : d.paths = TablePaths.inDirectory directory)
    (maxHeap maxDataHeap : Option Nat) (resident : Bool) :
    ∃ region offsets, region.bytes = data ∧ offsets.map Region.bytes = file ∧
      Table.openAt finder store directory { maxHeap, maxDataHeap, resident } = Table.assemble d region offsets none := by
  obtain ⟨_, hdata⟩ := h.data
  have hsize := h.leads.sizeAt_child plain_dataName hdata
  have hdataPath : d.paths.data = directory.child TablePaths.dataName := by rw [hpaths]; rfl
  have hoffsetsPath : d.paths.offsets = directory.child TablePaths.offsetsName := by rw [hpaths]; rfl
  choose region hopen hbytes using h.leads.openFile_child plain_dataName hdata
  simp only [Table.openAt, Descriptor.load_eq hreadable h hpaths, hdataPath, hoffsetsPath, hsize, hopen,
    FileStore.lift_ok, Outcome.ok_bind]
  cases file with
  | none =>
    simp only [← hfile, Option.isSome_none, Bool.false_eq_true, if_false]
    exact ⟨_, none, hbytes _, rfl, rfl⟩
  | some bytes =>
    obtain ⟨_, hoffsets⟩ := h.offsets bytes rfl
    have hlength := h.leads.sizeAt_child plain_offsetsName hoffsets
    choose offsets hopen' hbytes' using h.leads.openFile_child plain_offsetsName hoffsets
    simp only [← hfile, Option.isSome_some, if_true, hlength, hopen', FileStore.lift_ok, Outcome.ok_bind]
    exact ⟨_, some _, hbytes _, congrArg some (hbytes' _), rfl⟩

/-- Opening a table in any way puts it together from its descriptor and the bytes of its files. -/
theorem open_eq (h : Filed store directory place data file d.encode) (hreadable : d.Readable finder)
    (hfile : file.isSome = d.needsOffsetsFile) (hpaths : d.paths = TablePaths.inDirectory directory) (opening : Opening) :
    ∃ region offsets, region.bytes = data ∧ offsets.map Region.bytes = file ∧
      opening.open finder store directory = Table.assemble d region offsets none := by
  cases opening with
  | reader maxHeap maxDataHeap resident => exact h.openAt_eq hreadable hfile hpaths maxHeap maxDataHeap resident
  | map =>
    obtain ⟨region, offsets, hbytes, hoffsets, hopen⟩ := h.openAt_eq hreadable hfile hpaths none none true
    refine ⟨region, offsets, hbytes, hoffsets, ?_⟩
    rw [Opening.open, ResidentMap.load, hopen]
    cases Table.assemble d region offsets none <;> rfl

end Filed

namespace Build.Made

variable [HashLibrary] [Ord κ] [DecidableEq κ] {finder : CodecFinder κ ν} {settings : Settings κ ν}
  {entries slots : List (Entry κ ν)} {d : Descriptor κ ν} {records : List Bytes} {file : Option Bytes}

/-- The descriptor and the bytes of the files make a table, wherever the bytes are. Nothing is asked of what the records say,
only that they are as long as they were. -/
theorem assemble_eq (h : Made settings entries d slots records file) (hcount : entries.length < 0x100000000)
    (hsupported : d.Supported) {found : List Bytes} (hlengths : found.map List.length = records.map List.length)
    {data : Region} {offsets : Option Region} (hdata : data.bytes = found.flatten)
    (hoffsets : offsets.map Region.bytes = file) :
    ∃ storage : Storage, storage.Serves d found ∧
      Table.assemble d data offsets none = d.keyRange.map (.fresh d storage) := by
  obtain ⟨o, s, harrange, hleads⟩ := h.arrangeOffsets_eq (h.words hcount) hsupported hoffsets
  refine ⟨⟨data, o, s⟩, ⟨hdata, hlengths ▸ hleads⟩, ?_⟩
  have hsize : data.size = d.dataSize := by rw [Region.size_eq, hdata, List.length_flatten, hlengths, h.dataSize_eq]
  unfold Table.assemble
  simp only [hsize, ne_eq, not_true_eq_false, if_false, harrange, Outcome.ok_bind]
  cases d.keyRange <;> rfl

/-- A table is opened in its directory in every way, with whatever records stand there that are as long as its own. -/
theorem open_of_lengths (h : Made settings entries d slots records file) (hcount : entries.length < 0x100000000)
    (hlibrary : HashLibrary.Restores) (hknown : finder.Knows settings) (hbounded : settings.Bounded)
    (hsupported : d.Supported) {found : List Bytes} (hlengths : found.map List.length = records.map List.length)
    {store : FileStore} {directory place : Path} (hfiled : Filed store directory place found.flatten file d.encode)
    (hpaths : d.paths = TablePaths.inDirectory directory) (opening : Opening) :
    ∃ storage : Storage, storage.Serves d found ∧
      opening.open finder store directory = d.keyRange.map (.fresh d storage) := by
  have hreadable := h.readable hlibrary hknown hbounded hsupported.regular
  obtain ⟨region, offsets, hdata, hoffsets, hopen⟩ := hfiled.open_eq hreadable h.isSome_file hpaths opening
  obtain ⟨storage, hserves, hassemble⟩ := h.assemble_eq hcount hsupported hlengths hdata hoffsets
  exact ⟨storage, hserves, hopen.trans hassemble⟩

/-- A table is opened in its directory in every way. -/
theorem open_eq (h : Made settings entries d slots records file) (hcount : entries.length < 0x100000000)
    (hlibrary : HashLibrary.Restores) (hknown : finder.Knows settings) (hbounded : settings.Bounded)
    (hsupported : d.Supported) {store : FileStore} {directory place : Path}
    (hfiled : Filed store directory place records.flatten file d.encode)
    (hpaths : d.paths = TablePaths.inDirectory directory) (opening : Opening) :
    ∃ storage : Storage, storage.Serves d records ∧
      opening.open finder store directory = d.keyRange.map (.fresh d storage) :=
  h.open_of_lengths hcount hlibrary hknown hbounded hsupported rfl hfiled hpaths opening

end Build.Made

/-- A build under settings that changes made, if it ends well, makes a supported table, as long as no length or number in its
descriptor is too large. -/
theorem Build.supported_of_run [HashLibrary] [Ord κ] [Spelled κ] [Spelled ν] {store store' : FileStore}
    {settings : Settings κ ν} {dataSize : Option Nat} {timestamp : Nat} {directory : Path} {entries : List (Entry κ ν)}
    {d : Descriptor κ ν} (hrun : run store settings dataSize timestamp directory (.ofEntries entries) = (store', .ok d))
    (hcount : entries.length < 0x100000000) (hformed : settings.Formed) (hheld : settings.Held) (hbounded : d.Bounded) :
    d.Supported := by
  obtain ⟨_, _, _, _, hmade, -⟩ := made_of_run hrun hcount
  exact hmade.supported (hmade.count_eq ▸ hcount) hformed hheld hbounded

end FrozenTable
