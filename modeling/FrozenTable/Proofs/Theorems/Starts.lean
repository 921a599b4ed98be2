import FrozenTable.Proofs.Lemmas.Resolving
import FrozenTable.Proofs.Lemmas.Varying

/-!
# Offsets are the starts of records

The writer keeps offsets in one of three ways, and the reader finds them by separate code for each. Whichever way it is, and
however a table is opened, a bucket is led to the sum of the sizes of the records in front of its own. Plain offsets lose nothing
in the few bytes they are cut to, and the vector of selected ones has a bit for every record, so that no query misses.
-/

namespace FrozenTable

variable {κ ν : Type}

/-! ## What was written -/

/-- How plain offsets are written: each start fits the width chosen for the data, and it is read back from the file. -/
structure Descriptor.KeepsPlain (d : Descriptor κ ν) (sizes : List Nat) (file : Option Bytes) : Prop where
  width : d.offsetWidth = Settings.offsetWidth d.dataSize ∧ (d.offsetWidth = 2 ∨ d.offsetWidth = 4 ∨ d.offsetWidth = 8)
  fits : ∀ i < sizes.length, startOf sizes i < Bytes.capacity d.offsetWidth
  written : file = some (Build.indexedBytes d.offsetWidth ((List.range sizes.length).map (startOf sizes)))
  read : ∀ r : Region, some r.bytes = file → ∀ i < sizes.length,
    r.readNat (i * d.offsetWidth) d.offsetWidth = .ok (some (startOf sizes i))

/-- How selected offsets are written: the vector has as many bits as the size of the data is told by, one of them set for each
start, at the number that stands for it, and no others. -/
structure Descriptor.KeepsVector (d : Descriptor κ ν) (sizes : List Nat) (file : Option Bytes) (bits : BitSet) : Prop where
  written : (file = some (wordsBytes bits.words) ∧ d.select = none) ∨ (file = none ∧ d.select = some (.ofBits bits))
  length : d.settings.compress d.dataSize d.count = .ok bits.length
  count : bits.count = d.count
  below : ∀ p, bits.get? p = some true → p < bits.length
  set : ∀ i < sizes.length, ∃ p, d.settings.compress (startOf sizes i) i = .ok p ∧ bits.get? p = some true

/-- An index with a set bit for each start, which a query for its bucket finds. -/
structure SelectIndex.Finds (index : SelectIndex) (settings : Settings κ ν) (sizes : List Nat) : Prop where
  numOnes : index.numOnes = sizes.length
  select : ∀ i < sizes.length, ∃ p, index.select i = some p ∧ settings.compress (startOf sizes i) i = .ok p

namespace Descriptor.Selects

variable {d : Descriptor κ ν} {sizes : List Nat} {file : Option Bytes} {bits : BitSet}

/-- The vector has as many set bits as there are records. -/
theorem rankAt_eq (h : d.Selects sizes file bits) : rankAt bits.words (64 * bits.words.size) = sizes.length := by
  refine rankAt_behind (fun i j hij hj => h.carries.position_lt hij (Nat.le_of_lt hj)) h.bitAt_eq_true ?_
  intro i hi
  have hlt := h.lt_length ((h.bitAt_eq_true _).2 ⟨i, hi, rfl⟩)
  have hwords := wordsFor_mul bits.length
  rw [h.words_size]
  omega

theorem keepsVector (h : d.Selects sizes file bits) : d.KeepsVector sizes file bits := by
  refine ⟨h.kept, h.selectBits_eq, ?_, ?_, ?_⟩
  · rw [BitSet.count_eq, h.rankAt_eq, h.count_eq]
  · intro p hp
    exact h.lt_length (BitSet.get?_eq_some.1 hp).2
  · intro i hi
    have hset := (h.bitAt_eq_true _).2 ⟨i, hi, rfl⟩
    refine ⟨_, d.settings.compress_startOf h.carries (Nat.le_of_lt hi), BitSet.get?_eq_some.2 ⟨?_, hset⟩⟩
    rw [h.words_size]
    exact div_lt_wordsFor (h.lt_length hset)

theorem finds (h : d.Selects sizes file bits) {block : WordBlock} (hblock : block.words = bits.words) (numBits : Nat) :
    (SelectIndex.ofBlock block numBits).Finds d.settings sizes := by
  constructor
  · rw [SelectIndex.numOnes_ofBlock, hblock, h.rankAt_eq]
  · intro i hi
    exact ⟨_, h.select_eq hblock numBits hi, d.settings.compress_startOf h.carries (Nat.le_of_lt hi)⟩

/-- The index that a table asks, if it goes by what was written, finds the bit of every record. -/
theorem exists_index (h : d.Selects sizes file bits) {t : Table κ ν} (ht : t.GoesBy d file) :
    ∃ storage index, t.storage = some storage ∧ storage.select.or t.descriptor.select = some index ∧
      index.Finds t.descriptor.settings sizes := by
  obtain ⟨⟨paths, hpaths⟩, storage, offsets, hstorage, hoffsets, harrange⟩ := ht
  obtain ⟨o, s, block, numBits, harrange', hindex, hblock⟩ := h.arrangeOffsets_eq hoffsets
  cases harrange.symm.trans harrange'
  refine ⟨storage, .ofBlock block numBits, hstorage, ?_, ?_⟩
  · rw [hpaths]
    exact hindex
  · rw [hpaths]
    exact h.finds hblock numBits

end Descriptor.Selects

namespace Build.Written

variable [HashLibrary] {settings : Settings κ ν} {d : Descriptor κ ν} {sizes : List Nat} {file : Option Bytes}
  {t : Table κ ν}

theorem keepsPlain (h : Written settings d sizes file) (hwords : d.InWords)
    (hindexed : d.settings.offsetStorage = .indexed) : d.KeepsPlain sizes file := by
  have hfile := h.file_indexed hindexed
  have hwidth := h.offsetWidth_eq
  refine ⟨⟨hwidth, ?_⟩, ?_, ?_, ?_⟩
  · rw [hwidth, Settings.offsetWidth]
    split
    · simp
    · split <;> simp
  · intro i _
    rw [hwidth]
    refine Settings.lt_capacity_offsetWidth ?_ hwords.dataSize
    rw [h.dataSize_eq]
    exact startOf_le_sum sizes i
  · simpa [offsetsFrom_eq] using hfile
  · intro r hr i hi
    exact h.readNat_start hwords (Option.some.inj (hr.trans hfile)) hi

theorem exists_words (h : Written settings d sizes file) (hselected : d.settings.offsetStorage = .selected) :
    ∀ bytes ∈ file, ∃ words, bytes = wordsBytes words := by
  rintro bytes rfl
  exact exists_words_of_planOffsets hselected h.offsets

/-- The start of every record is found by a table that goes by what was written. -/
theorem offsetOf_eq (h : Written settings d sizes file) (hwords : d.InWords) (hsupported : d.Supported)
    (ht : t.GoesBy d file) : ∃ storage, t.storage = some storage ∧ t.descriptor.Leads sizes storage.offsets storage.select := by
  obtain ⟨⟨paths, hpaths⟩, storage, offsets, hstorage, hoffsets, harrange⟩ := ht
  obtain ⟨o, s, harrange', hleads⟩ := h.arrangeOffsets_eq hwords hsupported hoffsets
  cases harrange.symm.trans harrange'
  refine ⟨storage, hstorage, ?_⟩
  rw [hpaths]
  exact hleads

end Build.Written

namespace Build

/-- Every bucket of a table is led to the sum of the sizes of the records in front of its own.

A build that ended well has made a record for each bucket, and has written a descriptor and perhaps an offsets file. However a
table is opened by these, its offset for a bucket is the sum of the sizes of the records in the buckets before. Plain offsets
fit the width that goes with the size of the data and are read back as they were; the vector of selected offsets has one set bit
for each record, all of them in front of its end, and the index that the table asks finds each of them, so that no query comes
to the fallback. The counts of the table are words, its lengths are those that its format can tell, and where offsets are
selected the line of the settings does not fall. -/
theorem offsets_are_sums_of_sizes [HashLibrary] [Ord κ] [DecidableEq κ] [Spelled κ] [Spelled ν] {finder : CodecFinder κ ν}
    (hlibrary : HashLibrary.Restores) {store store' : FileStore} {settings : Settings κ ν} {dataSize : Option Nat}
    {timestamp : Nat} {directory : Path} {source : Source κ ν} {d : Descriptor κ ν}
    (hrun : run store settings dataSize timestamp directory source = (store', .ok d)) (hknown : finder.Knows settings)
    (hbounded : settings.Bounded) (hsupported : d.Supported) (hwords : d.InWords) :
    ∃ entries slots records file, source.later = entries.map .ok ∧ Arranged d.settings d.hash entries slots records ∧
      records.length = d.count ∧ d.dataSize = (records.map List.length).sum ∧ file.isSome = d.needsOffsetsFile ∧
      store'.read d.paths.descriptor = .ok d.encode ∧ (∀ bytes ∈ file, store'.read d.paths.offsets = .ok bytes) ∧
      (∀ t, Table.Opened finder d file t → ∃ storage, t.storage = some storage ∧ ∀ bucket < d.count,
        t.descriptor.offsetOf bucket storage.offsets storage.select = .ok (startOf (records.map List.length) bucket)) ∧
      (d.settings.offsetStorage = .indexed → d.KeepsPlain (records.map List.length) file) ∧
      (d.settings.offsetStorage = .selected → ∃ bits, d.KeepsVector (records.map List.length) file bits ∧
        ∀ t, Table.Opened finder d file t → ∃ storage index, t.storage = some storage ∧
          storage.select.or t.descriptor.select = some index ∧
          index.Finds t.descriptor.settings (records.map List.length)) := by
  obtain ⟨place, data, entries, slots, records, file, hlater, harranged, hwritten, hfiled, hpaths⟩ := arranged_of_run hrun
  have hreadable := hwritten.readable hlibrary hknown hbounded hsupported.regular
  have hgoes (t : Table κ ν) (ht : Table.Opened finder d file t) : t.GoesBy d file :=
    ht.goesBy hreadable hwritten.isSome_file hwritten.exists_words
  have hlength := hwritten.length_eq
  rw [List.length_map] at hlength
  refine ⟨entries, slots, records, file, hlater, harranged, hlength, hwritten.dataSize_eq, hwritten.isSome_file, ?_,
    ?_, ?_, hwritten.keepsPlain hwords, ?_⟩
  · rw [hpaths]
    exact hfiled.read_descriptor.2
  · intro bytes hbytes
    obtain ⟨_, hoffsets⟩ := hfiled.offsets bytes hbytes
    rw [hpaths]
    exact hfiled.leads.read_child plain_offsetsName hoffsets
  · intro t ht
    obtain ⟨storage, hstorage, hleads⟩ := hwritten.offsetOf_eq hwords hsupported (hgoes t ht)
    refine ⟨storage, hstorage, ?_⟩
    intro bucket hbucket
    exact hleads bucket (by rwa [hwritten.length_eq])
  · intro hselected
    obtain ⟨bits, hselects⟩ := hwritten.exists_selects hwords hselected (hsupported.carried hselected)
    exact ⟨bits, hselects.keepsVector, fun t ht => hselects.exists_index (hgoes t ht)⟩

/-- Four records of ten, nine, nine and ten bytes with selected offsets: an index of four set bits that leads to their
starts. -/
theorem offsets_of_four : ∃ store d t storage index, ∃ sizes : List Nat,
    ofFour (.varied .explicit .selected .equality) = (store, .ok d) ∧
    openFour store (.reader none none false) = .ok t ∧ t.storage = some storage ∧ d.dataSize = sizes.sum ∧
    (∀ bucket < 4, t.descriptor.offsetOf bucket storage.offsets storage.select = .ok (startOf sizes bucket)) ∧
    (List.range 4).map (startOf sizes) = [0, 10, 19, 28] ∧ sizes.sum = 38 ∧
    storage.select.or t.descriptor.select = some index ∧ index.numOnes = 4 := by
  obtain ⟨store, d, hrun, hsupported⟩ := ofFour_varied .explicit .selected .equality nofun
  obtain ⟨store', d', t, hrun', hopen, hsize, hselected, hfound⟩ := ofFour_of_evaluation .explicit .selected .equality nofun
    (.inl rfl) (.reader none none false) (fun d t => d.dataSize = 38 ∧ d.settings.offsetStorage = .selected ∧
      (t.storage.map fun storage => (List.range 4).map fun bucket =>
        t.descriptor.offsetOf bucket storage.offsets storage.select) = some [.ok 0, .ok 10, .ok 19, .ok 28]) (by decide +kernel)
  cases hrun.symm.trans hrun'
  obtain ⟨_, _, _, _, hmade, hfiled, hpaths⟩ := made_of_run hrun (by decide)
  obtain ⟨entries, slots, records, file, -, -, hlength, hsum, -, hdescriptor, hoffsets, hstarts, -, hindex⟩ :=
    offsets_are_sums_of_sizes HashFunction.restores_byOrder hrun (Settings.knows_varied _ _ _)
      (Settings.formed_varied _ _ _).bounded hsupported (hmade.words (by decide))
  have hlocate : TablePaths.locate store ["work", "table"] none none = d.paths := by
    rw [hpaths]
    exact hfiled.leads.tablePaths_eq
  have ht := Table.Opened.openAt (by rw [hlocate]; exact hdescriptor) (by rw [hlocate]; exact hoffsets) hopen
  have hcount : d.count = 4 := hmade.count_eq
  obtain ⟨storage, hheld, hleads⟩ := hstarts _ ht
  obtain ⟨bits, -, hasked⟩ := hindex hselected
  obtain ⟨storage', index, hheld', hasks, hfinds⟩ := hasked _ ht
  cases hheld.symm.trans hheld'
  have hfour : (records.map List.length).length = 4 := by rw [List.length_map, hlength, hcount]
  refine ⟨store, d, t, storage, index, records.map List.length, hrun, hopen, hheld, hsum,
    fun bucket hbucket => hleads bucket (hcount ▸ hbucket), ?_, hsum.symm.trans hsize, hasks, hfinds.numOnes.trans hfour⟩
  -- the starts that the theorem tells are the offsets that were found
  rw [hheld, Option.map_some, Option.some.injEq] at hfound
  have hstarts : ((List.range 4).map (startOf (records.map List.length))).map (fun start => (.ok start : Except Fault Nat)) =
      [0, 10, 19, 28].map .ok := by
    rw [List.map_map]
    refine Eq.trans (List.map_congr_left fun bucket hbucket => ?_) hfound
    exact (hleads bucket (hcount ▸ List.mem_range.1 hbucket)).symm
  exact List.map_injective_iff.2 (fun _ _ h => Except.ok.inj h) hstarts

/-- With a line that falls, which an image of settings may have, the vector of selected offsets has three set bits for four
records, one of them behind its end: the first two records have one number, and the last query comes to the fallback. With plain
offsets the same records start where they do. -/
theorem offsets_fall_together : ∃ bytes store d t store' e u index,
    Settings.decode .varied bytes = some (.falling .explicit .selected .equality) ∧
    (Settings.falling .explicit .selected .equality).validate = .ok () ∧
    ofFour (.falling .explicit .selected .equality) = (store, .ok d) ∧ openFour store .map = .ok t ∧
    ofFour (.falling .explicit .indexed .equality) = (store', .ok e) ∧ openFour store' .map = .ok u ∧
    d.count = 4 ∧ d.select = some index ∧ index.numBits = 2 ∧ index.numOnes = 3 ∧ index.select 2 = some 2 ∧
    index.select 3 = none ∧
    (t.storage.map fun storage => (List.range 4).map fun bucket =>
      t.descriptor.offsetOf bucket storage.offsets storage.select) = some [.ok 0, .ok 9, .ok 18, .ok 30] ∧
    (u.storage.map fun storage => (List.range 4).map fun bucket =>
      u.descriptor.offsetOf bucket storage.offsets storage.select) = some [.ok 0, .ok 10, .ok 19, .ok 28] := by
  obtain ⟨hdecode, hvalid⟩ := Settings.decode_falling .explicit .selected .equality nofun
  obtain ⟨store, d, t, hrun, hopen, hcount, hselect, hfound⟩ := ofFour_of_evaluation .explicit .selected .equality nofun
    (.inr rfl) .map (fun d t => d.count = 4 ∧ (d.select.any fun index => decide (index.numBits = 2 ∧ index.numOnes = 3 ∧
      index.select 2 = some 2 ∧ index.select 3 = none)) = true ∧
      (t.storage.map fun storage => (List.range 4).map fun bucket =>
        t.descriptor.offsetOf bucket storage.offsets storage.select) = some [.ok 0, .ok 9, .ok 18, .ok 30]) (by decide +kernel)
  obtain ⟨store', e, u, hrun', hopen', hfound'⟩ := ofFour_of_evaluation .explicit .indexed .equality nofun (.inr rfl) .map
    (fun _ u => (u.storage.map fun storage => (List.range 4).map fun bucket =>
      u.descriptor.offsetOf bucket storage.offsets storage.select) = some [.ok 0, .ok 10, .ok 19, .ok 28]) (by decide +kernel)
  obtain ⟨index, hindex, hvector⟩ := (Option.any_eq_true _ _).1 hselect
  obtain ⟨hbits, hones, hlast, hmissing⟩ := of_decide_eq_true hvector
  exact ⟨_, store, d, t, store', e, u, index, hdecode, hvalid, hrun, hopen, hrun', hopen', hcount, hindex, hbits,
    hones, hlast, hmissing, hfound, hfound'⟩

end Build

end FrozenTable
