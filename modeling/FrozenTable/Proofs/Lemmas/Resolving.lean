import FrozenTable.Proofs.Lemmas.Imaging

/-!
# Open tables go by what was written for their offsets

However one comes to an open table, it has the descriptor that a build wrote, wherever its files are now, and its offsets are
arranged from the very bytes that the build wrote for them: `Table.Opened` says how one comes to it, and `Opened.goesBy` that
this holds of all of them. What is known of these bytes is then known of every open table.
-/

namespace FrozenTable

variable {κ ν : Type}

/-- An offsets file of selected offsets is made of words. -/
theorem Build.exists_words_of_planOffsets {settings : Settings κ ν} {dataSize : Nat} {sizes : List Nat} {bytes : Bytes}
    {select : Option SelectIndex} (hselected : settings.offsetStorage = .selected)
    (h : planOffsets settings dataSize sizes = .ok ⟨some bytes, select⟩) : ∃ words, bytes = wordsBytes words := by
  simp only [planOffsets, hselected, Outcome.bind_eq_ok, Outcome.pure_eq_ok] at h
  obtain ⟨bits, -, h⟩ := h
  split at h
  · cases h
    exact ⟨bits.words, rfl⟩
  · cases h

namespace Table

/-- A table that goes by a descriptor, wherever this was found, and by the bytes that were written for its offsets. -/
structure GoesBy (d : Descriptor κ ν) (file : Option Bytes) (t : Table κ ν) : Prop where
  descriptor : ∃ paths, t.descriptor = d.moved paths
  stored : ∃ storage offsets, t.storage = some storage ∧ offsets.map Region.bytes = file ∧
    arrangeOffsets d offsets = .ok (storage.offsets, storage.select)

/-- The offsets section of a table has the bytes that were written for its offsets. -/
theorem bytes_of_offsetsBytes {d : Descriptor κ ν} {file : Option Bytes} {storage : Storage} {offsets : Option Region}
    (hwords : d.settings.offsetStorage = .selected → ∀ bytes ∈ file, ∃ words, bytes = wordsBytes words)
    (hoffsets : offsets.map Region.bytes = file) (h : arrangeOffsets d offsets = .ok (storage.offsets, storage.select)) :
    (if d.needsOffsetsFile then some (Region.ofBytes (offsetsBytes storage)) else none).map Region.bytes = file := by
  obtain ⟨data, o, s⟩ := storage
  subst hoffsets
  cases arrangeOffsets_eq_ok.1 h with
  | plain r hstorage hsize =>
    have hneeds : d.needsOffsetsFile = true := by rw [Descriptor.needsOffsetsFile, hstorage]
    simp [hneeds, offsetsBytes, Region.ofBytes]
  | words r bits hstorage hselect hbits hsize =>
    obtain ⟨words, hbytes⟩ := hwords hstorage r.bytes rfl
    have hneeds : d.needsOffsetsFile = true := by simp [Descriptor.needsOffsetsFile, hstorage, hselect]
    simp [hneeds, offsetsBytes, SelectIndex.ofBlock, Region.ofBytes, hbytes, words_ofBytes_wordsBytes]
  | absent hneeds => simp [hneeds]

section

variable [HashLibrary] [Ord κ] [DecidableEq κ] {finder : CodecFinder κ ν} {d : Descriptor κ ν} {file : Option Bytes}
  {t : Table κ ν}

/-- The ways of coming to an open table from what a build has written: opening it by any path, with any options, wherever its
descriptor and its offsets file are found now, which is how a map in memory is loaded as well; reading an image of it back,
whatever stands behind the image; and asking it, which is counted. -/
inductive Opened (finder : CodecFinder κ ν) (d : Descriptor κ ν) (file : Option Bytes) : Table κ ν → Prop where
  | openAt {found : FileStore} {path : Path} {options : OpenOptions κ ν} {t : Table κ ν}
      (hdescriptor : found.read (TablePaths.locate found path options.offsets options.data).descriptor = .ok d.encode)
      (hoffsets : ∀ bytes ∈ file, found.read (TablePaths.locate found path options.offsets options.data).offsets = .ok bytes)
      (hopen : Table.openAt finder found path options = .ok t) : Opened finder d file t
  | ofBytes {m m' : ResidentMap κ ν} {bytes rest : Bytes} (h : Opened finder d file m.table) (hencode : m.encode = .ok bytes)
      (hread : ResidentMap.ofBytes finder (bytes ++ rest) = .ok m') : Opened finder d file m'.table
  | get {t : Table κ ν} (h : Opened finder d file t) (key : κ) : Opened finder d file (t.get key).1
  | contains {t : Table κ ν} (h : Opened finder d file t) (key : κ) : Opened finder d file (t.contains key).1

omit [HashLibrary] [Ord κ] [DecidableEq κ] in
theorem GoesBy.counted (h : t.GoesBy d file) (found : Except Fault (Finding ν)) : (t.counted found).GoesBy d file := by
  cases found with
  | ok finding => exact ⟨h.descriptor, h.stored⟩
  | error fault => exact h

omit [Ord κ] in
/-- A table that was opened goes by what was found. -/
theorem goesBy_of_openAt (hreadable : d.Readable finder) (hfile : file.isSome = d.needsOffsetsFile) {found : FileStore}
    {path : Path} {options : OpenOptions κ ν}
    (hdescriptor : found.read (TablePaths.locate found path options.offsets options.data).descriptor = .ok d.encode)
    (hoffsets : ∀ bytes ∈ file, found.read (TablePaths.locate found path options.offsets options.data).offsets = .ok bytes)
    (hopen : openAt finder found path options = .ok t) : t.GoesBy d file := by
  obtain ⟨d', data, offsets, hload, hneeds, hread, hassemble⟩ := exists_offsets_of_openAt hopen
  obtain rfl : d.moved (TablePaths.locate found path options.offsets options.data) = d' := by
    have hdecode := hreadable.decode_eq (TablePaths.locate found path options.offsets options.data)
    simp only [Descriptor.load, hdescriptor, FileStore.lift_ok, Outcome.ok_bind, hdecode] at hload
    exact Except.ok.inj hload
  obtain ⟨hsame, -, o, s, harrange, hstorage⟩ := parts_of_assemble hassemble
  refine ⟨⟨_, hsame⟩, _, offsets, hstorage, ?_, harrange⟩
  have hboth : offsets.isSome = file.isSome := hneeds.trans hfile.symm
  rcases offsets with _ | region <;> rcases file with _ | bytes
  · rfl
  · cases hboth
  · cases hboth
  · have hregion := (hread region rfl).symm.trans (hoffsets bytes rfl)
    simpa using hregion

/-- However one comes to an open table, it goes by what a build has written. -/
theorem Opened.goesBy (hreadable : d.Readable finder) (hfile : file.isSome = d.needsOffsetsFile)
    (hwords : d.settings.offsetStorage = .selected → ∀ bytes ∈ file, ∃ words, bytes = wordsBytes words)
    (h : Opened finder d file t) : t.GoesBy d file := by
  induction h with
  | openAt hdescriptor hoffsets hopen => exact goesBy_of_openAt hreadable hfile hdescriptor hoffsets hopen
  | @ofBytes m m' bytes rest _ hencode hread ih =>
    obtain ⟨⟨paths, hpaths⟩, storage, offsets, hstorage, hoffsets, harrange⟩ := ih
    have hreadable' : m.table.descriptor.Readable finder := by
      rw [hpaths]
      exact hreadable.moved paths
    rw [ResidentMap.ofBytes, ResidentMap.decode_append hreadable' hstorage hencode, hpaths] at hread
    obtain ⟨_, hmap, rfl⟩ := Outcome.map_eq_ok.1 hread
    obtain ⟨u, hassemble, rfl⟩ := Outcome.map_eq_ok.1 hmap
    obtain ⟨hsame, -, o, s, harrange', hstorage'⟩ := parts_of_assemble hassemble
    exact ⟨⟨_, hsame⟩, _, _, hstorage', bytes_of_offsetsBytes hwords hoffsets harrange, harrange'⟩
  | @get t _ key ih => exact ih.counted (t.find key)
  | @contains t _ key ih =>
    unfold Table.contains
    split
    · exact ih.counted (t.find key)
    · exact ih

end

end Table

end FrozenTable
