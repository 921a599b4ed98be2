import FrozenTable.Proofs.Lemmas.Imaging
import FrozenTable.Proofs.Lemmas.Spooling
import FrozenTable.Proofs.Theorems.Housing

/-!
# Images hold the whole map

A map that a build led to can be written as an image and read back, and what is read back answers alike and has the same image.
The maps are reached by loading the files of a build, by building from entries, by reading images of such maps, and by asking
any of these. What they have in common is that their descriptor can be read back and that their bytes go with it
(`ResidentMap.Whole`); each way of coming to a map keeps to that, and everything about images follows from it.
-/

namespace FrozenTable

variable {κ ν : Type}

namespace ResidentMap

/-! ## Whole maps -/

section

variable [HashLibrary] [DecidableEq κ] {finder : CodecFinder κ ν} {m : ResidentMap κ ν}

/-- A map whose descriptor can be read back, and whose bytes go with it. Nothing is asked of its tally. -/
structure Whole (finder : CodecFinder κ ν) (m : ResidentMap κ ν) : Prop where
  readable : m.table.descriptor.Readable finder
  range_eq : m.table.descriptor.keyRange = .ok m.table.range
  acceptance_eq : m.table.acceptance = m.table.descriptor.settings.acceptance
  stored : ∃ storage, m.table.storage = some storage ∧ storage.data.size = m.table.descriptor.dataSize ∧
    ∃ offsets, Table.arrangeOffsets m.table.descriptor offsets = .ok (storage.offsets, storage.select)

/-- What is put together from a descriptor that can be read back is whole. -/
theorem Whole.of_assemble {d : Descriptor κ ν} (hreadable : d.Readable finder) {data : Region} {offsets : Option Region}
    {t : Table κ ν} (h : Table.assemble d data offsets none = .ok t) : Whole finder ⟨t⟩ := by
  obtain ⟨hsize, o, s, range, harrange, hrange, rfl⟩ := Table.assemble_eq_ok.1 h
  exact ⟨hreadable, hrange, rfl, _, rfl, hsize, offsets, harrange⟩

/-- A map stays whole whatever has been counted. -/
theorem Whole.counted (h : Whole finder m) (found : Except Fault (Finding ν)) : Whole finder ⟨m.table.counted found⟩ := by
  cases found with
  | ok finding => exact ⟨h.readable, h.range_eq, h.acceptance_eq, h.stored⟩
  | error fault => exact h

theorem Whole.exists_sections (h : Whole finder m) : ∃ x, m.sections? = some x := by
  obtain ⟨storage, hstorage, -⟩ := h.stored
  exact ⟨_, by rw [sections?, hstorage]; rfl⟩

/-- Maps that cannot be told from each other by their settings, their keys and values, and their images. -/
structure Same [Ord κ] (m m' : ResidentMap κ ν) : Prop where
  settings : m.table.descriptor.settings = m'.table.descriptor.settings
  range : m.table.range = m'.table.range
  agrees : m.table.Agrees m'.table
  encode : m.encode = m'.encode

/-- What was written for a whole map is read back to a map that is the same, and nothing behind it is touched. -/
theorem Whole.exists_decode [Ord κ] (h : Whole finder m) {bytes : Bytes} (hencode : m.encode = .ok bytes) (rest : Bytes) :
    ∃ m', decode finder (bytes ++ rest) = .ok (m', rest) ∧ Whole finder m' ∧ m'.Same m := by
  obtain ⟨⟨data, o, s⟩, hstorage, hsize, offsets, harrange⟩ := h.stored
  have hsections : m.sections? = some ⟨m.table.descriptor.encode, data.bytes, Table.offsetsBytes ⟨data, o, s⟩⟩ := by
    rw [sections?, hstorage]
    rfl
  obtain ⟨o', s', harrange', halike⟩ := Table.arrangeOffsets_offsetsBytes harrange data
  have hassemble : Table.assemble (m.table.descriptor.moved noPaths) (.ofBytes data.bytes)
      (if m.table.descriptor.needsOffsetsFile then some (.ofBytes (Table.offsetsBytes ⟨data, o, s⟩)) else none) none =
      .ok (.fresh (m.table.descriptor.moved noPaths) ⟨.ofBytes data.bytes, o', s'⟩ m.table.range) := by
    refine Table.assemble_eq_ok.2 ⟨?_, o', s', m.table.range, harrange', h.range_eq, rfl⟩
    rw [Region.size_ofBytes, ← Region.size_eq]
    exact hsize
  have hsections' : sections? (⟨.fresh (m.table.descriptor.moved noPaths) ⟨.ofBytes data.bytes, o', s'⟩ m.table.range⟩ :
      ResidentMap κ ν) = some ⟨m.table.descriptor.encode, data.bytes, Table.offsetsBytes ⟨data, o, s⟩⟩ := by
    rw [← halike.offsetsBytes_eq, ← Descriptor.encode_moved m.table.descriptor noPaths]
    rfl
  refine ⟨_, ?_, .of_assemble (h.readable.moved noPaths) hassemble, rfl, rfl, ?_, ?_⟩
  · rw [decode_append h.readable hstorage hencode, hassemble]
    rfl
  · exact Table.agrees_of_alike rfl rfl h.acceptance_eq.symm rfl hstorage halike
  · rw [encode_eq hsections', encode_eq hsections]

end

/-! ## Coming to a map -/

section

variable [HashLibrary] [Ord κ] [DecidableEq κ] [Spelled κ] [Spelled ν] {finder : CodecFinder κ ν} {m : ResidentMap κ ν}

/-- The ways of coming to a map from what builds and maps have written: loading a table by a descriptor that a build has
written, wherever its files are found now; building from entries; reading an image, whatever stands behind it; and asking a
map, which is counted. MessagePack has a form for the descriptors, and the reader knows their codecs. -/
inductive Obtained (finder : CodecFinder κ ν) : ResidentMap κ ν → Prop where
  | load {store store' found : FileStore} {settings : Settings κ ν} {dataSize : Option Nat} {timestamp : Nat}
      {directory path : Path} {source : Source κ ν} {d : Descriptor κ ν} {m : ResidentMap κ ν}
      (hrun : Build.run store settings dataSize timestamp directory source = (store', .ok d))
      (hknown : finder.Knows settings) (hbounded : settings.Bounded) (hregular : d.form.Regular Msgpack.maxLevels)
      (hfound : found.read (TablePaths.locate found path none none).descriptor = .ok d.encode)
      (hload : ResidentMap.load finder found path = .ok m) : Obtained finder m
  | ofEntries {settings : Settings κ ν} {timestamp : Nat} {entries : List (Entry κ ν)} {m : ResidentMap κ ν}
      (hknown : finder.Knows settings) (hbounded : settings.Bounded)
      (hregular : ∀ store d,
        Build.runOnce (.rooted workspace) settings timestamp workspace (workspace ++ ["table"]) entries = (store, .ok d) →
          d.form.Regular Msgpack.maxLevels)
      (hmap : ResidentMap.ofEntries finder settings timestamp entries = .ok m) : Obtained finder m
  | ofBytes {m m' : ResidentMap κ ν} {bytes rest : Bytes} (h : Obtained finder m) (hencode : m.encode = .ok bytes)
      (hread : ResidentMap.ofBytes finder (bytes ++ rest) = .ok m') : Obtained finder m'
  | get {m : ResidentMap κ ν} (h : Obtained finder m) (key : κ) : Obtained finder ⟨(m.table.get key).1⟩
  | contains {m : ResidentMap κ ν} (h : Obtained finder m) (key : κ) : Obtained finder ⟨(m.table.contains key).1⟩

omit [Ord κ] [Spelled κ] [Spelled ν] in
/-- A map that was loaded by a descriptor that can be read back is whole. -/
theorem Whole.of_load {d : Descriptor κ ν} (hreadable : d.Readable finder) {found : FileStore} {path : Path}
    (hfound : found.read (TablePaths.locate found path none none).descriptor = .ok d.encode)
    (hload : load finder found path = .ok m) : Whole finder m := by
  obtain ⟨t, hopen, hmap⟩ := Outcome.bind_eq_ok.1 hload
  cases hmap
  obtain ⟨d', data, offsets, hdescriptor, hassemble⟩ := Table.exists_assemble_of_openAt hopen
  obtain rfl : d.moved (TablePaths.locate found path none none) = d' := by
    have hdecode := hreadable.decode_eq (TablePaths.locate found path none none)
    simp only [Descriptor.load, hfound, FileStore.lift_ok, Outcome.ok_bind, hdecode] at hdescriptor
    exact Except.ok.inj hdescriptor
  exact .of_assemble (hreadable.moved _) hassemble

/-- However one comes to a map, it is whole. -/
theorem Obtained.whole (hlibrary : HashLibrary.Restores) (h : Obtained finder m) : Whole finder m := by
  induction h with
  | load hrun hknown hbounded hregular hfound hload =>
    obtain ⟨_, _, _, _, hwritten, -⟩ := Build.written_of_run hrun
    exact .of_load (hwritten.readable hlibrary hknown hbounded hregular) hfound hload
  | @ofEntries settings timestamp entries m hknown hbounded hregular hmap =>
    unfold ResidentMap.ofEntries at hmap
    dsimp only at hmap
    split at hmap
    · cases hmap
    · rename_i store d honce
      obtain ⟨spool, -, hrun⟩ := Build.runOnce_eq_ok.1 honce
      obtain ⟨_, _, _, _, hwritten, hfiled, -⟩ := Build.written_of_run hrun
      obtain ⟨hlocate, hread⟩ := hfiled.read_descriptor
      rw [← hlocate] at hread
      exact .of_load (hwritten.readable hlibrary hknown hbounded (hregular store d honce)) hread hmap
  | @ofBytes m m' bytes rest _ hencode hread ih =>
    obtain ⟨m'', hdecode, hwhole, -⟩ := ih.exists_decode hencode rest
    rw [ResidentMap.ofBytes, hdecode] at hread
    cases hread
    exact hwhole
  | @get m _ key ih => exact ih.counted (m.table.find key)
  | @contains m _ key ih =>
    unfold Table.contains
    split
    · exact ih.counted (m.table.find key)
    · exact ih

/-! ## The round trip -/

/-- The image of a map tells all of it and no more. Read back with anything behind it, it gives a map with the same settings
and the same range that answers alike and has the same image, and what stands behind it is left. A map has an image exactly
when its sections are no longer together than an image may be, and at the same bound images are refused for what their header
says. -/
theorem image_round_trips (hlibrary : HashLibrary.Restores) (h : Obtained finder m) :
    (∀ bytes, m.encode = .ok bytes → ∀ rest, ∃ m', decode finder (bytes ++ rest) = .ok (m', rest) ∧ m'.Same m) ∧
    (∃ x, m.sections? = some x ∧
      m.encode = (if maxImage < x.size then .error (.imageTooLarge x.size) else .ok x.image) ∧
      (Fault.imageTooLarge x.size).kind = .invalidInput) ∧
    ∀ a b c, a < 0x10000000000000000 → b < 0x10000000000000000 → c < 0x10000000000000000 → ∀ input,
      decode finder (header a b c ++ input) =
        if maxImage < a + b + c then .error .imageOversized else readSections finder a b c input := by
  have hwhole := h.whole hlibrary
  refine ⟨?_, ?_, ?_⟩
  · intro bytes hencode rest
    obtain ⟨m', hdecode, -, hsame⟩ := hwhole.exists_decode hencode rest
    exact ⟨m', hdecode, hsame⟩
  · obtain ⟨x, hx⟩ := hwhole.exists_sections
    exact ⟨x, hx, encode_eq hx, rfl⟩
  · intro a b c ha hb hc input
    exact decode_header finder ha hb hc input

end

/-- The map of a table with plain offsets in a file is written and read back. -/
theorem image_round_trips_single : ∃ store d m bytes, Build.single .explicit .indexed = (store, .ok d) ∧
    @load _ _ .single _ .longs store ["work", "table"] = .ok m ∧ m.encode = .ok bytes ∧
    ∀ rest, ∃ m', @decode _ _ .single _ .longs (bytes ++ rest) = .ok (m', rest) ∧ m'.Same m := by
  let _ : HashLibrary := .single
  obtain ⟨store, d, hsingle, hsupported⟩ := Build.single_eq_ok .explicit .indexed
  have hloaded : ((load .longs (Build.single .explicit .indexed).1 ["work", "table"]).toOption.any
      fun m => m.encode.toOption.isSome) = true := by decide +kernel
  rw [hsingle] at hloaded
  dsimp only at hloaded
  cases hload : load .longs store ["work", "table"] with
  | error fault =>
    rw [hload] at hloaded
    cases hloaded
  | ok m =>
    rw [hload] at hloaded
    cases hencode : m.encode with
    | error fault =>
      rw [Except.toOption, Option.any_some, hencode] at hloaded
      cases hloaded
    | ok bytes =>
      obtain ⟨_, _, _, _, -, hfiled, -⟩ := Build.written_of_run hsingle
      obtain ⟨hlocate, hread⟩ := hfiled.read_descriptor
      rw [← hlocate] at hread
      obtain ⟨hround, -⟩ := image_round_trips HashLibrary.restores_single
        (.load hsingle (CodecFinder.knows_longs _ _) (Settings.formed_longs _ _).bounded hsupported.regular hread hload)
      exact ⟨store, d, m, bytes, hsingle, hload, hencode, hround bytes hencode⟩

end ResidentMap

end FrozenTable
