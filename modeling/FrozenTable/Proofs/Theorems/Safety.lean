import FrozenTable.Proofs.Lemmas.Supporting
import FrozenTable.Proofs.Lemmas.Taming

/-!
# When lookups cannot run out of bounds

Opening a table checks the lengths of its files, and lookups check each offset and each item they read. Two things are checked
by neither: that the words of the signatures reach as far as the last bucket, and that plain offsets are words. On a table for
which both hold no lookup meets a fatal fault, whatever its bytes are, and they hold for every table that was built. A
descriptor for which one of them fails can be made by hand; it is accepted, and a lookup runs out of bounds.
-/

namespace FrozenTable

open Outcome

variable {κ ν : Type}

namespace Table

/-- A table no lookup on which meets a fatal fault. -/
structure Tame [Ord κ] (t : Table κ ν) : Prop where
  get : ∀ key, Outcome.Tame (t.get key).2
  contains : ∀ key, Outcome.Tame (t.contains key).2
  entryAt : ∀ bucket, Outcome.Tame (t.entryAt bucket)
  valueAt : ∀ bucket, Outcome.Tame (t.valueAt bucket)
  keyAt : ∀ bucket, Outcome.Tame (t.keyAt bucket)
  walk : Outcome.Tame t.walk
  next : ∀ c entry c', t.next c = some (entry, c') → Outcome.Tame entry

/-- The tables that come from bytes which were accepted, whatever the bytes are: in the files of a table, for a reader with any
options, or in the image of a map. They stay accepted when they are asked and when they are closed. -/
inductive Accepted [HashLibrary] [Ord κ] [DecidableEq κ] (finder : CodecFinder κ ν) : Table κ ν → Prop where
  | openAt {store : FileStore} {path : Path} {options : OpenOptions κ ν} {t : Table κ ν}
      (h : Table.openAt finder store path options = .ok t) : Accepted finder t
  | ofBytes {bytes : Bytes} {m : ResidentMap κ ν} (h : ResidentMap.ofBytes finder bytes = .ok m) : Accepted finder m.table
  | get {t : Table κ ν} (h : Accepted finder t) (key : κ) : Accepted finder (t.get key).1
  | contains {t : Table κ ν} (h : Accepted finder t) (key : κ) : Accepted finder (t.contains key).1
  | close {t : Table κ ν} (h : Accepted finder t) : Accepted finder t.close

theorem descriptor_counted (t : Table κ ν) (found : Except Fault (Finding ν)) :
    (t.counted found).descriptor = t.descriptor := by
  cases found <;> rfl

theorem descriptor_contains [Ord κ] (t : Table κ ν) (key : κ) : (t.contains key).1.descriptor = t.descriptor := by
  unfold contains
  split
  · exact descriptor_counted t _
  · rfl

/-- The descriptor of a table that was accepted was read with codecs that the reader has found. -/
theorem Accepted.settings [HashLibrary] [Ord κ] [DecidableEq κ] {finder : CodecFinder κ ν} (hfinder : finder.Tame)
    {t : Table κ ν} (h : Accepted finder t) : t.descriptor.settings.Tame := by
  induction h with
  | openAt hopen =>
    obtain ⟨d, data, offsets, hload, hassemble⟩ := exists_assemble_of_openAt hopen
    obtain ⟨bytes, -, hdecode⟩ := Outcome.bind_eq_ok.1 hload
    rw [(parts_of_assemble hassemble).1]
    exact Descriptor.tame_of_decode hfinder hdecode
  | ofBytes hread =>
    obtain ⟨_, d, _, _, hdecode, hassemble⟩ := ResidentMap.exists_assemble_of_ofBytes hread
    rw [(parts_of_assemble hassemble).1]
    exact Descriptor.tame_of_decode hfinder hdecode
  | @get t _ key ih =>
    rw [Table.get, descriptor_counted]
    exact ih
  | @contains t _ key ih =>
    rw [descriptor_contains]
    exact ih
  | close _ ih => exact ih

/-- A table is tame when its codecs are and its descriptor is consistent. -/
theorem tame_of_consistent [Ord κ] {t : Table κ ν} (hsettings : t.descriptor.settings.Tame)
    (hconsistent : t.descriptor.Consistent) : t.Tame where
  get key := (tame_find hsettings hconsistent key).map _
  contains key := by
    unfold contains
    split
    · exact (tame_find hsettings hconsistent key).map _
    · exact tame_needStorage.bind fun _ _ => (tame_locate hsettings hconsistent key).bind fun _ _ => rfl
  entryAt := tame_entryAt hsettings hconsistent
  valueAt bucket := (tame_entryAt hsettings hconsistent bucket).map _
  keyAt bucket := (tame_entryAt hsettings hconsistent bucket).map _
  walk := by
    unfold walk
    split
    · rfl
    · exact tame_needStorage.bind fun _ _ => rfl
  next c entry c' h := by
    unfold next at h
    split at h
    · exact nomatch h
    · cases h
      refine (tame_entryAt hsettings hconsistent _).bind fun ⟨stored, value⟩ _ => ?_
      cases stored <;> rfl

end Table

/-- What a build puts into a descriptor is consistent. -/
theorem Build.consistent_of_run [HashLibrary] [Ord κ] [Spelled κ] [Spelled ν] {store store' : FileStore}
    {settings : Settings κ ν} {dataSize : Option Nat} {timestamp : Nat} {directory : Path} {source : Source κ ν}
    {d : Descriptor κ ν} (h : run store settings dataSize timestamp directory source = (store', .ok d)) : d.Consistent := by
  obtain ⟨scan, hash, settings', data, sizes, offsets, keys, hhashed, -, -, -, -, rfl, -⟩ := parts_of_run h
  have hwidth := signatureWidth_le hhashed.flaw_eq_none
  have hseparates := PerfectHash.separates_of_build hhashed.built hwidth
  refine ⟨.inr ⟨?_, fun i hi => ?_⟩, fun _ => Settings.offsetWidth_le _⟩
  · rw [Descriptor.new, PerfectHash.signatureWidth, hseparates.width_eq]
    exact hwidth
  · have hreaches : hash.signatures.Reaches i := by
      refine PackedArray.Reaches.of_lt ?_ hi
      rw [hseparates.width_eq]
      exact hseparates.words_size
    obtain ⟨kept, hkept, -⟩ := PackedArray.get?_eq (hseparates.width_eq ▸ hwidth) hreaches
    rw [Descriptor.new, hkept]
    rfl

/-- No lookup runs out of bounds on a table whose signatures reach as far as its last bucket and whose plain offsets are words:
no key and no bucket that is asked for, and no step of a walk, whatever the bytes are that the table was read from and whatever
was asked before. All that a build writes into a descriptor is of this kind. -/
theorem Table.lookups_are_tame [HashLibrary] [Ord κ] [DecidableEq κ] [Spelled κ] [Spelled ν] {finder : CodecFinder κ ν}
    (hfinder : finder.Tame) :
    (∀ t : Table κ ν, Accepted finder t → t.descriptor.Consistent → t.Tame) ∧
    ∀ (store store' : FileStore) (settings : Settings κ ν) (dataSize : Option Nat) (timestamp : Nat) (directory : Path)
      (source : Source κ ν) (d : Descriptor κ ν),
      Build.run store settings dataSize timestamp directory source = (store', .ok d) → d.Consistent :=
  ⟨fun _ haccepted hconsistent => tame_of_consistent (haccepted.settings hfinder) hconsistent,
    fun _ _ _ _ _ _ _ _ hrun => Build.consistent_of_run hrun⟩

/-- A table of one entry, as it was built, does not run out of bounds. -/
theorem Table.lookups_are_tame_single : ∃ store d t, Build.single .explicit .indexed = (store, .ok d) ∧
    @openAt _ _ .single _ .longs store ["work", "table"] {} = .ok t ∧ t.descriptor = d ∧ t.Tame := by
  let _ : HashLibrary := .single
  obtain ⟨store, d, hsingle, hsupported⟩ := Build.single_eq_ok .explicit .indexed
  have hopened : (openAt .longs (Build.single .explicit .indexed).1 ["work", "table"] {}).toOption.isSome = true := by
    decide +kernel
  rw [hsingle] at hopened
  have hfinder : CodecFinder.longs.Tame := by
    constructor
    all_goals
      rintro _ _ ⟨⟩
      exact Codec.tame_long
  obtain ⟨htame, hconsistent⟩ := lookups_are_tame hfinder
  obtain ⟨_, _, _, _, hwritten, hfiled, hpaths⟩ := Build.written_of_run hsingle
  have hreadable := hwritten.readable HashLibrary.restores_single (CodecFinder.knows_longs _ _)
    (Settings.formed_longs _ _).bounded hsupported.regular
  have hload := Descriptor.load_eq hreadable hfiled hpaths
  dsimp only at hopened
  cases hopen : openAt .longs store ["work", "table"] {} with
  | error fault =>
    rw [hopen] at hopened
    exact nomatch hopened
  | ok t =>
    obtain ⟨d', _, _, hload', hassemble⟩ := exists_assemble_of_openAt hopen
    obtain rfl : d = d' := Except.ok.inj (hload.symm.trans hload')
    have hdescriptor := (parts_of_assemble hassemble).1
    have hd := hconsistent _ _ _ _ _ _ _ _ hsingle
    exact ⟨store, d, t, hsingle, hopen, hdescriptor, htame t (.openAt hopen) (hdescriptor.symm ▸ hd)⟩

/-- What is computed of a table of one entry after some operations on its files. -/
theorem Build.exists_of_damaged {keyStorage : KeyStorage} {offsetStorage : OffsetStorage}
    {damage : Descriptor Int64 Int64 → List FileOperation} {check : Table Int64 Int64 → Bool}
    (h : ((single keyStorage offsetStorage).2.toOption.any fun d =>
      let (found, outcome) := (single keyStorage offsetStorage).1.performAll (damage d)
      outcome.toOption.isSome && (@Table.openAt _ _ .single _ .longs found ["work", "table"] {}).toOption.any check) = true) :
    ∃ store d found t, single keyStorage offsetStorage = (store, .ok d) ∧ store.performAll (damage d) = (found, .ok ()) ∧
      @Table.openAt _ _ .single _ .longs found ["work", "table"] {} = .ok t ∧ check t = true := by
  cases hsingle : single keyStorage offsetStorage with
  | mk store outcome =>
    rw [hsingle] at h
    obtain fault | d := outcome
    · exact nomatch h
    dsimp only [Except.toOption, Option.any_some] at h
    cases hperform : store.performAll (damage d) with
    | mk found outcome =>
      rw [hperform] at h
      obtain ⟨houtcome, hopened⟩ := Bool.and_eq_true_iff.1 h
      obtain fault | done := outcome
      · exact nomatch houtcome
      cases hopen : @Table.openAt _ _ .single _ .longs found ["work", "table"] {} with
      | error fault =>
        rw [hopen] at hopened
        exact nomatch hopened
      | ok t =>
        rw [hopen] at hopened
        exact ⟨store, d, found, t, rfl, hperform, hopen, hopened⟩

/-- Two descriptors that no build makes and that are accepted: one without the words of its signatures, where looking up a key
runs out of bounds, and one with plain offsets of nine bytes, where reading a bucket does. -/
theorem Table.lookups_out_of_bounds_single :
    (∃ store d found t, Build.single .explicit .fixed = (store, .ok d) ∧
      store.performAll [.create d.paths.descriptor, .append d.paths.descriptor
        { d with hash.signatures.words := #[] }.encode] = (found, .ok ()) ∧
      @openAt _ _ .single _ .longs found ["work", "table"] {} = .ok t ∧ (Fault.fatalIn (t.get 7).2).isSome = true) ∧
    ∃ store d found t, Build.single .explicit .indexed = (store, .ok d) ∧
      store.performAll [.create d.paths.descriptor, .append d.paths.descriptor { d with offsetWidth := 9 }.encode,
        .create d.paths.offsets, .append d.paths.offsets (List.replicate 9 0)] = (found, .ok ()) ∧
      @openAt _ _ .single _ .longs found ["work", "table"] {} = .ok t ∧ (Fault.fatalIn (t.valueAt 0)).isSome = true := by
  refine ⟨Build.exists_of_damaged ?_, Build.exists_of_damaged ?_⟩
  · decide +kernel
  · decide +kernel

end FrozenTable
