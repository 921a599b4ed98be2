import FrozenTable.Build.Plan
import FrozenTable.Proofs.Lemmas.Arranging
import FrozenTable.Proofs.Lemmas.Filing
import FrozenTable.Proofs.Lemmas.Scanning

/-!
# What a build leaves behind

`Build.Written` gathers what is known of a build that ended well, whatever its passes have found: its settings, its hash, and
the sizes of its records. `Build.Made` adds to it, for a build that found the same entries on each pass, in which order these
stand. With `Filed` it says what is in the files, and everything about lookups follows from the two.
-/

namespace FrozenTable.Build

variable {κ ν : Type}

/-- What a build that ended well has written, whatever its passes have found: records of these `sizes`, and `file` for the
offsets file, if there is one. -/
structure Written [HashLibrary] (settings : Settings κ ν) (d : Descriptor κ ν) (sizes : List Nat) (file : Option Bytes) :
    Prop where
  flaw_eq_none : settings.flaw = none
  /-- Only the offset storage is chosen by the build. -/
  settings_eq : d.settings = { settings with offsetStorage := d.settings.offsetStorage }
  resolved : d.settings.offsetStorage ≠ .automatic
  flat : d.settings.offsetStorage = .fixed → d.settings.entryLine.isConstant = true
  version_eq : d.version = formatVersion
  dataSize_eq : d.dataSize = sizes.sum
  offsetWidth_eq : d.offsetWidth = Settings.offsetWidth d.dataSize
  hashed : ∃ fingerprints, PerfectHash.build fingerprints settings.signatureWidth = .ok d.hash
  length_eq : sizes.length = d.count
  checkSize_eq : ∀ size ∈ sizes, Spread.checkSize d.settings size = .ok ()
  offsets : planOffsets d.settings d.dataSize sizes = .ok ⟨file, d.select⟩

/-- What a build that ended well has made of some entries: they stand in `slots` in the order of their buckets, with `records`
for data. -/
structure Made [HashLibrary] [Ord κ] (settings : Settings κ ν) (entries : List (Entry κ ν)) (d : Descriptor κ ν)
    (slots : List (Entry κ ν)) (records : List Bytes) (file : Option Bytes) : Prop
    extends Written settings d (records.map List.length) file where
  /-- The hash depends on the keys and the width of signatures alone. -/
  hash : ∃ fingerprints, entries.mapM (fun entry => settings.fingerprint entry.key) = .ok fingerprints ∧
    PerfectHash.build fingerprints.reverse settings.signatureWidth = .ok d.hash
  arranged : Arranged d.settings d.hash entries slots records
  /-- The range of the keys is kept by the bytes of the keys. -/
  range : ∃ range, rangeBytes settings (settings.rangeOf entries) = .ok range ∧ d.minKey = range.map Prod.fst ∧
    d.maxKey = range.map Prod.snd

/-! ## The parts of a build -/

/-- Settings change in their offset storage only, if that was left open. -/
theorem resolved_eq_ok {settings settings' : Settings κ ν} {count dataSize : Nat} (hflaw : settings.flaw = none)
    (h : settings.resolved count dataSize = .ok settings') :
    settings' = { settings with offsetStorage := settings'.offsetStorage } ∧ settings'.offsetStorage ≠ .automatic ∧
      (settings'.offsetStorage = .fixed → settings'.entryLine.isConstant = true) := by
  unfold Settings.resolved at h
  split at h
  · obtain ⟨storage, hstorage, h⟩ := Outcome.bind_eq_ok.1 h
    cases h
    unfold Settings.cheapest at hstorage
    split at hstorage
    · rename_i hconstant
      cases hstorage
      exact ⟨rfl, nofun, fun _ => hconstant⟩
    · obtain ⟨cost, -, hstorage⟩ := Outcome.bind_eq_ok.1 hstorage
      rw [Outcome.pure_eq_ok] at hstorage
      subst hstorage
      dsimp only
      split <;> exact ⟨rfl, nofun, nofun⟩
  · rename_i hgiven
    cases h
    refine ⟨rfl, hgiven, fun hfixed => ?_⟩
    unfold Settings.flaw at hflaw
    split at hflaw
    · exact nomatch hflaw
    split at hflaw
    · exact nomatch hflaw
    · rename_i hconstant
      rw [not_and, Decidable.not_not] at hconstant
      exact hconstant hfixed

/-- A hash of keys is one of their fingerprints. -/
theorem hashKeys_eq_ok [HashLibrary] [Spelled κ] [Spelled ν] {settings : Settings κ ν} {fingerprints : List Fingerprint}
    {later : List (Except Fault (Entry κ ν))} {hash : PerfectHash} (h : hashKeys settings fingerprints later = .ok hash) :
    PerfectHash.build fingerprints settings.signatureWidth = .ok hash := by
  unfold hashKeys at h
  split at h
  · split at h
    · obtain ⟨texts, -, h⟩ := Outcome.bind_eq_ok.1 h
      exact nomatch h
    · exact nomatch h
  · exact h

/-- Fingerprints that can be hashed make the hash of their keys. -/
theorem hashKeys_of_build [HashLibrary] [Spelled κ] [Spelled ν] {settings : Settings κ ν} {fingerprints : List Fingerprint}
    {hash : PerfectHash} (h : PerfectHash.build fingerprints settings.signatureWidth = .ok hash)
    (later : List (Except Fault (Entry κ ν))) : hashKeys settings fingerprints later = .ok hash := by
  rw [hashKeys, h]

/-- What a plan that ends well consists of. -/
theorem planWriting_eq_ok [Spelled κ] {settings : Settings κ ν} {hash : PerfectHash} {dataSize : Nat} {range : Option (κ × κ)}
    {timestamp : Nat} {directory : Path} {entries : List (Except Fault (Entry κ ν))} {d : Descriptor κ ν}
    (h : (planWriting settings hash dataSize range timestamp directory entries).outcome = .ok d) :
    ∃ data sizes offsets keys, arrange settings hash dataSize entries = .ok (data, sizes) ∧
      planOffsets settings dataSize sizes = .ok offsets ∧ rangeBytes settings range = .ok keys ∧
      d = .new settings hash offsets.select dataSize keys timestamp (TablePaths.inDirectory directory) ∧
      (planWriting settings hash dataSize range timestamp directory entries).operations =
        preparing directory ++ writing (TablePaths.inDirectory directory).data data ++
          (offsets.file.map (writing (TablePaths.inDirectory directory).offsets)).getD [] ++ d.storing := by
  unfold planWriting at h ⊢
  cases harrange : arrange settings hash dataSize entries with
  | error fault =>
    rw [harrange] at h
    exact nomatch h
  | ok arranged =>
    obtain ⟨data, sizes⟩ := arranged
    rw [harrange] at h
    dsimp only at h ⊢
    cases hoffsets : planOffsets settings dataSize sizes with
    | error fault =>
      rw [hoffsets] at h
      exact nomatch h
    | ok offsets =>
      rw [hoffsets] at h
      dsimp only at h ⊢
      cases hrange : rangeBytes settings range with
      | error fault =>
        rw [hrange] at h
        exact nomatch h
      | ok keys =>
        rw [hrange] at h
        cases h
        exact ⟨data, sizes, offsets, keys, rfl, hoffsets, rfl, rfl, rfl⟩

/-- An offsets file is planned exactly for a table that needs one. -/
theorem isSome_of_planOffsets {d : Descriptor κ ν} {sizes : List Nat} {file : Option Bytes}
    (h : planOffsets d.settings d.dataSize sizes = .ok ⟨file, d.select⟩) : file.isSome = d.needsOffsetsFile := by
  cases hstorage : d.settings.offsetStorage with
  | automatic | indexed | fixed =>
    simp only [planOffsets, hstorage, Except.ok.injEq, OffsetPlan.mk.injEq] at h
    rw [Descriptor.needsOffsetsFile, hstorage, ← h.1]
    rfl
  | selected =>
    simp only [planOffsets, hstorage, Outcome.bind_eq_ok, Outcome.pure_eq_ok] at h
    obtain ⟨bits, -, h⟩ := h
    rw [Descriptor.needsOffsetsFile, hstorage]
    split at h
    all_goals
      rw [OffsetPlan.mk.injEq] at h
      rw [← h.1, ← h.2]
      rfl

/-- A plan that was carried out well has been performed to its end. -/
theorem carryOut_eq_ok {store store' : FileStore} {plan : BuildPlan κ ν} {d : Descriptor κ ν}
    (h : carryOut store plan = (store', .ok d)) :
    store.performAll plan.operations = (store', .ok ()) ∧ plan.outcome = .ok d := by
  unfold carryOut at h
  split at h
  · rename_i hperform
    rw [Prod.mk.injEq] at h
    rw [hperform, h.1]
    exact ⟨rfl, h.2⟩
  · rw [Prod.mk.injEq] at h
    exact nomatch h.2

/-! ## Builds -/

/-- Settings that pass have no flaw. -/
theorem validate_eq_ok {settings : Settings κ ν} (h : settings.validate = .ok ()) : settings.flaw = none := by
  unfold Settings.validate at h
  split at h
  · exact nomatch h
  · assumption

/-- Settings without a flaw have signatures of at most 64 bits. -/
theorem signatureWidth_le {settings : Settings κ ν} (h : settings.flaw = none) : settings.signatureWidth ≤ 64 := by
  refine Nat.not_lt.1 ?_
  intro hwidth
  unfold Settings.flaw at h
  rw [if_pos hwidth] at h
  repeat' split at h
  all_goals exact nomatch h

section

variable [HashLibrary] [Ord κ] [Spelled κ] [Spelled ν]

/-- What a build has found out when it begins to write: its settings have no flaw, a first pass has ended well, and there is a
hash of the fingerprints it has found. -/
structure Hashed (settings : Settings κ ν) (dataSize : Option Nat) (source : Source κ ν) (scan : Scan κ) (hash : PerfectHash) :
    Prop where
  flaw_eq_none : settings.flaw = none
  scanned : Scan.run settings dataSize.isSome source.first = .ok scan
  built : PerfectHash.build scan.fingerprints settings.signatureWidth = .ok hash

section

variable {settings : Settings κ ν} {dataSize : Option Nat} {source : Source κ ν} {entries : List (Entry κ ν)} {scan : Scan κ}
  {hash : PerfectHash}

omit [Spelled κ] [Spelled ν]

/-- What was hashed are the entries. -/
theorem Hashed.covers (h : Hashed settings dataSize (.ofEntries entries) scan hash) : Scan.Covers settings entries scan :=
  Scan.covers_of_run h.scanned

/-- The hash tells the fingerprints of the first pass apart. -/
theorem Hashed.separates (h : Hashed settings dataSize source scan hash) :
    hash.Separates settings.signatureWidth scan.fingerprints :=
  PerfectHash.separates_of_build h.built (signatureWidth_le h.flaw_eq_none)

/-- There is one fingerprint for each entry. -/
theorem Hashed.length_fingerprints (h : Hashed settings dataSize (.ofEntries entries) scan hash) :
    scan.fingerprints.length = entries.length := by
  obtain ⟨hlength, -⟩ := Outcome.getElem_of_mapM h.covers.fingerprints
  rwa [List.length_reverse] at hlength

/-- Every key that was hashed can be written. -/
theorem Hashed.exists_keyBytes (h : Hashed settings dataSize (.ofEntries entries) scan hash) {entry : Entry κ ν}
    (hentry : entry ∈ entries) : ∃ bytes, settings.keyBytes entry.key = .ok bytes := by
  obtain ⟨f, -, hprint⟩ := Outcome.exists_of_mapM h.covers.fingerprints hentry
  obtain ⟨bytes, hbytes, -⟩ := Outcome.map_eq_ok.1 hprint
  exact ⟨bytes, hbytes⟩

end

/-- A build is planned exactly when it comes to write. -/
theorem plan_eq_ok {settings : Settings κ ν} {dataSize : Option Nat} {timestamp : Nat} {directory : Path}
    {source : Source κ ν} {p : BuildPlan κ ν} : plan settings dataSize timestamp directory source = .ok p ↔
      ∃ scan hash, Hashed settings dataSize source scan hash ∧
        p = match settings.resolved scan.fingerprints.length (dataSize.getD scan.dataSize) with
          | .error fault => ⟨preparing directory, .error fault⟩
          | .ok settings => planWriting settings hash (dataSize.getD scan.dataSize) scan.range timestamp directory
              source.later := by
  simp only [plan, Outcome.bind_eq_ok, Outcome.pure_eq_ok]
  constructor
  · rintro ⟨_, hvalid, scan, hscan, hash, hhash, rfl⟩
    exact ⟨scan, hash, ⟨validate_eq_ok hvalid, hscan, hashKeys_eq_ok hhash⟩, rfl⟩
  · rintro ⟨scan, hash, hhashed, rfl⟩
    have hvalid : settings.validate = .ok () := by rw [Settings.validate, hhashed.flaw_eq_none]
    exact ⟨(), hvalid, scan, hhashed.scanned, hash, hashKeys_of_build hhashed.built _, rfl⟩

/-- What a build that ended well consists of, and what it has done to the store. -/
theorem performed_of_run {store store' : FileStore} {settings : Settings κ ν} {dataSize : Option Nat} {timestamp : Nat}
    {directory : Path} {source : Source κ ν} {d : Descriptor κ ν}
    (h : run store settings dataSize timestamp directory source = (store', .ok d)) :
    ∃ scan hash settings' data sizes offsets keys, Hashed settings dataSize source scan hash ∧
      settings.resolved scan.fingerprints.length (dataSize.getD scan.dataSize) = .ok settings' ∧
      arrange settings' hash (dataSize.getD scan.dataSize) source.later = .ok (data, sizes) ∧
      planOffsets settings' (dataSize.getD scan.dataSize) sizes = .ok offsets ∧
      rangeBytes settings' scan.range = .ok keys ∧
      d = .new settings' hash offsets.select (dataSize.getD scan.dataSize) keys timestamp (.inDirectory directory) ∧
      store.performAll (preparing directory ++ writing (TablePaths.inDirectory directory).data data ++
        (offsets.file.map (writing (TablePaths.inDirectory directory).offsets)).getD [] ++ d.storing) = (store', .ok ()) := by
  unfold run at h
  cases hplan : plan settings dataSize timestamp directory source with
  | error fault =>
    rw [hplan] at h
    cases h
  | ok plan =>
    rw [hplan] at h
    obtain ⟨hperform, houtcome⟩ := carryOut_eq_ok h
    obtain ⟨scan, hash, hhashed, rfl⟩ := plan_eq_ok.1 hplan
    cases hresolved : settings.resolved scan.fingerprints.length (dataSize.getD scan.dataSize) with
    | error fault =>
      rw [hresolved] at houtcome
      cases houtcome
    | ok settings' =>
      rw [hresolved] at hperform houtcome
      obtain ⟨data, sizes, offsets, keys, harrange, hoffsets, hkeys, rfl, hoperations⟩ := planWriting_eq_ok houtcome
      rw [hoperations] at hperform
      exact ⟨scan, hash, settings', data, sizes, offsets, keys, hhashed, hresolved, harrange, hoffsets, hkeys, rfl, hperform⟩

/-- What a build that ended well consists of. -/
theorem parts_of_run {store store' : FileStore} {settings : Settings κ ν} {dataSize : Option Nat} {timestamp : Nat}
    {directory : Path} {source : Source κ ν} {d : Descriptor κ ν}
    (h : run store settings dataSize timestamp directory source = (store', .ok d)) :
    ∃ scan hash settings' data sizes offsets keys, Hashed settings dataSize source scan hash ∧
      settings.resolved scan.fingerprints.length (dataSize.getD scan.dataSize) = .ok settings' ∧
      arrange settings' hash (dataSize.getD scan.dataSize) source.later = .ok (data, sizes) ∧
      planOffsets settings' (dataSize.getD scan.dataSize) sizes = .ok offsets ∧
      rangeBytes settings' scan.range = .ok keys ∧
      d = .new settings' hash offsets.select (dataSize.getD scan.dataSize) keys timestamp (.inDirectory directory) ∧
      ∃ place, Filed store' directory place data offsets.file d.encode := by
  obtain ⟨scan, hash, settings', data, sizes, offsets, keys, hhashed, hresolved, harrange, hoffsets, hkeys, rfl, hperform⟩ :=
    performed_of_run h
  obtain ⟨place, hfiled⟩ := filed_of_performAll rfl hperform
  exact ⟨scan, hash, settings', data, sizes, offsets, keys, hhashed, hresolved, harrange, hoffsets, hkeys, rfl, place, hfiled⟩

/-- A build that ended well has come to write, and its second pass ended well. -/
theorem exists_arrange_of_run {store store' : FileStore} {settings : Settings κ ν} {dataSize : Option Nat} {timestamp : Nat}
    {directory : Path} {source : Source κ ν} {d : Descriptor κ ν}
    (h : run store settings dataSize timestamp directory source = (store', .ok d)) :
    ∃ scan hash storage arranged, Hashed settings dataSize source scan hash ∧
      arrange { settings with offsetStorage := storage } hash (dataSize.getD scan.dataSize) source.later = .ok arranged := by
  obtain ⟨scan, hash, settings', data, sizes, -, -, hhashed, hresolved, harrange, -⟩ := parts_of_run h
  obtain ⟨storage, rfl⟩ : ∃ storage, settings' = { settings with offsetStorage := storage } :=
    ⟨_, (resolved_eq_ok hhashed.flaw_eq_none hresolved).1⟩
  exact ⟨scan, hash, storage, (data, sizes), hhashed, harrange⟩

omit [Ord κ] [Spelled κ] [Spelled ν] in
/-- What was arranged and planned is written. -/
theorem Written.of_arranged {settings settings' : Settings κ ν} {hash : PerfectHash} {fingerprints : List Fingerprint}
    {count : Nat} {entries slots : List (Entry κ ν)} {records : List Bytes} {offsets : OffsetPlan}
    (hflaw : settings.flaw = none) (hbuild : PerfectHash.build fingerprints settings.signatureWidth = .ok hash)
    (hresolved : settings.resolved count (records.map List.length).sum = .ok settings')
    (harranged : Arranged settings' hash entries slots records)
    (hoffsets : planOffsets settings' (records.map List.length).sum (records.map List.length) = .ok offsets)
    (keys : Option (Bytes × Bytes)) (timestamp : Nat) (paths : TablePaths) :
    Written settings (.new settings' hash offsets.select (records.map List.length).sum keys timestamp paths)
      (records.map List.length) offsets.file := by
  obtain ⟨hsettings, hauto, hflat⟩ := resolved_eq_ok hflaw hresolved
  have hlength : records.length = hash.length := harranged.records_length.trans harranged.count_eq
  refine ⟨hflaw, hsettings, hauto, hflat, rfl, rfl, rfl, ⟨fingerprints, hbuild⟩, ?_, fun size hsize => ?_, hoffsets⟩
  · rw [List.length_map, hlength]
    rfl
  · obtain ⟨record, hrecord, rfl⟩ := List.mem_map.1 hsize
    obtain ⟨i, hi, rfl⟩ := List.getElem_of_mem hrecord
    exact (harranged.takes i (harranged.records_length ▸ hi) hi).size

/-- A build that ended well has written a table of the entries that its second pass has found. -/
theorem arranged_of_run {store store' : FileStore} {settings : Settings κ ν} {dataSize : Option Nat} {timestamp : Nat}
    {directory : Path} {source : Source κ ν} {d : Descriptor κ ν}
    (h : run store settings dataSize timestamp directory source = (store', .ok d)) :
    ∃ place data entries slots records file, source.later = entries.map .ok ∧
      Arranged d.settings d.hash entries slots records ∧ Written settings d (records.map List.length) file ∧
      Filed store' directory place data file d.encode ∧ d.paths = TablePaths.inDirectory directory := by
  obtain ⟨scan, hash, settings', data, sizes, offsets, keys, hhashed, hresolved, harrange, hoffsets, -, rfl, place, hfiled⟩ :=
    parts_of_run h
  obtain ⟨later, hlater⟩ := exists_entries_of_arrange harrange
  rw [hlater] at harrange
  obtain ⟨slots, records, harranged, -, rfl, hsum⟩ := sorted_of_arrange harrange
  rw [hsum] at hresolved hoffsets hfiled ⊢
  exact ⟨place, data, later, slots, records, offsets.file, hlater, harranged,
    .of_arranged hhashed.flaw_eq_none hhashed.built hresolved harranged hoffsets _ _ _, hfiled, rfl⟩

/-- A build that ended well has written a table, whatever its passes have found. -/
theorem written_of_run {store store' : FileStore} {settings : Settings κ ν} {dataSize : Option Nat} {timestamp : Nat}
    {directory : Path} {source : Source κ ν} {d : Descriptor κ ν}
    (h : run store settings dataSize timestamp directory source = (store', .ok d)) :
    ∃ place data sizes file, Written settings d sizes file ∧ Filed store' directory place data file d.encode ∧
      d.paths = TablePaths.inDirectory directory := by
  obtain ⟨place, data, -, -, records, file, -, -, hwritten, hfiled, hpaths⟩ := arranged_of_run h
  exact ⟨place, data, records.map List.length, file, hwritten, hfiled, hpaths⟩

/-- A build of the same entries on each pass that ended well has made a table of them, and the files of the table are there. -/
theorem made_of_run {store store' : FileStore} {settings : Settings κ ν} {dataSize : Option Nat} {timestamp : Nat}
    {directory : Path} {entries : List (Entry κ ν)} {d : Descriptor κ ν}
    (h : run store settings dataSize timestamp directory (.ofEntries entries) = (store', .ok d))
    (hcount : entries.length < 0x100000000) :
    ∃ place slots records file, Made settings entries d slots records file ∧
      Filed store' directory place records.flatten file d.encode ∧ d.paths = TablePaths.inDirectory directory := by
  obtain ⟨scan, hash, settings', data, sizes, offsets, keys, hhashed, hresolved, harrange, hoffsets, hkeys, rfl, place,
    hfiled⟩ := parts_of_run h
  have hbuckets : hash.length < 0x100000000 := by
    rw [hhashed.separates.length_eq, hhashed.length_fingerprints]
    exact hcount
  obtain ⟨slots, records, harranged, rfl, rfl, hsum⟩ := arranged_of_arrange harrange hbuckets
  have hbuilt := hhashed.built
  rw [hsum] at hresolved hoffsets hfiled ⊢
  refine ⟨place, slots, records, offsets.file, ?_, hfiled, rfl⟩
  exact {
    Written.of_arranged hhashed.flaw_eq_none hbuilt hresolved harranged hoffsets keys timestamp (.inDirectory directory) with
    hash := ⟨scan.fingerprints.reverse, hhashed.covers.fingerprints, by rw [List.reverse_reverse]; exact hbuilt⟩
    arranged := harranged
    range := by
      refine ⟨keys, ?_, rfl, rfl⟩
      obtain ⟨hsettings, -⟩ := resolved_eq_ok hhashed.flaw_eq_none hresolved
      have hsame : rangeBytes settings' = rangeBytes settings := by
        rw [hsettings]
        rfl
      rw [← hhashed.covers.range_eq, ← hsame]
      exact hkeys }

end

end FrozenTable.Build
