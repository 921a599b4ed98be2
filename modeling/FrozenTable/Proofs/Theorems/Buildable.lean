import FrozenTable.Proofs.Lemmas.Refusing
import FrozenTable.Proofs.Lemmas.Sizing
import FrozenTable.Proofs.Lemmas.Supporting

/-!
# A build succeeds exactly when it should

With codecs that tell the truth about their sizes, a build asks for no more than `Build.Buildable` says: settings without a
flaw, values where these are kept, keys with fingerprints of their own, records that are not too large, and a declared size that
is the true one. Every other end is a refusal of the input (`Build.Refused`), so how offsets are kept, and whether entries with
the same key are told in full, decide nothing.
-/

namespace FrozenTable.Build

section

variable {κ ν : Type}

/-- What a build asks of its settings, its entries and the size that is declared for its data. -/
structure Buildable (settings : Settings κ ν) (dataSize : Option Nat) (entries : List (Entry κ ν)) : Prop where
  flaw_eq_none : settings.flaw = none
  values : settings.hasValues = true → ∀ entry ∈ entries, entry.value.isSome = true
  distinct : ∃ fingerprints, entries.mapM (fun entry => settings.fingerprint entry.key) = .ok fingerprints ∧
    fingerprints.Nodup
  records : ∃ records, entries.mapM settings.record = .ok records ∧ (∀ record ∈ records, record.length < 0x100000000) ∧
    ∀ size, dataSize = some size → size = (records.map List.length).sum

/-- A codec fails for an entry. -/
def Unwritten (settings : Settings κ ν) (entry : Entry κ ν) (fault : Fault) : Prop :=
  settings.keyBytes entry.key = .error fault ∨ settings.recordSize entry = .error fault ∨ settings.record entry = .error fault

/-- Why a build is refused. -/
inductive Refused (settings : Settings κ ν) (dataSize : Option Nat) (entries : List (Entry κ ν)) (fault : Fault) : Prop where
  | flaw (flaw : SettingsFlaw) (hflaw : settings.flaw = some flaw) (hfault : fault = .badSettings flaw)
  | value (entry : Entry κ ν) (hentry : entry ∈ entries) (hvalues : settings.hasValues = true) (hnone : entry.value = none)
      (hfault : fault = .valueMissing)
  | codec (entry : Entry κ ν) (hentry : entry ∈ entries) (hfault : Unwritten settings entry fault)
  | duplicate (fingerprints : List Fingerprint)
      (hprints : entries.mapM (fun entry => settings.fingerprint entry.key) = .ok fingerprints) (hnodup : ¬ fingerprints.Nodup)
      (hkind : fault.kind = .invalidInput)
  | large (entry : Entry κ ν) (hentry : entry ∈ entries) (record : Bytes) (hrecord : settings.record entry = .ok record)
      (hlarge : 0x100000000 ≤ record.length) (hkind : fault.kind = .invalidInput)
  | size (size : Nat) (hsize : dataSize = some size) (records : List Bytes)
      (hrecords : entries.mapM settings.record = .ok records)
      (hdiffers : size ≠ (records.map List.length).sum)
      (hfault : fault = .dataSizeDiffers size (records.map List.length).sum)

/-- The sizes that a build works with are words, and so is what is left of them without the constants of the line: the sum of
the sizes that the codecs tell, and the size that is declared. -/
structure Reckonable (settings : Settings κ ν) (dataSize : Option Nat) (entries : List (Entry κ ν)) : Prop where
  total : ∀ sizes, entries.mapM settings.recordSize = .ok sizes → sizes.sum < 0x8000000000000000 ∧
    Word64.IsSigned (sizes.sum - settings.entryLine.constant * entries.length)
  declared : ∀ size, dataSize = some size →
    Word64.IsSigned (Word64.signed size - settings.entryLine.constant * entries.length)

variable {settings : Settings κ ν} {dataSize : Option Nat} {entries : List (Entry κ ν)}

/-- A refusal is one of the input, unless a codec has failed. -/
theorem Refused.kind {fault : Fault} (h : Refused settings dataSize entries fault) :
    fault.kind = .invalidInput ∨ ∃ entry ∈ entries, Unwritten settings entry fault := by
  cases h with
  | flaw _ _ hfault | value _ _ _ _ hfault | size _ _ _ _ _ hfault =>
    left
    rw [hfault]
    rfl
  | codec entry hentry hfault => exact .inr ⟨entry, hentry, hfault⟩
  | duplicate _ _ _ hkind | large _ _ _ _ _ hkind => exact .inl hkind

/-- What is refused is not what a build asks for. -/
theorem Refused.not_buildable (hexact : settings.Exact) {fault : Fault} (h : Refused settings dataSize entries fault) :
    ¬ Buildable settings dataSize entries := by
  rintro ⟨hflaw, hvalues, ⟨fingerprints, hprints, hnodup⟩, records, hrecords, hsmall, hsize⟩
  cases h with
  | flaw flaw hflaw' _ => cases hflaw.symm.trans hflaw'
  | value entry hentry hkeeps hnone _ =>
    have hsome := hvalues hkeeps entry hentry
    rw [hnone] at hsome
    cases hsome
  | codec entry hentry hfault =>
    obtain ⟨record, -, hrecord⟩ := Outcome.exists_of_mapM hrecords hentry
    rcases hfault with hkey | hsize | hfault
    · obtain ⟨f, -, hprint⟩ := Outcome.exists_of_mapM hprints hentry
      rw [Settings.fingerprint, hkey] at hprint
      cases hprint
    · cases (hexact.recordSize_eq_ok hrecord).symm.trans hsize
    · cases hrecord.symm.trans hfault
  | duplicate fingerprints' hprints' hnodup' _ =>
    cases hprints.symm.trans hprints'
    exact hnodup' hnodup
  | large entry hentry record hrecord hlarge _ =>
    obtain ⟨record', hmem, hrecord'⟩ := Outcome.exists_of_mapM hrecords hentry
    cases hrecord.symm.trans hrecord'
    exact Nat.not_lt.2 hlarge (hsmall record hmem)
  | size size hdeclared records' hrecords' hdiffers _ =>
    cases hrecords.symm.trans hrecords'
    exact hdiffers (hsize size hdeclared)

/-! ## Choosing how offsets are kept -/

/-- Dividing a word by a slope gives a word. -/
theorem isSigned_tdiv {x y : Int} (hx : Word64.IsSigned x) (hy : 0 < y) : Word64.IsSigned (x.tdiv y) := by
  unfold Word64.IsSigned at hx ⊢
  have habs := Int.natAbs_tdiv_le_natAbs x y
  rcases Int.le_total 0 x with hpos | hneg
  · have hle := Int.tdiv_le_self y hpos
    omega
  · have hle : 0 ≤ (-x).tdiv y := Int.tdiv_nonneg (by omega) (by omega)
    rw [Int.neg_tdiv] at hle
    omega

/-- A way to keep offsets is always found. -/
theorem exists_resolved (hrises : settings.entryLine.Rises) {count dataSize : Nat} (hcount : count < 0x100000000)
    (h : Word64.IsSigned (Word64.signed dataSize - settings.entryLine.constant * count)) :
    ∃ settings', settings.resolved count dataSize = .ok settings' := by
  have hdivisor : 0 < settings.entryLine.divisor := by
    have hnonneg := hrises.1
    unfold AffineSize.divisor
    split <;> omega
  have hword : Word64.IsSigned (settings.entryLine.solveNth (Word64.signed dataSize) (Word64.signed count)) := by
    rw [Word64.signed_of_lt (n := count) (by omega)]
    exact isSigned_tdiv h hdivisor
  have hcompress : ∃ number, settings.compress dataSize count = .ok number := by
    rw [Settings.compress, AffineSize.word?, if_pos hword]
    exact ⟨_, rfl⟩
  obtain ⟨number, hnumber⟩ := hcompress
  unfold Settings.resolved Settings.cheapest Settings.selectedCost
  rw [hnumber]
  split
  · split <;> exact ⟨_, rfl⟩
  · exact ⟨_, rfl⟩

/-- The records of a second pass are told by the line of records. -/
theorem carries_of_arranged {hash : PerfectHash} {slots : List (Entry κ ν)} {records : List Bytes} {storage : OffsetStorage}
    (hline : settings.entryLine = settings.keyLine.add settings.valueLine) (hexact : settings.Exact)
    (hcount : entries.length < 0x100000000)
    (h : Arranged { settings with offsetStorage := storage } hash entries slots records)
    (hsum : (records.map List.length).sum < 0x8000000000000000 ∧
      Word64.IsSigned ((records.map List.length).sum - settings.entryLine.constant * entries.length)) :
    settings.entryLine.Carries (records.map List.length) := by
  have hlength : (records.map List.length).length = entries.length := by
    rw [List.length_map, h.records_length, h.perm.length_eq]
  refine ⟨?_, ?_, by omega, hsum.1, ?_⟩
  · rw [hline]
    exact (hexact.rises_keyLine.add hexact.rises_valueLine).hasSlope
  · rw [List.forall_mem_map]
    intro record hrecord
    obtain ⟨i, hi, rfl⟩ := List.getElem_of_mem hrecord
    have htake := h.takes i (h.records_length ▸ hi) hi
    rw [hline]
    exact hexact.fits_record htake.value htake.record
  · rw [hlength]
    exact hsum.2.2

/-! ## What a build has found when it comes to write -/

section

variable [HashLibrary] [Ord κ] {scan : Scan κ} {hash : PerfectHash}

/-- The hash leads every entry to a bucket of its own. -/
theorem Hashed.seats (h : Hashed settings dataSize (.ofEntries entries) scan hash) (dataSize' shardSize : Nat) :
    Spread.Seats settings hash (.of hash.length dataSize' shardSize) entries (scan.fingerprints.reverse.map hash.place) := by
  have hs := h.separates
  have hwidth := signatureWidth_le h.flaw_eq_none
  refine ⟨?_, ?_, ?_⟩
  · have hprints := congrArg (List.map (· >>= hash.slot)) (Outcome.mapM_eq_ok.1 h.covers.fingerprints)
    rw [List.map_map, List.map_map] at hprints
    have hbytes (key : κ) : settings.keyBytes key >>= hash.slotOfBytes = settings.fingerprint key >>= hash.slot := by
      rw [Settings.fingerprint]
      cases settings.keyBytes key <;> rfl
    simp only [hbytes]
    rw [Outcome.mapM_eq_ok, List.map_map, List.map_map]
    refine hprints.trans (List.map_congr_left fun f hf => ?_)
    exact hs.slot_of_mem hwidth (List.mem_reverse.1 hf)
  · rw [List.map_reverse, List.nodup_reverse]
    exact hs.nodup
  · rw [List.forall_mem_map]
    intro f hf
    exact hs.place_lt f (List.mem_reverse.1 hf)

/-- The size that a build works with, where it comes to write. -/
theorem Hashed.isSigned (h : Hashed settings dataSize (.ofEntries entries) scan hash)
    (hreckon : Reckonable settings dataSize entries) :
    Word64.IsSigned (Word64.signed (dataSize.getD scan.dataSize) -
      settings.entryLine.constant * scan.fingerprints.length) := by
  rw [h.length_fingerprints]
  cases dataSize with
  | some size => exact hreckon.declared size rfl
  | none =>
    obtain ⟨sizes, hsizes, hsum⟩ := Scan.dataSize_of_run h.scanned
    obtain ⟨hlt, hsigned⟩ := hreckon.total sizes hsizes
    rw [Option.getD_none, hsum, Word64.signed_of_lt hlt]
    exact hsigned

variable [Spelled κ]

/-- A build that has come to write and fails is refused for what it was given. -/
theorem Hashed.refused (h : Hashed settings dataSize (.ofEntries entries) scan hash)
    (hline : settings.entryLine = settings.keyLine.add settings.valueLine) (hexact : settings.Exact)
    (hcount : entries.length < 0x100000000) (hreckon : Reckonable settings dataSize entries) {storage : OffsetStorage}
    {timestamp : Nat} {directory : Path} {fault : Fault}
    (hfault : (planWriting { settings with offsetStorage := storage } hash (dataSize.getD scan.dataSize) scan.range timestamp
      directory (entries.map .ok)).outcome = .error fault) : Refused settings dataSize entries fault := by
  have hs := h.separates
  have hlength : hash.length = entries.length := hs.length_eq.trans h.length_fingerprints
  have hseats := h.seats (dataSize.getD scan.dataSize) settings.shardSize
  unfold planWriting at hfault
  cases harrange : arrange { settings with offsetStorage := storage } hash (dataSize.getD scan.dataSize) (entries.map .ok) with
  | error fault' =>
    rw [harrange] at hfault
    cases hfault
    have hseats : Spread.Seats { settings with offsetStorage := storage } hash _ entries _ :=
      ⟨hseats.leads, hseats.nodup, hseats.bucket_lt⟩
    rcases fault_of_arrange (hlength ▸ hcount) hlength.symm hseats h.covers.value harrange with
      ⟨entry, hentry, hrecord | ⟨record, hrecord, hsize⟩⟩ | ⟨records, hrecords, hdiffers, rfl⟩
    · exact .codec entry hentry (.inr (.inr hrecord))
    · have hfits : { settings with offsetStorage := storage }.entryLine.fits record.length = true := by
        rw [hline]
        exact hexact.fits_record (h.covers.value entry hentry) hrecord
      obtain ⟨hlarge, hkind⟩ := Spread.le_of_checkSize_eq_error hfits hsize
      exact .large entry hentry record hrecord hlarge hkind
    · cases dataSize with
      | some size => exact .size size rfl records hrecords hdiffers rfl
      | none =>
        obtain ⟨sizes, hsizes, hsum⟩ := Scan.dataSize_of_run h.scanned
        cases (hexact.recordSizes_eq hrecords).symm.trans hsizes
        exact absurd hsum hdiffers
  | ok arranged =>
    obtain ⟨data, sizes⟩ := arranged
    obtain ⟨written, hwritten, -, hsum⟩ := records_of_arrange harrange
    obtain ⟨slots, records, harranged, -, rfl, hsum'⟩ := arranged_of_arrange harrange (hlength ▸ hcount)
    have htotal := hreckon.total _ (hexact.recordSizes_eq hwritten)
    rw [← hsum, hsum'] at htotal
    have hcarries := carries_of_arranged hline hexact hcount harranged htotal
    obtain ⟨offsets, hoffsets⟩ : ∃ offsets, planOffsets { settings with offsetStorage := storage } _ _ = .ok offsets :=
      exists_planOffsets fun _ => hcarries
    obtain ⟨keys, hrange⟩ :
        ∃ keys, rangeBytes { settings with offsetStorage := storage } (settings.rangeOf entries) = .ok keys :=
      exists_rangeBytes fun entry hentry => h.exists_keyBytes hentry
    rw [← h.covers.range_eq] at hrange
    rw [harrange] at hfault
    dsimp only at hfault
    rw [hsum', hoffsets] at hfault
    dsimp only at hfault
    rw [hrange] at hfault
    exact nomatch hfault

/-! ## Builds -/

variable [Spelled ν]

/-- A build that fails before it comes to write is refused for what it was given. -/
theorem refused_of_plan (hlibrary : HashLibrary.Resolves) {timestamp : Nat} {directory : Path} {fault : Fault}
    (h : plan settings dataSize timestamp directory (.ofEntries entries) = .error fault) :
    Refused settings dataSize entries fault := by
  simp only [plan, Outcome.bind_eq_error] at h
  rcases h with hvalid | ⟨_, -, hscan | ⟨scan, hscan, hhash | ⟨hash, -, hnone⟩⟩⟩
  · unfold Settings.validate at hvalid
    split at hvalid
    · rename_i flaw hflaw
      cases hvalid
      exact .flaw flaw hflaw rfl
    · cases hvalid
  · obtain ⟨entry, hentry, hvalue | hkey | hsize⟩ := Scan.fault_of_run hscan
    · unfold Settings.needValue at hvalue
      split at hvalue
      · rename_i hmissing
        cases hvalue
        exact .value entry hentry hmissing.1 (Option.isNone_iff_eq_none.1 hmissing.2) rfl
      · cases hvalue
    · exact .codec entry hentry (.inl hkey)
    · cases dataSize with
      | none => exact .codec entry hentry (.inr (.inl hsize))
      | some size => cases hsize
  · rcases fault_of_hashKeys hhash with ⟨entry, hentry, hkey⟩ | ⟨hkind, hunbuilt⟩
    · exact .codec entry hentry (.inl hkey)
    · refine .duplicate scan.fingerprints.reverse (Scan.covers_of_run hscan).fingerprints ?_ hkind
      rw [List.nodup_reverse, ← PerfectHash.build_eq_ok_iff hlibrary, not_exists]
      exact hunbuilt
  · cases hnone

/-- In a directory that accepts a table, a build that fails is refused for what it was given. -/
theorem refused_of_run (hlibrary : HashLibrary.Resolves) (hline : settings.entryLine = settings.keyLine.add settings.valueLine)
    (hexact : settings.Exact) (hcount : entries.length < 0x100000000) (hreckon : Reckonable settings dataSize entries)
    {store store' : FileStore} {timestamp : Nat} {directory : Path} (haccepts : store.Accepts directory) {fault : Fault}
    (h : run store settings dataSize timestamp directory (.ofEntries entries) = (store', .error fault)) :
    Refused settings dataSize entries fault := by
  unfold run at h
  cases hplan : plan settings dataSize timestamp directory (.ofEntries entries) with
  | error fault' =>
    rw [hplan] at h
    cases h
    exact refused_of_plan hlibrary hplan
  | ok p =>
    obtain ⟨carried, hperform⟩ := unhindered_of_accepts haccepts settings dataSize timestamp (.ofEntries entries) p hplan
    rw [hplan] at h
    dsimp only at h
    rw [carryOut, hperform, Prod.mk.injEq] at h
    obtain ⟨-, houtcome⟩ := h
    obtain ⟨scan, hash, hhashed, rfl⟩ := plan_eq_ok.1 hplan
    have hrises : settings.entryLine.Rises := by
      rw [hline]
      exact hexact.rises_keyLine.add hexact.rises_valueLine
    obtain ⟨settings', hresolved⟩ := exists_resolved hrises (hhashed.length_fingerprints ▸ hcount) (hhashed.isSigned hreckon)
    obtain ⟨storage, rfl⟩ : ∃ storage, settings' = { settings with offsetStorage := storage } :=
      ⟨_, (resolved_eq_ok hhashed.flaw_eq_none hresolved).1⟩
    rw [hresolved] at houtcome
    exact hhashed.refused hline hexact hcount hreckon houtcome

/-- A build that ended well was given what it asks for. -/
theorem buildable_of_run {store store' : FileStore} {timestamp : Nat} {directory : Path} {d : Descriptor κ ν}
    (h : run store settings dataSize timestamp directory (.ofEntries entries) = (store', .ok d)) :
    Buildable settings dataSize entries := by
  obtain ⟨scan, hash, storage, arranged, hhashed, harrange⟩ := exists_arrange_of_run h
  have hcovers := hhashed.covers
  obtain ⟨records, hrecords, hsmall, hsum⟩ := records_of_arrange harrange
  refine ⟨hhashed.flaw_eq_none, ?_, ?_, records, hrecords, hsmall, ?_⟩
  · intro hvalues entry hentry
    exact Settings.value_isSome_of_needValue (hcovers.value entry hentry) hvalues
  · exact ⟨_, hcovers.fingerprints, List.nodup_reverse.2 hhashed.separates.fingerprints_nodup⟩
  · rintro size rfl
    exact hsum

/-- A build ends well exactly when it is given what it asks for. -/
theorem run_eq_ok_iff (hlibrary : HashLibrary.Resolves) (hline : settings.entryLine = settings.keyLine.add settings.valueLine)
    (hexact : settings.Exact) (hcount : entries.length < 0x100000000) (hreckon : Reckonable settings dataSize entries)
    {store : FileStore} {directory : Path} (haccepts : store.Accepts directory) (timestamp : Nat) :
    (∃ store' d, run store settings dataSize timestamp directory (.ofEntries entries) = (store', .ok d)) ↔
      Buildable settings dataSize entries := by
  constructor
  · rintro ⟨store', d, h⟩
    exact buildable_of_run h
  · intro hbuildable
    cases h : run store settings dataSize timestamp directory (.ofEntries entries) with
    | mk store' outcome =>
      cases outcome with
      | ok d => exact ⟨store', d, rfl⟩
      | error fault =>
        have hrefused := refused_of_run hlibrary hline hexact hcount hreckon haccepts h
        exact absurd hbuildable (hrefused.not_buildable hexact)

/-! ## What decides nothing -/

omit [HashLibrary] [Ord κ] [Spelled κ] [Spelled ν] in
/-- Settings without a flaw have none with another way to keep offsets, if that is open to them. -/
theorem flaw_with (hflaw : settings.flaw = none) {storage : OffsetStorage}
    (hflat : storage = .fixed → settings.entryLine.isConstant = true) :
    { settings with offsetStorage := storage }.flaw = none := by
  have hfixed : ¬ (storage = .fixed ∧ ¬ settings.entryLine.isConstant = true) := by
    rintro ⟨hfixed, hsloped⟩
    exact hsloped (hflat hfixed)
  unfold Settings.flaw at hflaw ⊢
  split at hflaw
  · exact nomatch hflaw
  split at hflaw
  · exact nomatch hflaw
  · rename_i hcodec _
    rw [if_neg hcodec, if_neg hfixed]
    exact hflaw

omit [HashLibrary] [Ord κ] [Spelled κ] [Spelled ν] in
/-- The way to keep offsets that is chosen where it is left open has no flaw of its own, and it takes the sizes of all records
that are not too large. -/
theorem checks_of_resolved (hline : settings.entryLine = settings.keyLine.add settings.valueLine) (hexact : settings.Exact)
    (hflaw : settings.flaw = none) {settings' : Settings κ ν} {count size : Nat}
    (h : settings.resolved count size = .ok settings') :
    settings'.flaw = none ∧ ∀ entry record, settings.needValue entry = .ok () → settings.record entry = .ok record →
      record.length < 0x100000000 → Spread.checkSize settings' record.length = .ok () := by
  obtain ⟨hsettings, -, hflat⟩ := resolved_eq_ok hflaw h
  constructor
  · rw [hsettings] at hflat ⊢
    exact flaw_with hflaw hflat
  · intro entry record hneed hrecord hsmall
    have hfits : settings'.entryLine.fits record.length = true := by
      rw [hsettings, hline]
      exact hexact.fits_record hneed hrecord
    cases hcheck : Spread.checkSize settings' record.length with
    | ok _ => rfl
    | error fault => exact absurd hsmall (Nat.not_lt.2 (Spread.le_of_checkSize_eq_error hfits hcheck).1)

omit [HashLibrary] [Ord κ] [Spelled κ] [Spelled ν] in
/-- What can be built with some way to keep offsets can be built with the way left open. -/
theorem Buildable.automatic (h : Buildable settings dataSize entries) :
    Buildable (settings.change (.offsetStorage .automatic)) dataSize entries := by
  exact ⟨flaw_with h.flaw_eq_none nofun, h.values, h.distinct, h.records⟩

omit [HashLibrary] [Ord κ] [Spelled κ] [Spelled ν] in
/-- Entries of a build that ends well have keys of their own. -/
theorem Buildable.keys_nodup (h : Buildable settings dataSize entries) : (entries.map (·.key)).Nodup := by
  obtain ⟨fingerprints, hprints, hnodup⟩ := h.distinct
  have hmap : (entries.map (·.key)).map settings.fingerprint = fingerprints.map .ok := by
    rw [List.map_map]
    exact Outcome.mapM_eq_ok.1 hprints
  refine List.Nodup.of_map settings.fingerprint ?_
  rw [hmap]
  exact hnodup.map fun f g hfg => Except.ok.inj hfg

/-- A build ends well exactly when its settings have no flaw, every entry has a value where values are kept, the fingerprints of
the keys are distinct, every record can be written and is not too large, and the size of the data, if it is declared, is that of
the records. All other builds are refused, with a fault of the input unless a codec has failed for an entry.

So entries with one key are always refused. Where the way to keep offsets is left open, the one that is chosen takes every
record, so a build that ends well with some way also does so then. Telling entries with the same key in full changes nothing
about how a build ends. -/
theorem succeeds_exactly_when_buildable (hlibrary : HashLibrary.Resolves)
    (hchanges : ∃ changes, settings = Settings.initial.changed changes) (hexact : settings.Exact)
    (hcount : entries.length < 0x100000000) (hreckon : Reckonable settings dataSize entries) {store : FileStore}
    {directory : Path} (haccepts : store.Accepts directory) (timestamp : Nat) :
    ((∃ store' d, run store settings dataSize timestamp directory (.ofEntries entries) = (store', .ok d)) ↔
      Buildable settings dataSize entries) ∧
    (∀ store' fault, run store settings dataSize timestamp directory (.ofEntries entries) = (store', .error fault) →
      Refused settings dataSize entries fault ∧
        (fault.kind = .invalidInput ∨ ∃ entry ∈ entries, Unwritten settings entry fault)) ∧
    (¬ (entries.map (·.key)).Nodup →
      ∃ store' fault, run store settings dataSize timestamp directory (.ofEntries entries) = (store', .error fault)) ∧
    (∀ settings' count size, (settings.change (.offsetStorage .automatic)).flaw = none →
      (settings.change (.offsetStorage .automatic)).resolved count size = .ok settings' →
      settings'.flaw = none ∧ ∀ entry record, settings.needValue entry = .ok () → settings.record entry = .ok record →
        record.length < 0x100000000 → Spread.checkSize settings' record.length = .ok ()) ∧
    ((∃ store' d, run store settings dataSize timestamp directory (.ofEntries entries) = (store', .ok d)) →
      ∃ store' d, run store (settings.change (.offsetStorage .automatic)) dataSize timestamp directory (.ofEntries entries) =
        (store', .ok d)) ∧
    ∀ on, (∃ store' d, run store (settings.change (.describeDuplicates on)) dataSize timestamp directory
        (.ofEntries entries) = (store', .ok d)) ↔
      ∃ store' d, run store settings dataSize timestamp directory (.ofEntries entries) = (store', .ok d) := by
  have hline : settings.entryLine = settings.keyLine.add settings.valueLine := by
    obtain ⟨changes, rfl⟩ := hchanges
    exact Settings.entryLine_changed changes
  have hiff := run_eq_ok_iff hlibrary hline hexact hcount hreckon haccepts timestamp
  have hchanged (change : Settings.Change κ ν) (hexact' : (settings.change change).Exact)
      (hreckon' : Reckonable (settings.change change) dataSize entries) :=
    run_eq_ok_iff hlibrary (Settings.entryLine_change hline change) hexact' hcount hreckon' haccepts timestamp
  refine ⟨hiff, ?_, ?_, ?_, ?_, ?_⟩
  · intro store' fault h
    have hrefused := refused_of_run hlibrary hline hexact hcount hreckon haccepts h
    exact ⟨hrefused, hrefused.kind⟩
  · intro hrepeated
    cases h : run store settings dataSize timestamp directory (.ofEntries entries) with
    | mk store' outcome =>
      cases outcome with
      | ok d => exact absurd (buildable_of_run h).keys_nodup hrepeated
      | error fault => exact ⟨store', fault, rfl⟩
  · intro settings' count size hflaw hresolved
    exact checks_of_resolved (Settings.entryLine_change hline (.offsetStorage .automatic)) ⟨hexact.key, hexact.value⟩ hflaw
      hresolved
  · intro h
    exact (hchanged (.offsetStorage .automatic) ⟨hexact.key, hexact.value⟩ ⟨hreckon.total, hreckon.declared⟩).2
      (hiff.1 h).automatic
  · intro on
    rw [hiff, hchanged (.describeDuplicates on) ⟨hexact.key, hexact.value⟩ ⟨hreckon.total, hreckon.declared⟩]
    constructor
    · exact fun h => ⟨h.flaw_eq_none, h.values, h.distinct, h.records⟩
    · exact fun h => ⟨h.flaw_eq_none, h.values, h.distinct, h.records⟩

end

end

/-- Two entries of signed words are built with a size that is declared rightly, and refused with one that is not. -/
theorem builds_two_with_declared_size : ∃ store d store' fault,
    @run _ _ HashFunction.byOrder _ _ _ (.rooted ["work"]) (.longs .explicit .automatic) (some 32) 0 ["work", "table"]
      (.ofEntries [⟨7, some 5⟩, ⟨8, some 6⟩]) = (store, .ok d) ∧
    @run _ _ HashFunction.byOrder _ _ _ (.rooted ["work"]) (.longs .explicit .automatic) (some 31) 0 ["work", "table"]
      (.ofEntries [⟨7, some 5⟩, ⟨8, some 6⟩]) = (store', .error fault) ∧ fault.kind = .invalidInput := by
  have hexact : (Settings.longs .explicit .automatic).Exact := by
    constructor
    all_goals
      rintro codec h
      cases h
      exact Codec.exact_long
  have hreckon (size : Nat) (hsize : size = 32 ∨ size = 31) :
      Reckonable (.longs .explicit .automatic) (some size) [⟨7, some 5⟩, ⟨8, some 6⟩] := by
    constructor
    · intro sizes h
      cases h
      decide
    · intro size' h
      cases h
      rcases hsize with rfl | rfl <;> decide
  have haccepts : (FileStore.rooted ["work"]).Accepts ["work", "table"] := by decide +kernel
  have hends (size : Nat) (hsize : size = 32 ∨ size = 31) :=
    succeeds_exactly_when_buildable HashFunction.resolves_byOrder ⟨_, rfl⟩ hexact (by decide) (hreckon size hsize) haccepts 0
  have hrecords : [⟨7, some 5⟩, ⟨8, some 6⟩].mapM (Settings.longs .explicit .automatic).record =
      .ok [Codec.longBytes 7 ++ Codec.longBytes 5, Codec.longBytes 8 ++ Codec.longBytes 6] := rfl
  have hbuildable : Buildable (.longs .explicit .automatic) (some 32) [⟨7, some 5⟩, ⟨8, some 6⟩] := by
    refine ⟨rfl, by decide, ⟨[.ofBytes (Codec.longBytes 7), .ofBytes (Codec.longBytes 8)], rfl, by decide +kernel⟩, _, hrecords,
      by decide, ?_⟩
    rintro size h
    cases h
    decide
  obtain ⟨store, d, hrun⟩ := (hends 32 (.inl rfl)).1.2 hbuildable
  obtain ⟨hiff, hrefused, -⟩ := hends 31 (.inr rfl)
  have hunbuildable : ¬ Buildable (.longs .explicit .automatic) (some 31) [⟨7, some 5⟩, ⟨8, some 6⟩] := by
    rintro ⟨-, -, -, records, hrecords', -, hsize⟩
    cases hrecords.symm.trans hrecords'
    exact absurd (hsize 31 rfl) (by decide)
  cases hrun' : @run _ _ HashFunction.byOrder _ _ _ (.rooted ["work"]) (.longs .explicit .automatic) (some 31) 0
      ["work", "table"] (.ofEntries [⟨7, some 5⟩, ⟨8, some 6⟩]) with
  | mk store' outcome =>
    cases outcome with
    | ok d' => exact absurd (hiff.1 ⟨store', d', hrun'⟩) hunbuildable
    | error fault =>
      refine ⟨store, d, store', fault, hrun, rfl, ?_⟩
      obtain ⟨-, hkind | ⟨entry, hentry, hunwritten⟩⟩ := hrefused store' fault hrun'
      · exact hkind
      · simp only [List.mem_cons, List.not_mem_nil, or_false] at hentry
        rcases hentry with rfl | rfl <;> rcases hunwritten with h | h | h <;> cases h

end FrozenTable.Build
