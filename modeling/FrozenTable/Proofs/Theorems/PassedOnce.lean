import FrozenTable.Proofs.Lemmas.Spooling
import FrozenTable.Proofs.Lemmas.Varying
import FrozenTable.Resident.Map

/-!
# Entries that can be passed over only once

Building from such entries ends well with the same table as building from entries that can be passed over again, as long as
every entry takes bytes in the temporary file between. Entries that take none are lost there: what is built is the table of all
the others, and no entry is missed, nor found to be there twice.
-/

namespace FrozenTable.Build

section

variable {κ ν : Type} {settings : Settings κ ν} {entries : List (Entry κ ν)}

/-- What is in a temporary file after entries were written to it. -/
theorem spool_eq_ok_iff {store : FileStore} {temporary : Path} (htemporary : store.needDirectory temporary = .ok ())
    {written : Spool} : spool store settings temporary entries = .ok written ↔
      settings.flaw = none ∧ ∃ pieces sizes, (∀ entry ∈ entries, settings.needValue entry = .ok ()) ∧
        entries.mapM (spoolEntry settings) = .ok pieces ∧ entries.mapM settings.recordSize = .ok sizes ∧
        written = ⟨pieces.flatten, sizes.sum⟩ := by
  have hlift : FileStore.lift (store.needDirectory temporary) = .ok () := by
    rw [htemporary]
    rfl
  simp only [spool, hlift, Outcome.bind_eq_ok, spoolAll_eq_ok, List.reverse_nil, List.flatten_nil, List.nil_append,
    Nat.zero_add]
  constructor
  · rintro ⟨_, hvalid, codec, hcodec, _, -, pieces, sizes, hspooled⟩
    exact ⟨validate_eq_ok hvalid, pieces, sizes, hspooled⟩
  · rintro ⟨hflaw, pieces, sizes, hspooled⟩
    obtain ⟨codec, hcodec⟩ : ∃ codec, settings.needKeyCodec = .ok codec := by
      unfold Settings.flaw at hflaw
      unfold Settings.needKeyCodec
      cases hcodec : settings.keyCodec with
      | none =>
        rw [hcodec] at hflaw
        exact nomatch hflaw
      | some codec => exact ⟨codec, rfl⟩
    have hvalid : settings.validate = .ok () := by rw [Settings.validate, hflaw]
    exact ⟨(), hvalid, codec, hcodec, (), trivial, pieces, sizes, hspooled⟩

variable [HashLibrary] [Ord κ] [Spelled κ] [Spelled ν]

/-- A build that ended well could have had its entries written to a temporary file. -/
theorem spoolable_of_run {store store' : FileStore} {dataSize : Option Nat} {timestamp : Nat} {directory : Path}
    {d : Descriptor κ ν} (h : run store settings dataSize timestamp directory (.ofEntries entries) = (store', .ok d)) :
    ∀ entry ∈ entries, Spoolable settings entry := by
  obtain ⟨scan, hash, storage, arranged, hhashed, harrange⟩ := exists_arrange_of_run h
  obtain ⟨records, hrecords, -⟩ := records_of_arrange harrange
  intro entry hentry
  obtain ⟨record, -, hrecord⟩ := Outcome.exists_of_mapM hrecords hentry
  have hrecord : settings.record entry = .ok record := hrecord
  obtain ⟨key, hkey⟩ := hhashed.exists_keyBytes hentry
  simp only [Settings.record_eq, Outcome.bind_eq_ok, Outcome.map_eq_ok] at hrecord
  obtain ⟨-, -, value, hvalue, -⟩ := hrecord
  refine ⟨hhashed.covers.value entry hentry, key ++ value, ?_⟩
  rw [spoolEntry_eq, hkey, Outcome.ok_bind, hvalue]
  rfl

/-- Building from entries that can be passed over once ends well exactly when all of them can be written and those that take
bytes are built well, with the size of all of them declared. -/
theorem runOnce_eq_ok_iff (hfaithful : settings.Faithful) {store store' : FileStore} {timestamp : Nat}
    {temporary directory : Path} (htemporary : store.needDirectory temporary = .ok ()) {d : Descriptor κ ν} :
    runOnce store settings timestamp temporary directory entries = (store', .ok d) ↔
      ∃ sizes, entries.mapM settings.recordSize = .ok sizes ∧ (∀ entry ∈ entries, Spoolable settings entry) ∧
        run store settings (some sizes.sum) timestamp directory (.ofEntries (entries.filter (takesBytes settings))) =
          (store', .ok d) := by
  have hsource {pieces : List Bytes} (dataSize : Nat) (hvalues : ∀ entry ∈ entries, settings.needValue entry = .ok ())
      (hpieces : entries.mapM (spoolEntry settings) = .ok pieces) :
      Spool.source settings ⟨pieces.flatten, dataSize⟩ =
        .ofEntries ((entries.filter (takesBytes settings)).map settings.trimmed) := by
    rw [Spool.source, unspool_flatten hfaithful hvalues hpieces (Nat.le_refl _)]
    rfl
  have htrimmed (dataSize : Nat) :
      run store settings (some dataSize) timestamp directory
          (.ofEntries ((entries.filter (takesBytes settings)).map settings.trimmed)) = (store', .ok d) ↔
        run store settings (some dataSize) timestamp directory (.ofEntries (entries.filter (takesBytes settings))) =
          (store', .ok d) :=
    run_eq_ok_of_plan fun _ => plan_trimmed
  rw [runOnce_eq_ok]
  constructor
  · rintro ⟨written, hspool, h⟩
    obtain ⟨-, pieces, sizes, hvalues, hpieces, hsizes, rfl⟩ := (spool_eq_ok_iff htemporary).1 hspool
    rw [hsource _ hvalues hpieces, htrimmed] at h
    refine ⟨sizes, hsizes, ?_, h⟩
    intro entry hentry
    obtain ⟨piece, -, hpiece⟩ := Outcome.exists_of_mapM hpieces hentry
    exact ⟨hvalues entry hentry, piece, hpiece⟩
  · rintro ⟨sizes, hsizes, hspoolable, h⟩
    obtain ⟨scan, hash, -, -, hhashed, -⟩ := exists_arrange_of_run h
    have hvalues : ∀ entry ∈ entries, settings.needValue entry = .ok () := fun entry hentry => (hspoolable entry hentry).value
    obtain ⟨pieces, hpieces⟩ : ∃ pieces, entries.mapM (spoolEntry settings) = .ok pieces :=
      Outcome.exists_mapM fun entry hentry => (hspoolable entry hentry).written
    have hspool := (spool_eq_ok_iff htemporary).2 ⟨hhashed.flaw_eq_none, pieces, sizes, hvalues, hpieces, hsizes, rfl⟩
    refine ⟨_, hspool, ?_⟩
    rw [hsource _ hvalues hpieces, htrimmed]
    exact h

/-- Building from entries that can be passed over only once ends well as building from the entries that take bytes does, if all
entries can be written, and then with the same table in the same store.

Where every entry takes bytes, whether a build ends well and what it leaves does not depend on whether its entries can be
passed over again. So a map made straight from entries is the one that is loaded from a table built of them. -/
theorem built_once_of_what_takes_bytes [DecidableEq κ] (hfaithful : settings.Faithful) {store : FileStore} (timestamp : Nat)
    {temporary : Path} (directory : Path) (htemporary : store.needDirectory temporary = .ok ()) :
    (∀ store' d, runOnce store settings timestamp temporary directory entries = (store', .ok d) ↔
      ∃ sizes, entries.mapM settings.recordSize = .ok sizes ∧ (∀ entry ∈ entries, Spoolable settings entry) ∧
        run store settings (some sizes.sum) timestamp directory (.ofEntries (entries.filter (takesBytes settings))) =
          (store', .ok d)) ∧
    ((∀ entry ∈ entries, spoolEntry settings entry ≠ .ok []) →
      (∀ store' d, runOnce store settings timestamp temporary directory entries = (store', .ok d) ↔
        run store settings none timestamp directory (.ofEntries entries) = (store', .ok d)) ∧
      ∀ (finder : CodecFinder κ ν) m, ResidentMap.ofEntries finder settings timestamp entries = .ok m ↔
        ∃ store' d, run (.rooted ResidentMap.workspace) settings none timestamp (ResidentMap.workspace ++ ["table"])
            (.ofEntries entries) = (store', .ok d) ∧
          ResidentMap.load finder store' (ResidentMap.workspace ++ ["table"]) = .ok m) := by
  have hall (hbytes : ∀ entry ∈ entries, spoolEntry settings entry ≠ .ok []) {store : FileStore} {temporary : Path}
      (directory : Path) (htemporary : store.needDirectory temporary = .ok ()) (store' : FileStore) (d : Descriptor κ ν) :
      runOnce store settings timestamp temporary directory entries = (store', .ok d) ↔
        run store settings none timestamp directory (.ofEntries entries) = (store', .ok d) := by
    have hfilter : entries.filter (takesBytes settings) = entries := by
      rw [List.filter_eq_self]
      intro entry hentry
      unfold takesBytes
      split
      · rename_i hnone
        exact absurd hnone (hbytes entry hentry)
      · rfl
    rw [runOnce_eq_ok_iff hfaithful htemporary, hfilter]
    constructor
    · rintro ⟨sizes, hsizes, -, h⟩
      exact (run_eq_ok_of_plan fun _ => plan_sized hsizes).1 h
    · intro h
      obtain ⟨scan, hash, -, -, hhashed, -⟩ := exists_arrange_of_run h
      obtain ⟨sizes, hsizes, -⟩ := Scan.dataSize_of_run hhashed.scanned
      exact ⟨sizes, hsizes, spoolable_of_run h, (run_eq_ok_of_plan fun _ => plan_sized hsizes).2 h⟩
  refine ⟨fun store' d => runOnce_eq_ok_iff hfaithful htemporary, fun hbytes => ⟨hall hbytes directory htemporary, ?_⟩⟩
  intro finder m
  have hworkspace : (FileStore.rooted ResidentMap.workspace).needDirectory ResidentMap.workspace = .ok () := rfl
  have honce := hall hbytes (ResidentMap.workspace ++ ["table"]) hworkspace
  simp only [ResidentMap.ofEntries]
  constructor
  · intro h
    split at h
    · exact nomatch h
    · rename_i store' d hrun
      exact ⟨store', d, (honce store' d).1 hrun, h⟩
  · rintro ⟨store', d, hrun, hload⟩
    rw [(honce store' d).2 hrun]
    exact hload

end

/-- A table of four entries of different sizes is built alike from entries that can be passed over only once. -/
theorem built_once_of_four : ∃ store d, ofFour (.varied .explicit .selected .equality) = (store, .ok d) ∧
    runOnce (.rooted ["work"]) (.varied .explicit .selected .equality) 0 ["work"] ["work", "table"] four = (store, .ok d) := by
  obtain ⟨store, d, hrun, -⟩ := ofFour_varied .explicit .selected .equality nofun
  have htemporary : (FileStore.rooted ["work"]).needDirectory ["work"] = .ok () := rfl
  have hbytes : ∀ entry ∈ four, spoolEntry (.varied .explicit .selected .equality) entry ≠ .ok [] := by
    intro entry hentry h
    fin_cases hentry <;> cases h
  obtain ⟨-, hall⟩ :=
    built_once_of_what_takes_bytes (Settings.faithful_varied .explicit .selected .equality) 0 ["work", "table"] htemporary
  exact ⟨store, d, hrun, ((hall hbytes).1 store d).2 hrun⟩

/-! ## Entries that take no bytes -/

theorem exists_of_count {κ ν : Type} {built : FileStore × Except Fault (Descriptor κ ν)} {count : Nat}
    (h : built.2.toOption.map Descriptor.count = some count) : ∃ store d, built = (store, .ok d) ∧ d.count = count := by
  obtain ⟨store, outcome⟩ := built
  cases outcome with
  | error fault => exact nomatch h
  | ok d => exact ⟨store, d, rfl, Option.some.inj h⟩

/-- Settings for keys that are written as no bytes, without values. -/
def units : Settings ItemType.unit.Carrier Int64 :=
  Settings.initial.changed [.keyCodec Codec.unit]

/-- An entry that takes no bytes is in the table if entries can be passed over again, and is lost if they cannot. When it is
there twice, it is refused in the one case, and found nothing wrong with in the other. -/
theorem lost_without_bytes :
    (∃ store d store' d',
      @run _ _ .single _ _ _ (.rooted ["work"]) units none 0 ["work", "table"] (.ofEntries [⟨(), none⟩]) = (store, .ok d) ∧
      @runOnce _ _ .single _ _ _ (.rooted ["work"]) units 0 ["work"] ["work", "table"] [⟨(), none⟩] = (store', .ok d') ∧
      d.count = 1 ∧ d'.count = 0) ∧
    ∃ store fault store' d,
      @run _ _ .single _ _ _ (.rooted ["work"]) units none 0 ["work", "table"] (.ofEntries [⟨(), none⟩, ⟨(), none⟩]) =
        (store, .error fault) ∧
      @runOnce _ _ .single _ _ _ (.rooted ["work"]) units 0 ["work"] ["work", "table"] [⟨(), none⟩, ⟨(), none⟩] =
        (store', .ok d) := by
  let _ : HashLibrary := .single
  have hone : (run (.rooted ["work"]) units none 0 ["work", "table"] (.ofEntries [⟨(), none⟩])).2.toOption.map
      Descriptor.count = some 1 := by decide +kernel
  have hlost : (runOnce (.rooted ["work"]) units 0 ["work"] ["work", "table"] [⟨(), none⟩]).2.toOption.map
      Descriptor.count = some 0 := by decide +kernel
  have hunseen : (runOnce (.rooted ["work"]) units 0 ["work"] ["work", "table"] [⟨(), none⟩, ⟨(), none⟩]).2.toOption.map
      Descriptor.count = some 0 := by decide +kernel
  obtain ⟨store, d, hrun, hcount⟩ := exists_of_count hone
  obtain ⟨store', d', honce, hcount'⟩ := exists_of_count hlost
  obtain ⟨store'', d'', honce', -⟩ := exists_of_count hunseen
  refine ⟨⟨store, d, store', d', hrun, honce, hcount, hcount'⟩, ?_⟩
  cases hrefused : run (.rooted ["work"]) units none 0 ["work", "table"] (.ofEntries [⟨(), none⟩, ⟨(), none⟩]) with
  | mk store outcome =>
    cases outcome with
    | ok d =>
      obtain ⟨scan, hash, -, -, hhashed, -⟩ := exists_arrange_of_run hrefused
      have hprints : [Fingerprint.ofBytes [], Fingerprint.ofBytes []] = scan.fingerprints.reverse :=
        Except.ok.inj hhashed.covers.fingerprints
      have hnodup := List.nodup_reverse.2 hhashed.separates.fingerprints_nodup
      rw [← hprints] at hnodup
      simp at hnodup
    | error fault => exact ⟨store, fault, store'', d'', rfl, honce'⟩

end FrozenTable.Build
