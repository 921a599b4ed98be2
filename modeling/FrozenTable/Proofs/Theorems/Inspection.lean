import FrozenTable.Lookup.Audit
import FrozenTable.Lookup.Layout
import FrozenTable.Proofs.Lemmas.Resolving
import FrozenTable.Proofs.Lemmas.Serving
import FrozenTable.Proofs.Theorems.Enumeration

/-!
# What an inspection finds

A table can be looked at from outside in three ways. Its layout shows where its records stand in its files: one behind the other,
in the order of buckets, without gaps. An audit compares its answers with entries: of those that it was built from every one is
found, with its value where values are kept. The two need nothing of each other: the layout is a matter of offsets alone, and an
audit asks the table as anyone would. A sorted listing, at last, is what tables of the same entries have in common, wherever
each of them keeps its entries.
-/

namespace FrozenTable

variable {κ ν : Type}

/-! ## Layout -/

/-- From the start of a record to the start of the next stand its bytes. -/
theorem Region.cut_eq {data : Region} {records : List Bytes} (hdata : data.bytes = records.flatten) {i : Nat}
    (hi : i < records.length) :
    ((data.from? (startOf (records.map List.length) i)).getD []).take
      (startOf (records.map List.length) (i + 1) - startOf (records.map List.length) i) = records[i] := by
  have hstart : startOf (records.map List.length) i ≤ data.bytes.length := by
    rw [hdata, List.length_flatten]
    exact startOf_le_sum _ i
  rw [Region.from?_eq, if_pos hstart, Option.getD_some, startOf_succ (by rwa [List.length_map]), List.getElem_map,
    Nat.add_sub_cancel_left, hdata]
  exact Spread.take_drop_flatten records hi

/-- Starts that are found cut the data into its records. -/
theorem Descriptor.records_eq {d : Descriptor κ ν} {records : List Bytes} {data : Region} {offsets : Option Region}
    {select : Option SelectIndex} (hdata : data.bytes = records.flatten) (hlength : records.length = d.count)
    (hleads : d.Leads (records.map List.length) offsets select) :
    d.records data offsets select =
      .ok (((List.range d.count).map (startOf (records.map List.length))).zip records) := by
  have hstarts : (List.range d.count).mapM (fun bucket => d.offsetOf bucket offsets select) =
      .ok ((List.range d.count).map (startOf (records.map List.length))) := by
    refine Outcome.mapM_ok fun bucket hbucket => hleads bucket ?_
    rw [List.length_map, hlength]
    exact List.mem_range.1 hbucket
  have hsize : data.size = startOf (records.map List.length) d.count := by
    rw [Region.size_eq, hdata, List.length_flatten, ← hlength, ← List.length_map (f := List.length), startOf_length]
  -- a record stops where the next one starts, and the last one at the end of the data
  have hstop (i : Nat) (hi : i < d.count) : (((List.range d.count).map (startOf (records.map List.length))).drop 1 ++
      [data.size])[i]? = some (startOf (records.map List.length) (i + 1)) := by
    rcases Nat.lt_or_ge (i + 1) d.count with hnext | hlast
    · rw [List.getElem?_append_left (by simp; omega), List.getElem?_drop, Nat.add_comm 1 i, List.getElem?_map,
        List.getElem?_range hnext, Option.map_some]
    · obtain rfl : i = d.count - 1 := by omega
      rw [List.getElem?_append_right (by simp), hsize]
      simp [Nat.sub_add_cancel (Nat.lt_of_le_of_lt (Nat.zero_le _) hi)]
  unfold Descriptor.records
  rw [hstarts, Outcome.ok_bind, Outcome.pure_eq_ok]
  refine List.ext_getElem (by simp [hlength]; omega) fun i hi hi' => ?_
  have hrecord : i < records.length := by
    rw [List.length_zip] at hi'
    omega
  simp only [List.getElem_map, List.getElem_zip, List.getElem_range]
  rw [(List.getElem_eq_iff _).2 (hstop i (hlength ▸ hrecord)), Region.cut_eq hdata hrecord]

/-- The files of a table show its records, each at its start, as long as its offsets lead to the starts. -/
theorem Filed.loadRecords_eq {d : Descriptor κ ν} {records : List Bytes} {file : Option Bytes} {store : FileStore}
    {directory place : Path} (h : Filed store directory place records.flatten file d.encode)
    (hfile : file.isSome = d.needsOffsetsFile) (hpaths : d.paths = TablePaths.inDirectory directory)
    (hlength : records.length = d.count)
    (harranged : ∀ offsets : Option Region, offsets.map Region.bytes = file →
      ∃ o s, Table.arrangeOffsets d offsets = .ok (o, s) ∧ d.Leads (records.map List.length) o s) :
    d.loadRecords store = .ok (((List.range d.count).map (startOf (records.map List.length))).zip records) := by
  obtain ⟨_, hdata⟩ := h.data
  obtain ⟨data, hopen, hbytes⟩ := h.leads.openFile_child plain_dataName hdata false
  have hdataPath : d.paths.data = directory.child TablePaths.dataName := by rw [hpaths]; rfl
  have hoffsetsPath : d.paths.offsets = directory.child TablePaths.offsetsName := by rw [hpaths]; rfl
  simp only [Descriptor.loadRecords, hdataPath, hoffsetsPath, hopen, FileStore.lift_ok, Outcome.ok_bind]
  cases file with
  | none =>
    obtain ⟨o, s, harrange, hleads⟩ := harranged none rfl
    cases Table.arrangeOffsets_eq_ok.1 harrange with
    | absent hneeds =>
      rw [hneeds, if_neg Bool.false_ne_true]
      exact Descriptor.records_eq hbytes hlength hleads
  | some bytes =>
    obtain ⟨_, hoffsets⟩ := h.offsets bytes rfl
    obtain ⟨r, hopen', hbytes'⟩ := h.leads.openFile_child plain_offsetsName hoffsets false
    obtain ⟨o, s, harrange, hleads⟩ := harranged (some r) (congrArg some hbytes')
    simp only [← hfile, Option.isSome_some, if_true, hopen', FileStore.lift_ok, Outcome.ok_bind]
    cases Table.arrangeOffsets_eq_ok.1 harrange with
    | plain _ hstorage _ =>
      rw [hstorage, if_neg nofun]
      exact Descriptor.records_eq hbytes hlength hleads
    | words _ bits hstorage _ hbits _ =>
      rw [if_pos hstorage, hbits]
      exact Descriptor.records_eq hbytes hlength hleads

/-- The layout of a table whose build ended well: the records of its entries, in the order of buckets, each at the sum of the
sizes of those in front of it. -/
theorem Build.layout_of_run [HashLibrary] [Ord κ] [Spelled κ] [Spelled ν] {store store' : FileStore}
    {settings : Settings κ ν} {dataSize : Option Nat} {timestamp : Nat} {directory : Path} {entries : List (Entry κ ν)}
    {d : Descriptor κ ν}
    (hrun : run store settings dataSize timestamp directory (.ofEntries entries) = (store', .ok d))
    (hcount : entries.length < 0x100000000) (hsupported : d.Supported) :
    ∃ slots records, Arranged d.settings d.hash entries slots records ∧
      d.loadRecords store' = .ok (((List.range d.count).map (startOf (records.map List.length))).zip records) := by
  obtain ⟨place, slots, records, file, hmade, hfiled, hpaths⟩ := made_of_run hrun hcount
  refine ⟨slots, records, hmade.arranged, hfiled.loadRecords_eq hmade.isSome_file hpaths hmade.records_length ?_⟩
  exact fun offsets hoffsets => hmade.arrangeOffsets_eq (hmade.words hcount) hsupported hoffsets

/-! ## Audits -/

namespace Audit

variable [Ord κ] [DecidableEq ν] {t : Table κ ν} {value : Entry κ ν → Option ν}

/-- What an audit counts of entries whose keys are all contained, with these values. -/
def finding (value : Entry κ ν → Option ν) (a : Audit) (entries : List (Entry κ ν)) : Audit where
  absent := a.absent + entries.countP fun entry => (value entry).isNone
  equal := a.equal + entries.countP fun entry => (value entry).isSome && decide (entry.value = value entry)
  other := a.other + entries.countP fun entry => (value entry).isSome && decide (entry.value ≠ value entry)
  failed := a.failed
  contained := a.contained + entries.length

omit [Ord κ] in
/-- What is counted of entries that come one after the other is counted one after the other. -/
theorem finding_append (value : Entry κ ν → Option ν) (a : Audit) (entries more : List (Entry κ ν)) :
    finding value a (entries ++ more) = finding value (finding value a entries) more := by
  simp only [finding, List.countP_append, List.length_append, Nat.add_assoc]

/-- A lookup that is audited moves the tally of the table, and nothing else. -/
theorem step_tallied (s : Tally) (a : Audit) {entry : Entry κ ν} (hget : (t.get entry.key).2 = .ok (value entry))
    (hcontains : (t.contains entry.key).2 = .ok true) :
    ∃ s', step (t.tallied s) a entry = (t.tallied s', .ok (finding value a [entry])) := by
  have hgot : (t.tallied s).get entry.key = (t.tallied (s.plus (t.shares [entry.key])), .ok (value entry)) :=
    Prod.ext (t.counted_tallied s entry.key) hget
  have hopen : Request.contains entry.key ≠ .close := nofun
  have hasked : Request.contains entry.key ≠ .stats := nofun
  have hcontained (s : Tally) : ∃ s', (t.tallied s).contains entry.key = (t.tallied s', .ok true) :=
    ⟨_, Prod.ext (t.serve_tallied s hopen) ((Reply.contained.inj (t.reply_tallied s hasked)).trans hcontains)⟩
  obtain ⟨s', hcontained⟩ := hcontained (s.plus (t.shares [entry.key]))
  refine ⟨s', ?_⟩
  unfold step
  rw [hgot]
  cases hvalue : value entry with
  | none => simp [countValue, countKey, finding, hcontained, hvalue]
  | some x =>
    by_cases hsame : entry.value = some x
    · simp [countValue, countKey, finding, hcontained, hvalue, hsame]
    · simp [countValue, countKey, finding, hcontained, hvalue, hsame]

/-- An audit counts the answers of the table, one after the other. -/
theorem runFrom_tallied (s : Tally) (a : Audit) {entries : List (Entry κ ν)}
    (hget : ∀ entry ∈ entries, (t.get entry.key).2 = .ok (value entry))
    (hcontains : ∀ entry ∈ entries, (t.contains entry.key).2 = .ok true) :
    ∃ s', runFrom (t.tallied s) a entries = (t.tallied s', .ok (finding value a entries)) := by
  induction entries generalizing s a with
  | nil => exact ⟨s, rfl⟩
  | cons entry entries ih =>
    obtain ⟨s', hstep⟩ := step_tallied s a (hget entry List.mem_cons_self) (hcontains entry List.mem_cons_self)
    obtain ⟨s'', hrun⟩ := ih s' (finding value a [entry]) (fun e he => hget e (List.mem_cons_of_mem _ he))
      (fun e he => hcontains e (List.mem_cons_of_mem _ he))
    refine ⟨s'', ?_⟩
    rw [runFrom, hstep]
    dsimp only
    rw [hrun, ← finding_append, List.singleton_append]

end Audit

/-- An audit of a table against the entries that it was built from finds every key, with its value where values are kept, and
meets no fault. -/
theorem Build.audit_of_run [HashLibrary] [Ord κ] [DecidableEq κ] [DecidableEq ν] [Spelled κ] [Spelled ν] [Std.TransOrd κ]
    {finder : CodecFinder κ ν} {store store' : FileStore} {settings : Settings κ ν} {dataSize : Option Nat}
    {timestamp : Nat} {directory : Path} {entries : List (Entry κ ν)} {d : Descriptor κ ν}
    (hfaithful : settings.Faithful) (hcount : entries.length < 0x100000000)
    (hrun : run store settings dataSize timestamp directory (.ofEntries entries) = (store', .ok d))
    (hlibrary : HashLibrary.Restores) (hknown : finder.Knows settings) (hbounded : settings.Bounded)
    (hsupported : d.Supported) (opening : Opening) :
    ∃ t, opening.open finder store' directory = .ok t ∧ (Audit.run t entries).2 =
      .ok { Audit.zero with
        absent := if settings.hasValues then 0 else entries.length
        equal := if settings.hasValues then entries.length else 0
        contained := entries.length } := by
  obtain ⟨slots, records, file, storage, hmade, hserves, hopen⟩ :=
    opened_of_run hfaithful hcount hrun hlibrary hknown hbounded hsupported opening
  refine ⟨_, hopen, ?_⟩
  have hget (entry : Entry κ ν) (hentry : entry ∈ entries) :
      ((Table.fresh d storage (settings.rangeOf entries)).get entry.key).2 = .ok (settings.stored entry).2 := by
    rw [Table.get_snd, hmade.find_of_mem hfaithful hserves hentry]
    rfl
  obtain ⟨_, haudit⟩ := Audit.runFrom_tallied .zero .zero hget fun entry hentry =>
    hmade.contains_of_mem hfaithful hserves hentry
  have hfinding : (Audit.run (Table.fresh d storage (settings.rangeOf entries)) entries).2 =
      .ok (Audit.finding (fun entry => (settings.stored entry).2) .zero entries) := congrArg Prod.snd haudit
  rw [hfinding]
  cases hvalues : settings.hasValues with
  | false =>
    have hstored (entry : Entry κ ν) : (settings.stored entry).2 = none := by
      rw [Settings.stored, hvalues]
      rfl
    simp [Audit.finding, Audit.zero, hstored]
  | true =>
    have hstored (entry : Entry κ ν) : (settings.stored entry).2 = entry.value := by
      rw [Settings.stored, hvalues]
      rfl
    have hsome : ∀ entry ∈ entries, entry.value.isSome = true := by
      intro entry hentry
      obtain ⟨value, hvalue⟩ := hmade.exists_value hvalues hentry
      rw [hvalue, Option.isSome_some]
    have habsent : entries.countP (fun entry => entry.value.isNone) = 0 := by
      rw [List.countP_eq_zero]
      intro entry hentry hnone
      exact absurd (hsome entry hentry) (Option.not_isSome_iff_eq_none.2 (Option.isNone_iff_eq_none.1 hnone))
    have hequal : entries.countP (fun entry => entry.value.isSome) = entries.length := List.countP_eq_length.2 hsome
    simp [Audit.finding, Audit.zero, hstored, habsent, hequal]

/-! ## Sorted listings -/

namespace Table

variable [Ord κ] [Ord ν]

instance [Std.TransOrd κ] [Std.TransOrd ν] : Std.TransCmp (compareRecords (κ := κ) (ν := ν)) :=
  inferInstanceAs (Std.TransCmp (compareLex (compareOn Prod.fst) (compareOn Prod.snd)))

/-- Records that the order does not tell apart are the same. -/
theorem eq_of_compareRecords [Std.LawfulEqOrd κ] [Std.LawfulEqOrd ν] {a b : Option κ × Option ν}
    (h : compareRecords a b = .eq) : a = b := by
  obtain ⟨hkey, hvalue⟩ := Ordering.then_eq_eq.1 h
  exact Prod.ext (Std.LawfulEqOrd.eq_of_compare hkey) (Std.LawfulEqOrd.eq_of_compare hvalue)

/-- The same records are sorted into the same list, in whatever order they came. -/
theorem mergeSort_compareRecords_eq [Std.TransOrd κ] [Std.TransOrd ν] [Std.LawfulEqOrd κ] [Std.LawfulEqOrd ν]
    {found found' : List (Option κ × Option ν)} (h : found.Perm found') :
    found.mergeSort (fun a b => (compareRecords a b).isLE) = found'.mergeSort fun a b => (compareRecords a b).isLE := by
  have htrans (a b c : Option κ × Option ν) (hab : (compareRecords a b).isLE) (hbc : (compareRecords b c).isLE) :
      (compareRecords a c).isLE := Std.TransCmp.isLE_trans hab hbc
  have htotal (a b : Option κ × Option ν) : ((compareRecords a b).isLE || (compareRecords b a).isLE) = true := by
    have hswap : compareRecords b a = (compareRecords a b).swap := Std.OrientedCmp.eq_swap
    rw [hswap]
    cases compareRecords a b <;> rfl
  refine List.Perm.eq_of_pairwise (fun a b _ _ hab hba => ?_) (List.pairwise_mergeSort htrans htotal found)
    (List.pairwise_mergeSort htrans htotal found') ?_
  · exact eq_of_compareRecords (Std.OrientedCmp.isLE_antisymm hab hba)
  · exact (found.mergeSort_perm _).trans (h.trans (found'.mergeSort_perm _).symm)

end Table

/-- A sorted listing of a table whose build ended well is the sorted list of what is kept of its entries: it does not tell in
which order the entries came, nor where the perfect hash has put them. -/
theorem Build.sorted_listing_of_run [HashLibrary] [Ord κ] [DecidableEq κ] [Spelled κ] [Spelled ν] [Ord ν] [Std.TransOrd κ]
    [Std.TransOrd ν] [Std.LawfulEqOrd κ] [Std.LawfulEqOrd ν] {finder : CodecFinder κ ν} {store store' : FileStore}
    {settings : Settings κ ν} {dataSize : Option Nat} {timestamp : Nat} {directory : Path} {entries : List (Entry κ ν)}
    {d : Descriptor κ ν} (hfaithful : settings.Faithful) (hcount : entries.length < 0x100000000)
    (hrun : run store settings dataSize timestamp directory (.ofEntries entries) = (store', .ok d))
    (hlibrary : HashLibrary.Restores) (hknown : finder.Knows settings) (hbounded : settings.Bounded)
    (hsupported : d.Supported) (opening : Opening) :
    ∃ t found, opening.open finder store' directory = .ok t ∧ (List.range t.size).mapM t.entryAt = .ok found ∧
      found.mergeSort (fun a b => (Table.compareRecords a b).isLE) =
        (entries.map settings.stored).mergeSort fun a b => (Table.compareRecords a b).isLE := by
  obtain ⟨slots, records, file, storage, hmade, hserves, hopen⟩ :=
    opened_of_run hfaithful hcount hrun hlibrary hknown hbounded hsupported opening
  exact ⟨_, _, hopen, (hmade.lists hfaithful hserves _).mapM_entryAt,
    Table.mergeSort_compareRecords_eq (hmade.arranged.perm.map _)⟩

end FrozenTable
