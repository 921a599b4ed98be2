import FrozenTable.Proofs.Lemmas.Refusing

/-!
# The order of entries cancels out

Entries in another order are hashed to the same buckets, as fingerprints are put in order before a hash is made of them. The
second pass then notes other places in other shards, and what it puts together from these is told by the buckets alone. A plan
that ends well is therefore a plan for the entries in every order (`Build.plan_perm`).
-/

namespace FrozenTable

variable {κ ν : Type}

/-! ## The first pass -/

/-- Where the range of the keys is kept, keys that compare equal are written alike. -/
def Settings.OrdersKeys [Ord κ] (s : Settings κ ν) : Prop :=
  s.tracksRange = true → ∀ a b, compare a b = .eq → s.keyBytes a = s.keyBytes b

/-- An order in which only equal keys are equivalent orders all keys. -/
theorem Settings.ordersKeys_of_lawful [Ord κ] [Std.LawfulEqOrd κ] (s : Settings κ ν) : s.OrdersKeys :=
  fun _ _ _ hsame => congrArg s.keyBytes (Std.LawfulEqOrd.eq_of_compare hsame)

namespace Scan

variable [Ord κ] [Std.TransOrd κ]

/-- The range of some keys does not depend on their order, if no two of them compare equal. -/
theorem rangeOf_perm {keys keys' : List κ} (hperm : keys.Perm keys')
    (hsame : ∀ a ∈ keys, ∀ b ∈ keys, compare a b = .eq → a = b) : rangeOf keys = rangeOf keys' := by
  rcases spans_rangeOf keys with ⟨rfl, -⟩ | ⟨low, high, hrange, hspans⟩
  · rw [hperm.nil_eq]
  rcases spans_rangeOf keys' with ⟨rfl, -⟩ | ⟨low', high', hrange', hspans'⟩
  · rw [hperm.eq_nil]
  have hlow' := hperm.mem_iff.2 hspans'.low_mem
  have hhigh' := hperm.mem_iff.2 hspans'.high_mem
  have hlow : low = low' := by
    refine hsame low hspans.low_mem low' hlow' (Std.OrientedCmp.isLE_antisymm (hspans.low_le low' hlow') ?_)
    exact hspans'.low_le low (hperm.mem_iff.1 hspans.low_mem)
  have hhigh : high = high' := by
    refine hsame high hspans.high_mem high' hhigh' (Std.OrientedCmp.isLE_antisymm ?_ (hspans.le_high high' hhigh'))
    exact hspans'.le_high high (hperm.mem_iff.1 hspans.high_mem)
  rw [hrange, hrange', hlow, hhigh]

/-- A first pass over entries in another order finds the same, but for the order of the fingerprints. -/
theorem exists_run_perm {s : Settings κ ν} {sized : Bool} {entries entries' : List (Entry κ ν)} {scan : Scan κ}
    (hkeys : s.OrdersKeys) (hperm : entries.Perm entries') (h : run s sized (entries.map .ok) = .ok scan)
    (hnodup : scan.fingerprints.Nodup) :
    ∃ scan', run s sized (entries'.map .ok) = .ok scan' ∧ scan.fingerprints.Perm scan'.fingerprints ∧
      scan'.dataSize = scan.dataSize ∧ scan'.range = scan.range := by
  obtain ⟨hcovers, sizes, hsizes, hsum⟩ := run_eq_ok_iff.1 h
  obtain ⟨prints, hprints, hprintsPerm⟩ := Outcome.exists_mapM_perm hperm hcovers.fingerprints
  obtain ⟨sizes', hsizes', hsizesPerm⟩ := Outcome.exists_mapM_perm hperm hsizes
  have hrange : s.rangeOf entries' = s.rangeOf entries := by
    unfold Settings.rangeOf
    split
    · rename_i htracks
      refine (rangeOf_perm (hperm.map _) ?_).symm
      -- entries with keys that compare equal would have one fingerprint
      intro a ha b hb hcompare
      obtain ⟨entry, hentry, rfl⟩ := List.mem_map.1 ha
      obtain ⟨other, hother, rfl⟩ := List.mem_map.1 hb
      have hprint : s.fingerprint entry.key = s.fingerprint other.key := by
        rw [Settings.fingerprint, Settings.fingerprint, hkeys htracks _ _ hcompare]
      rw [Outcome.eq_of_mapM_nodup hcovers.fingerprints (List.nodup_reverse.2 hnodup) hentry hother hprint]
    · rfl
  refine ⟨⟨prints.reverse, scan.dataSize, scan.range⟩, run_eq_ok_iff.2 ⟨⟨?_, ?_, ?_⟩, sizes', hsizes', ?_⟩, ?_, rfl, rfl⟩
  · exact fun entry hentry => hcovers.value entry (hperm.mem_iff.2 hentry)
  · rwa [List.reverse_reverse]
  · rw [hrange, hcovers.range_eq]
  · rw [hsum, hsizesPerm.sum_nat]
  · exact (List.reverse_perm _).symm.trans (hprintsPerm.trans (List.reverse_perm _).symm)

end Scan

/-! ## The second pass -/

namespace Spread

/-- Entries in another order have the same buckets in another order. -/
theorem Seats.perm {settings : Settings κ ν} {hash : PerfectHash} {p : ShardPlan} {entries entries' : List (Entry κ ν)}
    {buckets : List Nat} (h : Seats settings hash p entries buckets) (hperm : entries.Perm entries') :
    ∃ buckets', Seats settings hash p entries' buckets' := by
  obtain ⟨slots, hslots, hslotsPerm⟩ := Outcome.exists_mapM_perm hperm h.leads
  obtain ⟨buckets', rfl⟩ : slots ∈ Set.range (List.map some) := by
    rw [Set.range_list_map]
    intro slot hslot
    obtain ⟨bucket, -, rfl⟩ := List.mem_map.1 (hslotsPerm.mem_iff.2 hslot)
    exact ⟨bucket, rfl⟩
  have hbuckets : buckets.Perm buckets' := (List.map_perm_map_iff (Option.some_injective Nat)).1 hslotsPerm
  exact ⟨buckets', hslots, hbuckets.nodup_iff.1 h.nodup, fun b hb => h.bucket_lt b (hbuckets.mem_iff.2 hb)⟩

end Spread

namespace Build

section

variable {settings : Settings κ ν} {hash : PerfectHash} {entries entries' slots : List (Entry κ ν)} {records : List Bytes}

/-- The order in which entries come does not matter to how they are arranged. -/
theorem Arranged.of_perm (h : Arranged settings hash entries slots records) (hperm : entries.Perm entries') :
    Arranged settings hash entries' slots records :=
  ⟨h.perm.trans hperm, h.count_eq, h.records_length, h.takes⟩

/-- Each entry that was put in order was taken in for its bucket. -/
theorem Arranged.exists_takes (h : Arranged settings hash entries slots records) {entry : Entry κ ν}
    (hentry : entry ∈ entries) : ∃ i record, Spread.Takes settings hash entry (i, record) := by
  obtain ⟨i, hi, rfl⟩ := List.getElem_of_mem (h.perm.mem_iff.2 hentry)
  have hi' : i < records.length := h.records_length ▸ hi
  exact ⟨i, records[i], h.takes i hi hi'⟩

/-- The records are those of the entries that were put in order. -/
theorem Arranged.mapM_record (h : Arranged settings hash entries slots records) : slots.mapM settings.record = .ok records := by
  rw [Outcome.mapM_eq_ok]
  refine List.ext_getElem (by simp [h.records_length]) ?_
  intro i hi hi'
  rw [List.length_map] at hi hi'
  rw [List.getElem_map, List.getElem_map, (h.takes i hi hi').record]

/-- Entries that were put in order have the buckets in their order. -/
theorem Arranged.seats (h : Arranged settings hash entries slots records) (dataSize shardSize : Nat) :
    Spread.Seats settings hash (.of hash.length dataSize shardSize) slots (List.range hash.length) := by
  refine ⟨?_, List.nodup_range, fun b hb => List.mem_range.1 hb⟩
  rw [Outcome.mapM_eq_ok]
  refine List.ext_getElem (by simp [h.count_eq]) ?_
  intro i hi _
  rw [List.length_map] at hi
  obtain ⟨bytes, hbytes, hslot⟩ := (h.takes i hi (h.records_length ▸ hi)).bucket
  rw [List.getElem_map, hbytes, Outcome.ok_bind, hslot]
  simp

end

section

variable [Spelled κ] {settings : Settings κ ν} {hash : PerfectHash} {dataSize : Nat} {entries entries' : List (Entry κ ν)}

/-- Entries in another order give the same data. -/
theorem arrange_perm (hperm : entries.Perm entries') (hcount : hash.length < 0x100000000)
    {arranged : Bytes × List Nat} (h : arrange settings hash dataSize (entries.map .ok) = .ok arranged) :
    arrange settings hash dataSize (entries'.map .ok) = .ok arranged := by
  obtain ⟨data, sizes⟩ := arranged
  obtain ⟨slots, records, harranged, rfl, rfl, hsum⟩ := arranged_of_arrange h hcount
  cases h' : arrange settings hash dataSize (entries'.map .ok) with
  | ok arranged' =>
    obtain ⟨data', sizes'⟩ := arranged'
    obtain ⟨slots', records', harranged', rfl, rfl, -⟩ := arranged_of_arrange h' hcount
    obtain ⟨-, rfl⟩ := (harranged.of_perm hperm).eq harranged' rfl rfl
    rfl
  | error fault =>
    exfalso
    have harranged' := harranged.of_perm hperm
    obtain ⟨buckets, hseats⟩ := (harranged'.seats dataSize settings.shardSize).perm harranged'.perm
    have hlength : entries'.length = hash.length := by rw [← harranged'.count_eq, harranged'.perm.length_eq]
    have hneed : ∀ entry ∈ entries', settings.needValue entry = .ok () := by
      intro entry hentry
      obtain ⟨_, _, htakes⟩ := harranged'.exists_takes hentry
      exact htakes.value
    rcases fault_of_arrange hcount hlength hseats hneed h' with
      ⟨entry, hentry, hrecord | ⟨record, hrecord, hsize⟩⟩ | ⟨written, hwritten, hdiffers, -⟩
    · obtain ⟨_, _, htakes⟩ := harranged'.exists_takes hentry
      exact nomatch htakes.record.symm.trans hrecord
    · obtain ⟨_, _, htakes⟩ := harranged'.exists_takes hentry
      cases htakes.record.symm.trans hrecord
      exact nomatch htakes.size.symm.trans hsize
    · -- what was written is what stands in the data
      obtain ⟨slotRecords, hslotRecords, hperm'⟩ := Outcome.exists_mapM_perm harranged'.perm.symm hwritten
      have hrecords : slots.mapM settings.record = .ok records := harranged.mapM_record
      cases hslotRecords.symm.trans hrecords
      exact hdiffers (hsum.trans (hperm'.map List.length).sum_nat.symm)

end

/-! ## Plans -/

variable [HashLibrary] [Ord κ] [Std.TransOrd κ] [Spelled κ] [Spelled ν] {settings : Settings κ ν} {dataSize : Option Nat}
  {timestamp : Nat} {directory : Path} {entries entries' : List (Entry κ ν)}

/-- A plan that ends well is a plan for the entries in every order. -/
theorem plan_perm (hkeys : settings.OrdersKeys) (hperm : entries.Perm entries') (hcount : entries.length < 0x100000000)
    {p : BuildPlan κ ν} (h : plan settings dataSize timestamp directory (.ofEntries entries) = .ok p) {d : Descriptor κ ν}
    (hd : p.outcome = .ok d) : plan settings dataSize timestamp directory (.ofEntries entries') = .ok p := by
  obtain ⟨scan, hash, hhashed, rfl⟩ := plan_eq_ok.1 h
  obtain ⟨scan', hscan, hprints, hsize, hrange⟩ := Scan.exists_run_perm hkeys hperm hhashed.scanned
    hhashed.separates.fingerprints_nodup
  have hbuilt : PerfectHash.build scan'.fingerprints settings.signatureWidth = .ok hash :=
    (PerfectHash.build_perm hprints _).symm.trans hhashed.built
  refine plan_eq_ok.2 ⟨scan', hash, ⟨hhashed.flaw_eq_none, hscan, hbuilt⟩, ?_⟩
  rw [hsize, hrange, ← hprints.length_eq]
  cases hresolved : settings.resolved scan.fingerprints.length (dataSize.getD scan.dataSize) with
  | error fault => rfl
  | ok settings' =>
    rw [hresolved] at hd
    obtain ⟨data, sizes, -, -, harrange, -⟩ := planWriting_eq_ok hd
    have hlength : hash.length < 0x100000000 := by
      rw [hhashed.separates.length_eq, hhashed.length_fingerprints]
      exact hcount
    have harrange' := arrange_perm hperm hlength harrange
    have hlater : arrange settings' hash (dataSize.getD scan.dataSize) (Source.ofEntries entries).later =
        arrange settings' hash (dataSize.getD scan.dataSize) (Source.ofEntries entries').later :=
      harrange.trans harrange'.symm
    simp only [planWriting, hlater]

/-- A build that ends well does so alike with the entries in every order: with the same descriptor, and the same store. -/
theorem run_perm (hkeys : settings.OrdersKeys) (hperm : entries.Perm entries') (hcount : entries.length < 0x100000000)
    {store store' : FileStore} {d : Descriptor κ ν}
    (h : run store settings dataSize timestamp directory (.ofEntries entries) = (store', .ok d)) :
    run store settings dataSize timestamp directory (.ofEntries entries') = (store', .ok d) := by
  unfold run at h ⊢
  cases hplan : plan settings dataSize timestamp directory (.ofEntries entries) with
  | error fault =>
    rw [hplan] at h
    cases h
  | ok p =>
    rw [hplan] at h
    rw [plan_perm hkeys hperm hcount hplan (carryOut_eq_ok h).2, ← h]

end Build

end FrozenTable
