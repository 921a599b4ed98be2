import FrozenTable.Proofs.Lemmas.Refusing

/-!
# Records in the order of their buckets, put together in memory

`Build.arrangeInMemory` does in one go what a second pass does by way of shards: it makes all records, looks whether they are as
long together as was said, and takes for each bucket the record that was made for it. Where the hash leads the entries to all
buckets, each to one of its own, the second pass gives the same and fails for the same fault (`Build.arrange_eq_inMemory`): each
step takes in the record that `Build.checkedRecord` gives, and neither notes nor shards can be missed.
-/

namespace FrozenTable

variable {κ ν : Type}

/-- What stands beside a key in a list of pairs is found by the key, if no key is there twice. -/
theorem lookup_of_mem {α : Type} {pairs : List (Nat × α)} (hnodup : (pairs.map Prod.fst).Nodup) {pair : Nat × α}
    (h : pair ∈ pairs) : pairs.lookup pair.1 = some pair.2 := by
  induction pairs with
  | nil => exact nomatch h
  | cons first pairs ih =>
    rw [List.map_cons, List.nodup_cons] at hnodup
    rcases List.mem_cons.1 h with rfl | h
    · simp [List.lookup]
    · have hne : (pair.1 == first.1) = false :=
        beq_eq_false_iff_ne.2 fun hsame => hnodup.1 (hsame ▸ List.mem_map_of_mem h)
      simp [List.lookup, hne, ih hnodup.2 h]

namespace Build

/-! ## Ordering in memory -/

/-- The record of an entry that passes the checks of the second pass. -/
def checkedRecord (settings : Settings κ ν) (entry : Entry κ ν) : Except Fault Bytes := do
  settings.needValue entry
  let record ← settings.record entry
  Spread.checkSize settings record.length
  pure record

theorem checkedRecord_eq_ok {settings : Settings κ ν} {entry : Entry κ ν} {record : Bytes} :
    checkedRecord settings entry = .ok record ↔ settings.needValue entry = .ok () ∧ settings.record entry = .ok record ∧
      Spread.checkSize settings record.length = .ok () := by
  simp only [checkedRecord, Outcome.bind_eq_ok, Outcome.pure_eq_ok]
  constructor
  · rintro ⟨_, hvalue, record, hrecord, _, hsize, rfl⟩
    exact ⟨hvalue, hrecord, hsize⟩
  · rintro ⟨hvalue, hrecord, hsize⟩
    exact ⟨(), hvalue, record, hrecord, (), hsize, rfl⟩

/-- The record that was made for a bucket. -/
def recordFor (records : List (Nat × Bytes)) (bucket : Nat) : Bytes :=
  (records.lookup bucket).getD []

/-- The records of entries in the order of their buckets, with their sizes, all of them in memory at once. -/
def arrangeInMemory (settings : Settings κ ν) (dataSize : Nat) (buckets : List Nat) (entries : List (Entry κ ν)) :
    Except Fault (Bytes × List Nat) := do
  let records ← entries.mapM (checkedRecord settings)
  let size := (records.map List.length).sum
  if size = dataSize then
    let ordered := (List.range buckets.length).map (recordFor (buckets.zip records))
    pure (ordered.flatten, ordered.map List.length)
  else throw (.dataSizeDiffers dataSize size)

/-- Ordering in memory has nothing to do with the size of shards. -/
theorem arrangeInMemory_sharded (settings : Settings κ ν) (shardSize dataSize : Nat) (buckets : List Nat)
    (entries : List (Entry κ ν)) :
    arrangeInMemory (settings.change (.shardSize shardSize)) dataSize buckets entries =
      arrangeInMemory settings dataSize buckets entries := by
  have hchecked : checkedRecord (settings.change (.shardSize shardSize)) = checkedRecord settings := rfl
  rw [arrangeInMemory, hchecked, arrangeInMemory]

/-- What ordering in memory gives: a record for each bucket, and for the bucket of an entry the record of the entry. -/
theorem arrangeInMemory_eq_ok {settings : Settings κ ν} {dataSize : Nat} {buckets : List Nat} {entries : List (Entry κ ν)}
    {data : Bytes} {sizes : List Nat} (h : arrangeInMemory settings dataSize buckets entries = .ok (data, sizes))
    (hbuckets : buckets.Perm (List.range buckets.length)) (hlength : entries.length = buckets.length) :
    ∃ records : List Bytes, records.length = buckets.length ∧ data = records.flatten ∧ sizes = records.map List.length ∧
      ∀ pair ∈ entries.zip buckets, ∃ hlt : pair.2 < records.length, settings.record pair.1 = .ok records[pair.2] := by
  obtain ⟨made, hmade, h⟩ := Outcome.bind_eq_ok.1 h
  dsimp only at h
  split at h
  · cases h
    refine ⟨_, by simp, rfl, rfl, ?_⟩
    obtain ⟨hmadeLength, hrecord⟩ := Outcome.getElem_of_mapM hmade
    have hfst : (buckets.zip made).map Prod.fst = buckets := List.map_fst_zip (by omega)
    have hnodup : ((buckets.zip made).map Prod.fst).Nodup := by
      rw [hfst]
      exact hbuckets.nodup_iff.2 List.nodup_range
    intro pair hpair
    obtain ⟨i, hi, rfl⟩ := List.getElem_of_mem hpair
    rw [List.length_zip] at hi
    have hbucket : buckets[i] < buckets.length := List.mem_range.1 (hbuckets.mem_iff.1 (List.getElem_mem _))
    have hzip : i < (buckets.zip made).length := by
      rw [List.length_zip]
      omega
    have hmem : (buckets[i], made[i]) ∈ buckets.zip made := by
      have hpair := List.getElem_mem hzip
      rwa [List.getElem_zip] at hpair
    refine ⟨by simpa using hbucket, ?_⟩
    simp [recordFor, lookup_of_mem hnodup hmem, (checkedRecord_eq_ok.1 (hrecord i (by omega))).2.1]
  · cases h

/-- Ordering in memory fails for nothing that notes or shards could fail for, unless a record fails for it. -/
theorem fault_of_inMemory {settings : Settings κ ν} {dataSize : Nat} {buckets : List Nat} {entries : List (Entry κ ν)}
    {fault : Fault} (h : arrangeInMemory settings dataSize buckets entries = .error fault)
    (hfault : fault = .outOfBounds ∨ fault = .shardTruncated) : ∃ entry ∈ entries, settings.record entry = .error fault := by
  rcases Outcome.bind_eq_error.1 h with hchecked | ⟨made, -, h⟩
  · obtain ⟨entry, hentry, hchecked⟩ := Outcome.exists_of_mapM_error hchecked
    refine ⟨entry, hentry, ?_⟩
    simp only [checkedRecord, Outcome.bind_eq_error] at hchecked
    rcases hchecked with hvalue | ⟨_, -, hrecord | ⟨record, -, hsize | ⟨_, -, hnone⟩⟩⟩
    · unfold Settings.needValue at hvalue
      split at hvalue <;> cases hvalue
      rcases hfault with h | h <;> cases h
    · exact hrecord
    · unfold Spread.checkSize at hsize
      split at hsize
      · cases hsize
        rcases hfault with h | h <;> cases h
      · split at hsize <;> cases hsize
        rcases hfault with h | h <;> cases h
    · cases hnone
  · dsimp only at h
    split at h
    · cases h
    · cases h
      rcases hfault with h | h <;> cases h

end Build

namespace Spread

variable [Spelled κ] {settings : Settings κ ν} {hash : PerfectHash} {p : ShardPlan} {s : Spread}
  {arrivals : List (Nat × Bytes)}

/-- A step for an entry with a bucket that is still free takes in the record of the entry, if it passes the checks. -/
theorem Holds.step_eq (hs : Holds p s arrivals) {entry : Entry κ ν} {bucket : Nat}
    (hlead : settings.keyBytes entry.key >>= hash.slotOfBytes = .ok (some bucket)) (hlt : bucket < p.buckets)
    (hnew : bucket ∉ arrivals.map Prod.fst) :
    s.step settings hash p entry = Build.checkedRecord settings entry >>= s.add p bucket := by
  have hclaim : s.claim settings hash entry.key = .ok bucket := by
    obtain ⟨bytes, hbytes, hslot⟩ := Outcome.bind_eq_ok.1 hlead
    simp only [claim, hbytes, Outcome.ok_bind, hslot, hs.holds_of_not_mem hlt hnew]
    rfl
  simp only [step, Build.checkedRecord, hclaim, bind_assoc, Outcome.ok_bind, pure_bind]

/-- A pass over entries with buckets that are still free takes in their records, and fails where one does not pass the
checks. -/
theorem Holds.foldlM_step (hs : Holds p s arrivals) (hp : p.Covers) {entries : List (Entry κ ν)} {buckets : List Nat}
    (hleads : entries.mapM (fun entry => settings.keyBytes entry.key >>= hash.slotOfBytes) = .ok (buckets.map some))
    (hlt : ∀ b ∈ buckets, b < p.buckets) (hnodup : (arrivals.map Prod.fst ++ buckets).Nodup) :
    (∃ records s', entries.mapM (Build.checkedRecord settings) = .ok records ∧
      entries.foldlM (step settings hash p) s = .ok s' ∧ Holds p s' (arrivals ++ buckets.zip records)) ∨
    ∃ fault, entries.mapM (Build.checkedRecord settings) = .error fault ∧
      entries.foldlM (step settings hash p) s = .error fault := by
  rw [Outcome.mapM_eq_ok] at hleads
  induction entries generalizing s arrivals buckets with
  | nil =>
    rw [List.map_nil, List.map_map, eq_comm, List.map_eq_nil_iff] at hleads
    subst hleads
    exact .inl ⟨[], s, rfl, rfl, by simpa using hs⟩
  | cons entry entries ih =>
    rw [List.map_map, List.map_cons, eq_comm, List.map_eq_cons_iff] at hleads
    obtain ⟨bucket, buckets, rfl, hlead, hleads⟩ := hleads
    have hbucket := hlt bucket List.mem_cons_self
    have hnew : bucket ∉ arrivals.map Prod.fst := by
      intro hmem
      exact (List.nodup_append.1 hnodup).2.2 bucket hmem bucket List.mem_cons_self rfl
    rw [List.mapM_cons, List.foldlM_cons, hs.step_eq hlead.symm hbucket hnew]
    rcases hchecked : Build.checkedRecord settings entry with fault | record
    · exact .inr ⟨fault, rfl, rfl⟩
    · have hsize := size_lt_of_checkSize (Build.checkedRecord_eq_ok.1 hchecked).2.2
      obtain ⟨s', hadd⟩ := hs.exists_add hp hbucket hnew hsize
      have hs' := hs.add hp hadd hbucket hnew hsize
      have hnodup' : ((arrivals ++ [(bucket, record)]).map Prod.fst ++ buckets).Nodup := by
        simpa using hnodup
      simp only [Outcome.ok_bind, hadd]
      have hleads' : entries.map (fun entry => settings.keyBytes entry.key >>= hash.slotOfBytes) =
          (buckets.map some).map Except.ok := by rw [List.map_map, hleads]
      rcases ih hs' hleads' (fun b hb => hlt b (List.mem_cons_of_mem _ hb)) hnodup' with
        ⟨records, s'', hrecords, hfold, hs''⟩ | ⟨fault, hrecords, hfold⟩
      · exact .inl ⟨record :: records, s'', by rw [hrecords]; rfl, hfold, by simpa using hs''⟩
      · exact .inr ⟨fault, by rw [hrecords]; rfl, hfold⟩

/-- Arrivals in the order of their buckets are what is found for the buckets in their order. -/
theorem Sorted.map_snd {sorted : List (Nat × Bytes)} (h : Sorted p arrivals sorted) (hnodup : (arrivals.map Prod.fst).Nodup) :
    sorted.map Prod.snd = (List.range p.buckets).map (Build.recordFor arrivals) := by
  rw [← h.fst_eq, List.map_map]
  refine List.map_congr_left fun pair hpair => ?_
  have hmem : pair ∈ arrivals := h.perm.mem_iff.1 hpair
  simp [Build.recordFor, lookup_of_mem hnodup hmem]

omit [Spelled κ] in
/-- What a second pass ends with when every bucket has its record. -/
theorem Holds.finish_eq (hs : Holds p s arrivals) (hp : p.Covers) (hcount : p.buckets < 0x100000000)
    (htotal : s.count = p.buckets) (dataSize : Nat) :
    (s.checkTotals p dataSize >>= fun _ => s.gather p >>= fun data =>
      pure (data, (s.sizes.toList.take p.buckets).map UInt32.toNat)) =
    if s.dataSize = dataSize then
      .ok (((List.range p.buckets).map (Build.recordFor arrivals)).flatten,
        ((List.range p.buckets).map (Build.recordFor arrivals)).map List.length)
    else .error (.dataSizeDiffers dataSize s.dataSize) := by
  obtain ⟨sorted, hsorted⟩ := hs.exists_sorted htotal
  by_cases hdata : s.dataSize = dataSize
  · have hchecked : s.checkTotals p dataSize = .ok () := by
      rw [checkTotals, if_neg (not_not_intro htotal), if_neg (not_not_intro hdata)]
    rw [hchecked, hs.gather_eq hp hcount hsorted, hs.sizes_eq_map hsorted, hsorted.map_snd hs.apart.nodup, if_pos hdata]
    rfl
  · have hchecked : s.checkTotals p dataSize = .error (.dataSizeDiffers dataSize s.dataSize) := by
      rw [checkTotals, if_neg (not_not_intro htotal), if_pos hdata]
    rw [hchecked, if_neg hdata]
    rfl

end Spread

/-! ## The second pass -/

namespace Build

variable [Spelled κ] {settings : Settings κ ν} {hash : PerfectHash} {entries : List (Entry κ ν)} {buckets : List Nat}

/-- Where the hash leads the entries to all buckets, each to one of its own, a second pass ends as ordering in memory does. -/
theorem arrange_eq_inMemory (hcount : entries.length < 0x100000000)
    (hleads : entries.mapM (fun entry => settings.keyBytes entry.key >>= hash.slotOfBytes) = .ok (buckets.map some))
    (hbuckets : buckets.Perm (List.range hash.length)) (dataSize : Nat) :
    arrange settings hash dataSize (entries.map .ok) = arrangeInMemory settings dataSize buckets entries := by
  have hp := ShardPlan.covers_of hash.length dataSize settings.shardSize
  have hlength : buckets.length = hash.length := by rw [hbuckets.length_eq, List.length_range]
  have hentries : entries.length = hash.length := by
    obtain ⟨hlen, -⟩ := Outcome.getElem_of_mapM hleads
    rw [← hlength, ← hlen, List.length_map]
  have hlt : ∀ b ∈ buckets, b < hash.length := fun b hb => List.mem_range.1 (hbuckets.mem_iff.1 hb)
  have hnodup : buckets.Nodup := hbuckets.nodup_iff.2 List.nodup_range
  simp only [arrange, arrangeInMemory, Spread.run, List.foldlM_map, Outcome.ok_bind]
  rcases (Spread.holds_empty (.of hash.length dataSize settings.shardSize)).foldlM_step hp hleads hlt (by simpa using hnodup)
    with ⟨records, s, hrecords, hrun, hs⟩ | ⟨fault, hrecords, hrun⟩
  · have hzip : records.length = buckets.length := by
      obtain ⟨hlen, -⟩ := Outcome.getElem_of_mapM hrecords
      rw [hlen, hentries, hlength]
    have hsnd : (buckets.zip records).map Prod.snd = records := List.map_snd_zip (Nat.le_of_eq hzip)
    rw [List.nil_append] at hs
    have htotal : s.count = hash.length := by
      rw [hs.count_eq, ← hlength, List.length_zip, hzip, Nat.min_self]
    have hsum : s.dataSize = (records.map List.length).sum := by
      conv_rhs => rw [← hsnd, List.map_map]
      exact hs.dataSize_eq
    rw [hrun, hrecords, Outcome.ok_bind, Outcome.ok_bind, hlength, ← hsum]
    exact hs.finish_eq hp (hentries ▸ hcount) htotal dataSize
  · rw [hrecords, hrun]
    rfl

end Build

end FrozenTable
