import FrozenTable.Proofs.Lemmas.Drafting
import FrozenTable.Proofs.Lemmas.Fitting
import FrozenTable.Proofs.Lemmas.Training

/-!
# What a build may fail for

Each part of a build has its own ways to fail, and most of them are closed by what the parts before it have found. The second
pass finds no bucket taken, because the hash led the keys apart; it notes what it takes in, as no range has more records than
places; and what it has noted can be put in order. Offsets can be kept and the keys of the range be written. What is left is
an item that a codec cannot write, a record that is too large, and a size that was declared wrongly.
-/

namespace FrozenTable

variable {κ ν : Type}

/-! ## The second pass -/

namespace Spread

/-- Every entry has a bucket of its own, and these are the buckets. -/
structure Seats (settings : Settings κ ν) (hash : PerfectHash) (p : ShardPlan) (entries : List (Entry κ ν))
    (buckets : List Nat) : Prop where
  leads : entries.mapM (fun entry => settings.keyBytes entry.key >>= hash.slotOfBytes) = .ok (buckets.map some)
  nodup : buckets.Nodup
  bucket_lt : ∀ b ∈ buckets, b < p.buckets

/-- The buckets of entries that were taken in are those they lead to. -/
theorem leads_of_takes {settings : Settings κ ν} {hash : PerfectHash} {entries : List (Entry κ ν)}
    {arrivals : List (Nat × Bytes)} (h : List.Forall₂ (Takes settings hash) entries arrivals) :
    entries.mapM (fun entry => settings.keyBytes entry.key >>= hash.slotOfBytes) =
      .ok ((arrivals.map Prod.fst).map some) := by
  rw [Outcome.mapM_eq_ok]
  induction h with
  | nil => rfl
  | cons htake _ ih =>
    obtain ⟨bytes, hbytes, hslot⟩ := htake.bucket
    rw [List.map_cons, ih, hbytes, Outcome.ok_bind, hslot]
    rfl

/-- An entry behind others has a bucket that none of these has. -/
theorem Seats.next {settings : Settings κ ν} {hash : PerfectHash} {p : ShardPlan} {done rest : List (Entry κ ν)}
    {entry : Entry κ ν} {buckets : List Nat} (h : Seats settings hash p (done ++ entry :: rest) buckets)
    {arrivals : List (Nat × Bytes)} (htakes : List.Forall₂ (Takes settings hash) done arrivals) :
    ∃ bytes bucket, settings.keyBytes entry.key = .ok bytes ∧ hash.slotOfBytes bytes = .ok (some bucket) ∧
      bucket < p.buckets ∧ bucket ∉ arrivals.map Prod.fst := by
  have hleads := Outcome.mapM_eq_ok.1 h.leads
  rw [List.map_append, List.map_map, List.append_eq_map_iff] at hleads
  obtain ⟨before, behind, rfl, hbefore, hbehind⟩ := hleads
  rw [List.map_cons, List.map_eq_cons_iff] at hbehind
  obtain ⟨bucket, behind, rfl, hbucket, -⟩ := hbehind
  obtain ⟨bytes, hbytes, hslot⟩ := Outcome.bind_eq_ok.1 hbucket.symm
  have hsame : before = arrivals.map Prod.fst := by
    have hdone := Outcome.mapM_eq_ok.1 (leads_of_takes htakes)
    rw [← hbefore, List.map_map] at hdone
    exact List.map_injective_iff.2 (fun b c hbc => Option.some.inj (Except.ok.inj hbc)) hdone
  obtain ⟨-, -, hapart⟩ := List.nodup_append.1 h.nodup
  refine ⟨bytes, bucket, hbytes, hslot, h.bucket_lt bucket (by simp), ?_⟩
  rw [← hsame]
  intro hmem
  exact hapart bucket hmem bucket List.mem_cons_self rfl

variable [Spelled κ] {settings : Settings κ ν} {hash : PerfectHash} {p : ShardPlan} {entries : List (Entry κ ν)}
  {buckets : List Nat}

/-- Where every entry has its value and a bucket of its own, a second pass fails for a record only: for what a codec cannot
write, or for its size. -/
theorem fault_of_run (hp : p.Covers) (hseats : Seats settings hash p entries buckets)
    (hbuckets : p.buckets = hash.length)
    (hneed : ∀ entry ∈ entries, settings.needValue entry = .ok ()) {fault : Fault}
    (h : run settings hash p (entries.map .ok) = .error fault) :
    ∃ entry ∈ entries, settings.record entry = .error fault ∨
      ∃ record, settings.record entry = .ok record ∧ checkSize settings record.length = .error fault := by
  rw [run, List.foldlM_map] at h
  obtain ⟨done, entry, rest, s, rfl, hdone, hstep⟩ := Outcome.exists_step_of_foldlM_error h
  have hrun : run settings hash p (done.map .ok) = .ok s := by
    rw [run, List.foldlM_map]
    exact hdone
  obtain ⟨arrivals, htakes, hs⟩ := holds_of_run hp hbuckets hrun
  obtain ⟨bytes, bucket, hbytes, hbucket, hlt, hnew⟩ := hseats.next htakes
  have hvalue := hneed entry (by simp)
  have hclaim : s.claim settings hash entry.key = .ok bucket := by
    simp only [claim, hbytes, Outcome.ok_bind, hbucket, hs.holds_of_not_mem hlt hnew]
    rfl
  refine ⟨entry, by simp, ?_⟩
  simp only [Outcome.ok_bind, step, hvalue, hclaim, Outcome.bind_eq_error] at hstep
  rcases hstep with hrecord | ⟨record, hrecord, hsize | ⟨_, hsize, hadd⟩⟩
  · exact .inl hrecord
  · exact .inr ⟨record, hrecord, hsize⟩
  · obtain ⟨s', hs'⟩ := hs.exists_add hp hlt hnew (size_lt_of_checkSize hsize)
    rw [hs'] at hadd
    cases hadd

omit [Spelled κ] in
/-- A size on the line is refused only for being too large. -/
theorem le_of_checkSize_eq_error {size : Nat} {fault : Fault} (hfits : settings.entryLine.fits size = true)
    (h : checkSize settings size = .error fault) : 0x100000000 ≤ size ∧ fault.kind = .invalidInput := by
  unfold checkSize at h
  split at h
  · rename_i hoff
    cases h
    refine ⟨?_, rfl⟩
    refine Nat.not_lt.1 ?_
    intro hlt
    rw [Word64.signed_of_lt (by omega), hfits] at hoff
    exact hoff.2 rfl
  split at h
  · rename_i hlarge
    cases h
    exact ⟨hlarge, rfl⟩
  · exact nomatch h

omit [Spelled κ] in
/-- The records of entries that were taken in. -/
theorem records_of_takes {arrivals : List (Nat × Bytes)} (h : List.Forall₂ (Takes settings hash) entries arrivals) :
    entries.mapM settings.record = .ok (arrivals.map Prod.snd) := by
  rw [Outcome.mapM_eq_ok]
  induction h with
  | nil => rfl
  | cons htake _ ih =>
    rw [List.map_cons, ih, htake.record]
    rfl

end Spread

namespace Build

variable [Spelled κ] {settings : Settings κ ν} {hash : PerfectHash} {dataSize : Nat} {entries : List (Entry κ ν)}

/-- A second pass that ended well has written every entry, none too large, and has found the size that it was told. -/
theorem records_of_arrange {arranged : Bytes × List Nat}
    (h : arrange settings hash dataSize (entries.map .ok) = .ok arranged) :
    ∃ records, entries.mapM settings.record = .ok records ∧ (∀ record ∈ records, record.length < 0x100000000) ∧
      dataSize = (records.map List.length).sum := by
  obtain ⟨spread, arrivals, sorted, htakes, hs, hsorted, -, hsizes, hsum⟩ := exists_spread_of_arrange h
  refine ⟨_, Spread.records_of_takes htakes, ?_, ?_⟩
  · rw [List.forall_mem_map]
    exact hs.apart.size_lt
  · have hperm := (hsorted.perm.map Prod.snd).map List.length
    rw [hsum, hsizes, hperm.sum_nat]

/-- Where the hash leads every entry to a bucket of its own, records are put in order unless one of them cannot be written or
is refused for its size, or the size of all of them is not the one that was told. -/
theorem fault_of_arrange {buckets : List Nat} (hcount : hash.length < 0x100000000) (hlength : entries.length = hash.length)
    (hseats : Spread.Seats settings hash (.of hash.length dataSize settings.shardSize) entries buckets)
    (hneed : ∀ entry ∈ entries, settings.needValue entry = .ok ()) {fault : Fault}
    (h : arrange settings hash dataSize (entries.map .ok) = .error fault) :
    (∃ entry ∈ entries, settings.record entry = .error fault ∨
      ∃ record, settings.record entry = .ok record ∧ Spread.checkSize settings record.length = .error fault) ∨
    ∃ records, entries.mapM settings.record = .ok records ∧ dataSize ≠ (records.map List.length).sum ∧
      fault = .dataSizeDiffers dataSize (records.map List.length).sum := by
  have hp := ShardPlan.covers_of hash.length dataSize settings.shardSize
  simp only [arrange, Outcome.bind_eq_error] at h
  rcases h with hrun | ⟨s, hrun, h⟩
  · exact .inl (Spread.fault_of_run hp hseats rfl hneed hrun)
  obtain ⟨arrivals, htakes, hs⟩ := Spread.holds_of_run hp rfl hrun
  have hall : s.count = (ShardPlan.of hash.length dataSize settings.shardSize).buckets := by
    rw [hs.count_eq, ← htakes.length_eq, hlength]
    rfl
  have hsum : s.dataSize = ((arrivals.map Prod.snd).map List.length).sum := by
    rw [hs.dataSize_eq, List.map_map]
    rfl
  rcases h with hchecked | ⟨_, hchecked, hgather | ⟨data, -, hnone⟩⟩
  · right
    rw [Spread.checkTotals, if_neg (not_not_intro hall)] at hchecked
    split at hchecked
    · rename_i hdiffers
      cases hchecked
      exact ⟨_, Spread.records_of_takes htakes, hsum ▸ Ne.symm hdiffers, by rw [hsum]⟩
    · cases hchecked
  · obtain ⟨sorted, hsorted⟩ := hs.exists_sorted hall
    rw [hs.gather_eq hp hcount hsorted] at hgather
    cases hgather
  · cases hnone

/-! ## Offsets, ranges and duplicates -/

omit [Spelled κ] in
/-- Offsets can be kept, if selected ones are told by the line of records. -/
theorem exists_planOffsets {sizes : List Nat}
    (h : settings.offsetStorage = .selected → settings.entryLine.Carries sizes) :
    ∃ offsets, planOffsets settings sizes.sum sizes = .ok offsets := by
  unfold planOffsets
  cases hstorage : settings.offsetStorage with
  | automatic | indexed | fixed => exact ⟨_, rfl⟩
  | selected =>
    obtain ⟨bits, hbits, -⟩ := selectedBits_eq (h hstorage)
    simp only [hbits, Outcome.ok_bind]
    exact ⟨_, rfl⟩

omit [Spelled κ] in
/-- The keys of the range can be written where all keys can. -/
theorem exists_rangeBytes [Ord κ]
    (hkeys : ∀ entry ∈ entries, ∃ bytes, settings.keyBytes entry.key = .ok bytes) :
    ∃ keys, rangeBytes settings (settings.rangeOf entries) = .ok keys := by
  cases hrange : settings.rangeOf entries with
  | none => exact ⟨none, rfl⟩
  | some range =>
    have hmem : range.1 ∈ entries.map (·.key) ∧ range.2 ∈ entries.map (·.key) := by
      unfold Settings.rangeOf at hrange
      split at hrange
      · exact Scan.mem_of_rangeOf hrange
      · exact nomatch hrange
    have hwritten (key : κ) (hkey : key ∈ entries.map (·.key)) : ∃ bytes, settings.keyBytes key = .ok bytes := by
      obtain ⟨entry, hentry, rfl⟩ := List.mem_map.1 hkey
      exact hkeys entry hentry
    obtain ⟨low, hlow⟩ := hwritten _ hmem.1
    obtain ⟨high, hhigh⟩ := hwritten _ hmem.2
    obtain ⟨codec, hcodec, hlow⟩ := Outcome.bind_eq_ok.1 hlow
    obtain ⟨codec', hcodec', hhigh⟩ := Outcome.bind_eq_ok.1 hhigh
    rw [hcodec, Except.ok.injEq] at hcodec'
    subst hcodec'
    simp only [rangeBytes, hcodec, Outcome.ok_bind, hlow, hhigh]
    exact ⟨_, rfl⟩

variable [Spelled ν]

/-- Entries with the same key can be told where all keys can be written. -/
theorem fault_of_tellDuplicates {f : Fingerprint} {limit : Nat} {fault : Fault}
    (h : tellDuplicates settings f limit (entries.map .ok) = .error fault) :
    ∃ entry ∈ entries, settings.keyBytes entry.key = .error fault := by
  induction entries generalizing limit with
  | nil => cases limit <;> exact nomatch h
  | cons entry entries ih =>
    cases limit with
    | zero => exact nomatch h
    | succ limit =>
      rw [List.map_cons, tellDuplicates, Outcome.ok_bind, Outcome.bind_eq_error] at h
      rcases h with hbytes | ⟨bytes, -, h⟩
      · exact ⟨entry, List.mem_cons_self, hbytes⟩
      have hrest : ∃ limit, tellDuplicates settings f limit (entries.map .ok) = .error fault := by
        split at h
        · rcases Outcome.bind_eq_error.1 h with hrest | ⟨texts, -, hnone⟩
          · exact ⟨limit, hrest⟩
          · exact nomatch hnone
        · exact ⟨limit + 1, h⟩
      obtain ⟨limit', hrest⟩ := hrest
      obtain ⟨found, hfound, hfault⟩ := ih hrest
      exact ⟨found, List.mem_cons_of_mem _ hfound, hfault⟩

/-- Keys that all can be written are hashed unless their hash cannot be built, and that is told as a fault of the input. -/
theorem fault_of_hashKeys [HashLibrary] {fingerprints : List Fingerprint} {fault : Fault}
    (h : hashKeys settings fingerprints (entries.map .ok) = .error fault) :
    (∃ entry ∈ entries, settings.keyBytes entry.key = .error fault) ∨
      fault.kind = .invalidInput ∧ ∀ hash, PerfectHash.build fingerprints settings.signatureWidth ≠ .ok hash := by
  unfold hashKeys at h
  split at h
  · rename_i n hbuild
    have hnone : ∀ hash, PerfectHash.build fingerprints settings.signatureWidth ≠ .ok hash := by
      intro hash hok
      rw [hbuild] at hok
      exact nomatch hok
    split at h
    · rcases Outcome.bind_eq_error.1 h with htell | ⟨texts, -, hthrow⟩
      · exact .inl (fault_of_tellDuplicates htell)
      · cases hthrow
        exact .inr ⟨rfl, hnone⟩
    · cases h
      exact .inr ⟨rfl, hnone⟩
  · refine .inr ⟨PerfectHash.kind_of_build_eq_error h, ?_⟩
    intro hash hok
    rw [h] at hok
    exact nomatch hok

end Build

end FrozenTable
