import FrozenTable.Proofs.Lemmas.Separation
import FrozenTable.Proofs.Lemmas.Sharding

/-!
# The second pass puts every entry into its bucket

`Build.Arranged` says what a second pass that ended well has done: the entries stand in the order of their buckets, each bucket
has one of them, and the data is their records, one after the other. This holds for any cutting into shards.
-/

namespace FrozenTable

variable {κ ν : Type}

namespace Spread

/-- What is known of an entry that was taken in with a bucket and a record. -/
structure Takes (settings : Settings κ ν) (hash : PerfectHash) (entry : Entry κ ν) (arrival : Nat × Bytes) : Prop where
  value : settings.needValue entry = .ok ()
  bucket : ∃ bytes, settings.keyBytes entry.key = .ok bytes ∧ hash.slotOfBytes bytes = .ok (some arrival.1)
  record : settings.record entry = .ok arrival.2
  size : checkSize settings arrival.2.length = .ok ()

/-- A record that passes the check is smaller than 2^32 bytes. -/
theorem size_lt_of_checkSize {settings : Settings κ ν} {size : Nat} (h : checkSize settings size = .ok ()) :
    size < 0x100000000 := by
  unfold checkSize at h
  split at h
  · exact nomatch h
  split at h
  · exact nomatch h
  · rename_i hsize
    exact Nat.not_le.1 hsize

/-- Unless offsets are plain, a size that passed is on the line. -/
theorem fits_of_checkSize {settings : Settings κ ν} {size : Nat} (h : checkSize settings size = .ok ())
    (hplain : settings.offsetStorage ≠ .indexed) : settings.entryLine.fits size = true := by
  have hlt := size_lt_of_checkSize h
  unfold checkSize at h
  split at h
  · exact nomatch h
  · rename_i hfits
    rw [not_and, Decidable.not_not, Word64.signed_of_lt (by omega)] at hfits
    exact hfits hplain

/-- A bucket that was claimed is that of the key, and it was free. -/
theorem claim_eq_ok [Spelled κ] {settings : Settings κ ν} {hash : PerfectHash} {s : Spread} {key : κ} {bucket : Nat}
    (h : s.claim settings hash key = .ok bucket) :
    (∃ bytes, settings.keyBytes key = .ok bytes ∧ hash.slotOfBytes bytes = .ok (some bucket)) ∧
      s.holds bucket = .ok false := by
  simp only [claim, Outcome.bind_eq_ok] at h
  obtain ⟨bytes, hbytes, slot, hslot, h⟩ := h
  cases slot with
  | none => exact nomatch h
  | some b =>
    simp only [Outcome.bind_eq_ok] at h
    obtain ⟨held, hheld, h⟩ := h
    cases held with
    | true => exact nomatch h
    | false =>
      cases h
      exact ⟨⟨bytes, hbytes, hslot⟩, hheld⟩

/-- What a step that ended well has done. -/
theorem step_eq_ok [Spelled κ] {settings : Settings κ ν} {hash : PerfectHash} {p : ShardPlan} {s s' : Spread}
    {entry : Entry κ ν} (h : s.step settings hash p entry = .ok s') :
    ∃ arrival, Takes settings hash entry arrival ∧ s.holds arrival.1 = .ok false ∧ s.add p arrival.1 arrival.2 = .ok s' := by
  simp only [step, Outcome.bind_eq_ok] at h
  obtain ⟨_, hvalue, bucket, hclaim, record, hrecord, _, hsize, hadd⟩ := h
  obtain ⟨hbucket, hheld⟩ := claim_eq_ok hclaim
  exact ⟨(bucket, record), ⟨hvalue, hbucket, hrecord, hsize⟩, hheld, hadd⟩

/-- A pass that ended well has taken in every entry. -/
theorem holds_of_run [Spelled κ] {settings : Settings κ ν} {hash : PerfectHash} {p : ShardPlan} (hp : p.Covers)
    (hbuckets : p.buckets = hash.length) {entries : List (Entry κ ν)} {s : Spread}
    (h : run settings hash p (entries.map .ok) = .ok s) :
    ∃ arrivals, List.Forall₂ (Takes settings hash) entries arrivals ∧ Holds p s arrivals := by
  rw [run, List.foldlM_map] at h
  refine Outcome.foldlM_induction
    (P := fun done s => ∃ arrivals, List.Forall₂ (Takes settings hash) done arrivals ∧ Holds p s arrivals)
    ⟨[], List.Forall₂.nil, holds_empty p⟩ (fun done entry s s' hs hstep => ?_) h
  obtain ⟨arrivals, htakes, hs⟩ := hs
  obtain ⟨arrival, htake, hheld, hadd⟩ := step_eq_ok hstep
  obtain ⟨bytes, -, hbucket⟩ := htake.bucket
  refine ⟨arrivals ++ [arrival], List.rel_append htakes (List.Forall₂.cons htake List.Forall₂.nil), ?_⟩
  have hlt : arrival.1 < p.buckets := hbuckets ▸ PerfectHash.lt_of_slotOfBytes hbucket
  exact hs.add hp hadd hlt (hs.holds_eq hheld) (size_lt_of_checkSize htake.size)

/-- Arrivals that have all buckets can be put in the order of these. -/
theorem Holds.exists_sorted {p : ShardPlan} {s : Spread} {arrivals : List (Nat × Bytes)} (hs : Holds p s arrivals)
    (hcount : s.count = p.buckets) : ∃ sorted, Sorted p arrivals sorted := by
  have hsub : arrivals.map Prod.fst ⊆ List.range p.buckets := by
    intro b hb
    obtain ⟨a, ha, rfl⟩ := List.mem_map.1 hb
    exact List.mem_range.2 (hs.apart.bucket_lt a ha)
  have hperm : (arrivals.map Prod.fst).Perm (List.range p.buckets) := by
    refine (hs.apart.nodup.subperm hsub).perm_of_length_le ?_
    rw [List.length_range, List.length_map, ← hs.count_eq]
    exact Nat.le_of_eq hcount.symm
  have hfst : List.Forall₂ (fun (a : Nat × Bytes) b => a.1 = b) arrivals (arrivals.map Prod.fst) := by
    rw [List.forall₂_map_right_iff]
    exact List.forall₂_same.2 fun _ _ => rfl
  have hcomp : Relation.Comp (List.Forall₂ fun (a : Nat × Bytes) b => a.1 = b) List.Perm arrivals (List.range p.buckets) :=
    ⟨_, hfst, hperm⟩
  rw [List.forall₂_comp_perm_eq_perm_comp_forall₂] at hcomp
  obtain ⟨sorted, hsorted, hmap⟩ := hcomp
  refine ⟨sorted, hsorted.symm, ?_⟩
  rw [← List.forall₂_eq_eq_eq, List.forall₂_map_left_iff]
  exact hmap

/-- Totals that pass the check are those that were expected. -/
theorem checkTotals_eq_ok {p : ShardPlan} {dataSize : Nat} {s : Spread} (h : checkTotals p dataSize s = .ok ()) :
    s.count = p.buckets ∧ s.dataSize = dataSize := by
  unfold checkTotals at h
  split at h
  · exact nomatch h
  rename_i hcount
  split at h
  · exact nomatch h
  rename_i hsize
  exact ⟨Decidable.not_not.1 hcount, Decidable.not_not.1 hsize⟩

end Spread

namespace Build

/-- What a second pass that ended well has done with some entries: they stand in their buckets, one in each, and their records
are these. -/
structure Arranged (settings : Settings κ ν) (hash : PerfectHash) (entries slots : List (Entry κ ν)) (records : List Bytes) :
    Prop where
  perm : slots.Perm entries
  count_eq : slots.length = hash.length
  records_length : records.length = slots.length
  takes : ∀ (i : Nat) (hi : i < slots.length) (hi' : i < records.length),
    Spread.Takes settings hash slots[i] (i, records[i])

/-- However a second pass goes about it, the order of the entries and their records are told by the hash. -/
theorem Arranged.eq {settings settings' : Settings κ ν} {hash : PerfectHash} {entries slots slots' : List (Entry κ ν)}
    {records records' : List Bytes} (h : Arranged settings hash entries slots records)
    (h' : Arranged settings' hash entries slots' records') (hkey : settings.keyBytes = settings'.keyBytes)
    (hrecord : settings.record = settings'.record) : slots = slots' ∧ records = records' := by
  have hslots : slots = slots' := by
    refine List.ext_getElem (h.count_eq.trans h'.count_eq.symm) ?_
    intro i hi hi'
    have hmem : slots[i] ∈ slots' := h'.perm.mem_iff.2 (h.perm.mem_iff.1 (List.getElem_mem hi))
    obtain ⟨j, hj, heq⟩ := List.getElem_of_mem hmem
    obtain ⟨bytes, hbytes, hslot⟩ := (h.takes i hi (h.records_length ▸ hi)).bucket
    obtain ⟨bytes', hbytes', hslot'⟩ := (h'.takes j hj (h'.records_length ▸ hj)).bucket
    rw [heq, ← hkey, hbytes] at hbytes'
    cases hbytes'
    rw [hslot] at hslot'
    cases hslot'
    exact heq.symm
  subst hslots
  refine ⟨rfl, List.ext_getElem (h.records_length.trans h'.records_length.symm) fun i hi hi' => ?_⟩
  have hi'' : i < slots.length := h.records_length ▸ hi
  have hwritten := (h.takes i hi'' hi).record
  rw [hrecord, (h'.takes i hi'' hi').record] at hwritten
  exact (Except.ok.inj hwritten).symm

/-- A second pass that ended well met no fault among what it passed over. -/
theorem exists_entries_of_arrange [Spelled κ] {settings : Settings κ ν} {hash : PerfectHash} {dataSize : Nat}
    {found : List (Except Fault (Entry κ ν))} {arranged : Bytes × List Nat}
    (h : arrange settings hash dataSize found = .ok arranged) : ∃ entries : List (Entry κ ν), found = entries.map .ok := by
  obtain ⟨spread, hrun, -⟩ := Outcome.bind_eq_ok.1 h
  exact Outcome.exists_map_ok_of_foldlM hrun

/-- What a second pass that ended well has noted: an arrival for each entry, which can be put in the order of the buckets, and
the sizes of these. -/
theorem exists_spread_of_arrange [Spelled κ] {settings : Settings κ ν} {hash : PerfectHash} {dataSize : Nat}
    {entries : List (Entry κ ν)} {data : Bytes} {sizes : List Nat}
    (h : arrange settings hash dataSize (entries.map .ok) = .ok (data, sizes)) :
    ∃ spread arrivals sorted, List.Forall₂ (Spread.Takes settings hash) entries arrivals ∧
      Spread.Holds (.of hash.length dataSize settings.shardSize) spread arrivals ∧
      Spread.Sorted (.of hash.length dataSize settings.shardSize) arrivals sorted ∧
      spread.gather (.of hash.length dataSize settings.shardSize) = .ok data ∧
      sizes = (sorted.map Prod.snd).map List.length ∧ dataSize = sizes.sum := by
  simp only [arrange, Outcome.bind_eq_ok, Outcome.pure_eq_ok] at h
  obtain ⟨spread, hrun, _, hchecked, gathered, hgather, hresult⟩ := h
  obtain ⟨arrivals, htakes, hs⟩ := Spread.holds_of_run (ShardPlan.covers_of hash.length dataSize settings.shardSize) rfl hrun
  obtain ⟨htotal, hsize⟩ := Spread.checkTotals_eq_ok hchecked
  obtain ⟨sorted, hsorted⟩ := hs.exists_sorted htotal
  have hsizes : (spread.sizes.toList.take hash.length).map (·.toNat) = (sorted.map Prod.snd).map List.length :=
    hs.sizes_eq_map hsorted
  rw [hsizes, Prod.mk.injEq] at hresult
  obtain ⟨rfl, rfl⟩ := hresult
  refine ⟨spread, arrivals, sorted, htakes, hs, hsorted, hgather, rfl, ?_⟩
  have hperm := (hsorted.perm.symm.map Prod.snd).map List.length
  rw [← hsize, hs.dataSize_eq, ← hperm.sum_nat, List.map_map]
  rfl

/-- What a second pass that ended well has made of its entries. That the notes of shards tell buckets by 32 bits matters for the
data only. -/
theorem sorted_of_arrange [Spelled κ] {settings : Settings κ ν} {hash : PerfectHash} {dataSize : Nat}
    {entries : List (Entry κ ν)} {data : Bytes} {sizes : List Nat}
    (h : arrange settings hash dataSize (entries.map .ok) = .ok (data, sizes)) :
    ∃ slots records, Arranged settings hash entries slots records ∧ (hash.length < 0x100000000 → data = records.flatten) ∧
      sizes = records.map List.length ∧ dataSize = sizes.sum := by
  obtain ⟨spread, arrivals, sorted, htakes, hs, hsorted, hgather, hsizes, hsum⟩ := exists_spread_of_arrange h
  have hcomp : Relation.Comp (List.Forall₂ (Spread.Takes settings hash)) List.Perm entries sorted :=
    ⟨arrivals, htakes, hsorted.perm.symm⟩
  rw [List.forall₂_comp_perm_eq_perm_comp_forall₂] at hcomp
  obtain ⟨slots, hslots, htakes'⟩ := hcomp
  have hlength : slots.length = sorted.length := htakes'.length_eq
  refine ⟨slots, sorted.map Prod.snd, ⟨hslots.symm, ?_, ?_, fun i hi _ => ?_⟩, fun hcount => ?_, hsizes, hsum⟩
  · exact hlength.trans hsorted.length_eq
  · rw [List.length_map, hlength]
  · have hi' : i < sorted.length := hlength ▸ hi
    have htake := htakes'.get hi hi'
    have hfst := hsorted.getElem_fst hi'
    rw [List.get_eq_getElem, List.get_eq_getElem] at htake
    rw [List.getElem_map]
    have hpair : sorted[i] = (i, sorted[i].2) := Prod.ext hfst rfl
    rw [hpair] at htake
    exact htake
  · rw [hs.gather_eq (ShardPlan.covers_of hash.length dataSize settings.shardSize) hcount hsorted, Except.ok.injEq] at hgather
    exact hgather.symm

/-- The data of a second pass that ended well is made of the records in the order of their buckets. -/
theorem arranged_of_arrange [Spelled κ] {settings : Settings κ ν} {hash : PerfectHash} {dataSize : Nat}
    {entries : List (Entry κ ν)} {data : Bytes} {sizes : List Nat}
    (h : arrange settings hash dataSize (entries.map .ok) = .ok (data, sizes)) (hcount : hash.length < 0x100000000) :
    ∃ slots records, Arranged settings hash entries slots records ∧ data = records.flatten ∧
      sizes = records.map List.length ∧ dataSize = sizes.sum := by
  obtain ⟨slots, records, harranged, hdata, hsizes, hsum⟩ := sorted_of_arrange h
  exact ⟨slots, records, harranged, hdata hcount, hsizes, hsum⟩

end Build

end FrozenTable
