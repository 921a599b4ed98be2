import FrozenTable.Proofs.Theorems.InMemory

/-!
# Ranges of buckets and places in them

The number of ranges comes from two quotients that are both rounded up, the buckets by the ranges that are wanted and the buckets
by the length that this gives. Whatever the numbers, the ranges take up all buckets, one after the other, with none left out,
none in two of them and none of them empty. What is noted of a bucket is its place in its range, as a word of 32 bits; whether
the bucket can be told from that is a question of how long the ranges are.
-/

namespace FrozenTable.ShardPlan

/-! ## Ranges -/

/-- How many ranges are wanted for data of a size: one for each full shard and one more, but not too many. -/
def wanted (dataSize shardSize : Nat) : Nat :=
  min maxShards (1 + dataSize / max shardSize 1)

theorem wanted_pos (dataSize shardSize : Nat) : 0 < wanted dataSize shardSize :=
  Nat.lt_min.2 ⟨by decide, Nat.lt_add_right _ Nat.one_pos⟩

/-- Ranges are no longer than a bound exactly when as many as are wanted reach over all buckets at that length. -/
theorem rangeSize_le_iff (buckets dataSize shardSize : Nat) {bound : Nat} (hbound : 0 < bound) :
    (of buckets dataSize shardSize).rangeSize ≤ bound ↔ buckets ≤ bound * wanted dataSize shardSize := by
  have hsize : (of buckets dataSize shardSize).rangeSize = max (divUp buckets (wanted dataSize shardSize)) 1 := rfl
  rw [hsize, Nat.max_le, divUp_le_iff (wanted_pos dataSize shardSize)]
  exact and_iff_left hbound

/-- There are no more ranges than are wanted: that many reach over all buckets. -/
theorem shards_le_wanted (buckets dataSize shardSize : Nat) :
    (of buckets dataSize shardSize).shards ≤ wanted dataSize shardSize := by
  have hpos := (covers_of buckets dataSize shardSize).rangeSize_pos
  refine Nat.max_le.2 ⟨(divUp_le_iff hpos).2 ?_, wanted_pos dataSize shardSize⟩
  rw [Nat.mul_comm]
  exact (rangeSize_le_iff buckets dataSize shardSize hpos).1 (Nat.le_refl _)

/-- The ranges of a plan are a partition of its buckets, in order. -/
structure Partitions (p : ShardPlan) : Prop where
  shards_pos : 1 ≤ p.shards
  shards_le : p.shards ≤ maxShards
  shardOf_lt : ∀ bucket < p.buckets, p.shardOf bucket < p.shards
  start_first : p.start 0 = 0
  /-- Each range ends where the next one starts. -/
  stop_eq_start : ∀ shard, shard + 1 < p.shards → p.stop shard = p.start (shard + 1)
  stop_last : p.stop (p.shards - 1) = p.buckets
  existsUnique : ∀ bucket < p.buckets, ∃! shard, shard < p.shards ∧ p.start shard ≤ bucket ∧ bucket < p.stop shard
  /-- The buckets of the ranges, one range after the other, are all buckets in order. -/
  flatMap_eq : ((List.range p.shards).flatMap fun shard => List.range' (p.start shard) (p.stop shard - p.start shard)) =
    List.range p.buckets
  start_lt_stop : 0 < p.buckets → ∀ shard < p.shards, p.start shard < p.stop shard

section

variable {buckets dataSize shardSize shard : Nat}

/-- No range starts behind the buckets, as fewer ranges would reach over them then. Only the first range may start at the end of
them, where there are none. -/
theorem start_lt (h : shard < (of buckets dataSize shardSize).shards) (hsome : 0 < shard ∨ 0 < buckets) :
    (of buckets dataSize shardSize).start shard < buckets := by
  have hpos := (covers_of buckets dataSize shardSize).rangeSize_pos
  rcases lt_max_iff.1 h with hlt | hlt
  · rw [start, ← Nat.not_le, ← divUp_le_iff hpos]
    exact Nat.not_le.2 hlt
  · have hfirst := Nat.lt_one_iff.1 hlt
    rw [hfirst, start, Nat.zero_mul]
    omega

theorem stop_eq_start_succ (h : shard + 1 < (of buckets dataSize shardSize).shards) :
    (of buckets dataSize shardSize).stop shard = (of buckets dataSize shardSize).start (shard + 1) := by
  have hstart := start_lt h (.inl (Nat.succ_pos shard))
  rw [start, Nat.succ_mul] at hstart ⊢
  exact Nat.min_eq_left (Nat.le_of_lt hstart)

theorem start_lt_stop (hbuckets : 0 < buckets) (h : shard < (of buckets dataSize shardSize).shards) :
    (of buckets dataSize shardSize).start shard < (of buckets dataSize shardSize).stop shard :=
  Nat.lt_min.2 ⟨Nat.lt_add_of_pos_right (covers_of buckets dataSize shardSize).rangeSize_pos, start_lt h (.inr hbuckets)⟩

end

section

variable {p : ShardPlan}

theorem Covers.stop_last (hp : p.Covers) (hshards : 1 ≤ p.shards) : p.stop (p.shards - 1) = p.buckets := by
  have hend : p.start (p.shards - 1) + p.rangeSize = p.shards * p.rangeSize := by
    rw [start, ← Nat.succ_mul, Nat.succ_eq_add_one, Nat.sub_add_cancel hshards]
  rw [stop, hend]
  exact Nat.min_eq_right hp.buckets_le

/-- Every bucket is in the range of its shard and in no other one. -/
theorem Covers.existsUnique (hp : p.Covers) {bucket : Nat} (h : bucket < p.buckets) :
    ∃! shard, shard < p.shards ∧ p.start shard ≤ bucket ∧ bucket < p.stop shard := by
  refine ⟨p.shardOf bucket, ⟨hp.shardOf_lt h, hp.mem_range h⟩, ?_⟩
  rintro shard ⟨-, hlow, hhigh⟩
  exact (shardOf_eq hlow hhigh).symm

/-- The buckets of the ranges are the pieces that the ranges cut all buckets into. -/
theorem Covers.flatMap_eq (hp : p.Covers) :
    ((List.range p.shards).flatMap fun shard => List.range' (p.start shard) (p.stop shard - p.start shard)) =
      List.range p.buckets := by
  have hpiece (shard : Nat) : List.range' (p.start shard) (p.stop shard - p.start shard) =
      ((List.range p.buckets).drop (p.start shard)).take (p.stop shard - p.start shard) := by
    have hstop : p.stop shard ≤ p.buckets := Nat.min_le_right _ _
    rw [List.range_eq_range', List.drop_range', List.take_range'_of_length_ge (by omega), Nat.zero_add, Nat.mul_one]
  rw [List.flatMap_def]
  simp only [hpiece]
  exact Spread.flatten_ranges hp List.length_range

end

/-- However many buckets there are, however long the data is and however long shards are meant to be, the ranges of the plan are
a partition of the buckets. -/
theorem ranges_partition_buckets (buckets dataSize shardSize : Nat) : (of buckets dataSize shardSize).Partitions := by
  have hcovers := covers_of buckets dataSize shardSize
  have hshards : 1 ≤ (of buckets dataSize shardSize).shards := Nat.le_max_right _ _
  exact {
    shards_pos := hshards
    shards_le := Nat.le_trans (shards_le_wanted buckets dataSize shardSize) (Nat.min_le_left _ _)
    shardOf_lt := fun _ => hcovers.shardOf_lt
    start_first := Nat.zero_mul _
    stop_eq_start := fun _ => stop_eq_start_succ
    stop_last := hcovers.stop_last hshards
    existsUnique := fun _ => hcovers.existsUnique
    flatMap_eq := hcovers.flatMap_eq
    start_lt_stop := fun hbuckets _ => start_lt_stop hbuckets }

/-- Six ranges are wanted for ten buckets, but five of two buckets each reach over them. -/
example : of 10 125 25 = ⟨10, 2, 5⟩ := by decide

/-! ## Places -/

/-- What is noted of a bucket: its place in its range, as a word of 32 bits. -/
def place (p : ShardPlan) (bucket : Nat) : UInt32 :=
  UInt32.ofNat (bucket - p.start (p.shardOf bucket))

/-- The places of all buckets are words of 32 bits. -/
def PlacesFit (p : ShardPlan) : Prop :=
  ∀ bucket < p.buckets, bucket - p.start (p.shardOf bucket) < 0x100000000

/-- Every bucket is read back from its range and what is noted of it. -/
def PlacesTell (p : ShardPlan) : Prop :=
  ∀ bucket < p.buckets, p.start (p.shardOf bucket) + (p.place bucket).toNat = bucket

/-- No two buckets of a range are noted as the same. -/
def PlacesDiffer (p : ShardPlan) : Prop :=
  ∀ bucket < p.buckets, ∀ other < p.buckets, p.shardOf bucket = p.shardOf other → p.place bucket = p.place other →
    bucket = other

/-- What a pass has noted for the buckets that it was led to, in the order of their arrival. -/
structure Notes (p : ShardPlan) (s : Spread) (arrived : List Nat) : Prop where
  nodup : arrived.Nodup
  bucket_lt : ∀ bucket ∈ arrived, bucket < p.buckets
  counts_eq : ∀ shard < p.shards, s.counts[shard]? = some (arrived.filter fun bucket => p.shardOf bucket == shard).length
  /-- The places of the buckets of a shard stand behind one another, from the start of its range on. -/
  places_eq : ∀ shard i bucket, (arrived.filter fun bucket => p.shardOf bucket == shard)[i]? = some bucket →
    s.places[p.start shard + i]? = some (p.place bucket)

section

variable {p : ShardPlan} {s : Spread} {bucket : Nat}

theorem notes_of_holds {arrivals : List (Nat × Bytes)} (hs : Spread.Holds p s arrivals) : p.Notes s (arrivals.map Prod.fst) := by
  have hfilter (shard : Nat) : ((arrivals.map Prod.fst).filter fun bucket => p.shardOf bucket == shard) =
      (Spread.arrivalsOf p shard arrivals).map Prod.fst := List.filter_map
  refine ⟨hs.apart.nodup, ?_, ?_, ?_⟩
  · intro bucket hbucket
    obtain ⟨arrival, harrival, rfl⟩ := List.mem_map.1 hbucket
    exact hs.apart.bucket_lt arrival harrival
  · intro shard hshard
    rw [hfilter, List.length_map]
    exact hs.counts_eq shard hshard
  · intro shard i bucket hbucket
    rw [hfilter, List.getElem?_map, Option.map_eq_some_iff] at hbucket
    obtain ⟨arrival, harrival, rfl⟩ := hbucket
    obtain ⟨hi, rfl⟩ := List.getElem?_eq_some_iff.1 harrival
    rw [hs.places_eq shard i hi, place, (Spread.mem_arrivalsOf.1 (List.getElem_mem hi)).2]

/-- A pass that ended well has noted its place for each bucket that an entry led to. -/
theorem Covers.exists_notes {κ ν : Type} [Spelled κ] (hp : p.Covers) {settings : Settings κ ν} {hash : PerfectHash}
    (hbuckets : p.buckets = hash.length) {found : List (Except Fault (Entry κ ν))}
    (h : Spread.run settings hash p found = .ok s) :
    ∃ (entries : List (Entry κ ν)) (arrived : List Nat), found = entries.map .ok ∧
      entries.mapM (fun entry => settings.keyBytes entry.key >>= hash.slotOfBytes) = .ok (arrived.map some) ∧
      p.Notes s arrived := by
  obtain ⟨entries, rfl⟩ := Outcome.exists_map_ok_of_foldlM h
  obtain ⟨arrivals, htakes, hs⟩ := Spread.holds_of_run hp hbuckets h
  refine ⟨entries, arrivals.map Prod.fst, rfl, ?_, notes_of_holds hs⟩
  rw [Outcome.mapM_eq_ok, List.map_map, List.map_map, ← List.forall₂_eq_eq_eq, List.forall₂_map_left_iff,
    List.forall₂_map_right_iff]
  refine htakes.imp ?_
  intro entry arrival htake
  obtain ⟨bytes, hbytes, hslot⟩ := htake.bucket
  rw [hbytes]
  exact hslot

theorem toNat_place (h : bucket - p.start (p.shardOf bucket) < 0x100000000) :
    (p.place bucket).toNat = bucket - p.start (p.shardOf bucket) := by
  rw [place, UInt32.toNat_ofNat', Nat.mod_eq_of_lt h]

theorem Covers.placesFit (hp : p.Covers) (hsize : p.rangeSize ≤ 0x100000000) : p.PlacesFit := by
  intro bucket hbucket
  have hrange := hp.mem_range hbucket
  have hstop : p.stop (p.shardOf bucket) ≤ p.start (p.shardOf bucket) + p.rangeSize := Nat.min_le_left _ _
  omega

/-- Only what fits is read back, as nothing else is noted. -/
theorem Covers.placesTell_iff (hp : p.Covers) : p.PlacesTell ↔ p.PlacesFit := by
  refine forall₂_congr fun bucket hbucket => ?_
  have hrange := hp.mem_range hbucket
  constructor
  · intro hback
    have hlt := (p.place bucket).toNat_lt
    omega
  · intro hfits
    rw [toNat_place hfits]
    omega

theorem PlacesTell.placesDiffer (h : p.PlacesTell) : p.PlacesDiffer := by
  intro bucket hbucket other hother hshard hplace
  rw [← h bucket hbucket, ← h other hother, hshard, hplace]

/-- In a range of more buckets than 32 bits can tell apart the places start over. -/
theorem place_starts_over (hsize : 0x100000000 < p.rangeSize) :
    p.shardOf 0x100000000 = p.shardOf 0 ∧ p.place 0x100000000 = p.place 0 := by
  have hlast : p.shardOf 0x100000000 = 0 := Nat.div_eq_of_lt hsize
  have hfirst : p.shardOf 0 = 0 := Nat.zero_div _
  rw [place, place, hlast, hfirst, start, Nat.zero_mul]
  exact ⟨rfl, rfl⟩

end

/-- Where no two buckets of a range are noted as the same, no range is too long. -/
theorem PlacesDiffer.le {buckets dataSize shardSize : Nat} (h : (of buckets dataSize shardSize).PlacesDiffer) :
    buckets ≤ 0x100000000 * wanted dataSize shardSize := by
  rw [← rangeSize_le_iff buckets dataSize shardSize (by decide), ← Nat.not_lt]
  intro hlong
  -- so long a range has the bucket at which the places start over
  have hmany : 0x100000000 * wanted dataSize shardSize < buckets := by
    rwa [← Nat.not_le, rangeSize_le_iff buckets dataSize shardSize (by decide), Nat.not_le] at hlong
  have hlast : 0x100000000 < buckets :=
    Nat.lt_of_le_of_lt (Nat.le_mul_of_pos_right _ (wanted_pos dataSize shardSize)) hmany
  obtain ⟨hshard, hplace⟩ := place_starts_over hlong
  exact absurd (h 0x100000000 hlast 0 (Nat.zero_lt_of_lt hlast) hshard hplace) (by decide)

/-- A pass that ended well has noted each bucket that an entry led to, from the start of its range on and in the order of
arrival, by its place in the range. That the places of all buckets are words of 32 bits, that every bucket is read back and that
no two buckets of a range are noted as the same come to one condition: there are no more than 2^32 buckets for each range that
is wanted. No plan sees to that. -/
theorem places_tell_buckets_iff (buckets dataSize shardSize : Nat) :
    (∀ {κ ν : Type} [Spelled κ] (settings : Settings κ ν) (hash : PerfectHash) (found : List (Except Fault (Entry κ ν)))
      (s : Spread), hash.length = buckets → Spread.run settings hash (of buckets dataSize shardSize) found = .ok s →
      ∃ (entries : List (Entry κ ν)) (arrived : List Nat), found = entries.map .ok ∧
        entries.mapM (fun entry => settings.keyBytes entry.key >>= hash.slotOfBytes) = .ok (arrived.map some) ∧
        (of buckets dataSize shardSize).Notes s arrived) ∧
    ((of buckets dataSize shardSize).PlacesFit ↔ buckets ≤ 0x100000000 * wanted dataSize shardSize) ∧
    ((of buckets dataSize shardSize).PlacesTell ↔ buckets ≤ 0x100000000 * wanted dataSize shardSize) ∧
    ((of buckets dataSize shardSize).PlacesDiffer ↔ buckets ≤ 0x100000000 * wanted dataSize shardSize) := by
  have hcovers := covers_of buckets dataSize shardSize
  have hfit : buckets ≤ 0x100000000 * wanted dataSize shardSize → (of buckets dataSize shardSize).PlacesFit := fun hfew =>
    hcovers.placesFit ((rangeSize_le_iff buckets dataSize shardSize (by decide)).2 hfew)
  refine ⟨?_, ⟨?_, hfit⟩, ⟨?_, ?_⟩, ⟨PlacesDiffer.le, ?_⟩⟩
  · intro κ ν _ settings hash found s hlength hrun
    exact hcovers.exists_notes hlength.symm hrun
  · intro h
    exact (hcovers.placesTell_iff.2 h).placesDiffer.le
  · intro h
    exact h.placesDiffer.le
  · intro hfew
    exact hcovers.placesTell_iff.2 (hfit hfew)
  · intro hfew
    exact (hcovers.placesTell_iff.2 (hfit hfew)).placesDiffer

/-- Two entries, of the second bucket and of the first, in ranges of one bucket each. -/
theorem places_of_two :
    (∃ s, Spread.run (Settings.longs .explicit .fixed) Build.hashOfTwo (of 2 32 0) (Build.entriesOfTwo.map .ok) = .ok s ∧
      ∃ arrived, (of 2 32 0).Notes s arrived) ∧
    (of 2 32 0).PlacesTell := by
  have hrun := Outcome.eq_ok_get
    (show (Spread.run (Settings.longs .explicit .fixed) Build.hashOfTwo (of 2 32 0)
      (Build.entriesOfTwo.map .ok)).toOption.isSome = true by decide +kernel)
  obtain ⟨hnotes, -, htell, -⟩ := places_tell_buckets_iff 2 32 0
  obtain ⟨_, arrived, -, -, harrived⟩ := hnotes _ _ _ _ rfl hrun
  exact ⟨⟨_, hrun, arrived, harrived⟩, htell.2 (by decide)⟩

/-- One bucket more than 32 bits can tell apart, for records of eight bytes in one range: the last bucket is noted as the first
one is, and is not told by that. -/
theorem last_place_is_first :
    ∃ p, p = of 4294967297 34359738376 1000000000000 ∧ 4294967296 < p.buckets ∧
      ¬ 4294967296 - p.start (p.shardOf 4294967296) < 0x100000000 ∧
      p.start (p.shardOf 4294967296) + (p.place 4294967296).toNat ≠ 4294967296 ∧
      p.shardOf 4294967296 = p.shardOf 0 ∧ p.place 4294967296 = p.place 0 :=
  ⟨_, rfl, by decide⟩

end FrozenTable.ShardPlan
