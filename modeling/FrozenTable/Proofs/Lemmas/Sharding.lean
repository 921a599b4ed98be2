import FrozenTable.Proofs.Lemmas.Offsets

/-!
# Records come out in the order of their buckets

`Spread.Holds` says what is known of records on their way, given the list of those that arrived: where their sizes and places
are noted and what each shard has. It survives every record with a bucket of its own. When all buckets have their record, each
shard gives its records in the order of their buckets, and so does the whole, however the buckets are cut into ranges.
-/

namespace FrozenTable

/-! ## Ranges of buckets -/

/-- A quotient rounded up is the least number that reaches as far. -/
theorem divUp_le_iff {a b c : Nat} (hb : 0 < b) : divUp a b ≤ c ↔ a ≤ c * b := by
  rw [divUp, ← Nat.lt_succ_iff, Nat.div_lt_iff_lt_mul hb, Nat.succ_mul]
  omega

/-- The parts that a size is divided into, rounded up, hold the whole. -/
theorem le_divUp_mul (a : Nat) {b : Nat} (hb : 0 < b) : a ≤ divUp a b * b :=
  (divUp_le_iff hb).1 (Nat.le_refl _)

namespace ShardPlan

/-- The ranges of a plan are not empty and reach as far as the buckets. -/
structure Covers (p : ShardPlan) : Prop where
  rangeSize_pos : 0 < p.rangeSize
  buckets_le : p.buckets ≤ p.shards * p.rangeSize

/-- The ranges of a plan that is made for a table hold all buckets. -/
theorem covers_of (buckets dataSize shardSize : Nat) : (of buckets dataSize shardSize).Covers := by
  have hpos : 0 < (of buckets dataSize shardSize).rangeSize := by
    simp only [of]
    omega
  refine ⟨hpos, Nat.le_trans (le_divUp_mul buckets hpos) ?_⟩
  exact Nat.mul_le_mul_right _ (Nat.le_max_left _ _)

variable {p : ShardPlan}

/-- Each bucket is in one of the shards. -/
theorem Covers.shardOf_lt (hp : p.Covers) {bucket : Nat} (h : bucket < p.buckets) : p.shardOf bucket < p.shards := by
  rw [shardOf, Nat.div_lt_iff_lt_mul hp.rangeSize_pos]
  exact Nat.lt_of_lt_of_le h hp.buckets_le

/-- A bucket of a shard is in the range of the shard. -/
theorem Covers.mem_range (hp : p.Covers) {bucket : Nat} (h : bucket < p.buckets) :
    p.start (p.shardOf bucket) ≤ bucket ∧ bucket < p.stop (p.shardOf bucket) := by
  have hlow := Nat.div_mul_le_self bucket p.rangeSize
  have hhigh := Nat.lt_div_mul_add (a := bucket) hp.rangeSize_pos
  simp only [start, stop, shardOf]
  omega

/-- A bucket in the range of a shard is a bucket of the shard. -/
theorem shardOf_eq {bucket shard : Nat} (hlow : p.start shard ≤ bucket) (hhigh : bucket < p.stop shard) :
    p.shardOf bucket = shard := by
  unfold start at hlow
  unfold stop start at hhigh
  rw [shardOf]
  refine Nat.div_eq_of_lt_le hlow ?_
  rw [Nat.add_mul]
  omega

/-- The ranges of two shards have no place in common. -/
theorem start_add_ne {shard shard' i i' : Nat} (h : shard ≠ shard') (hi : i < p.rangeSize) (hi' : i' < p.rangeSize) :
    p.start shard + i ≠ p.start shard' + i' := by
  unfold start
  rcases Nat.lt_or_gt_of_ne h with hlt | hgt
  · have := Nat.mul_le_mul_right p.rangeSize (show shard + 1 ≤ shard' from hlt)
    rw [Nat.add_mul] at this
    omega
  · have := Nat.mul_le_mul_right p.rangeSize (show shard' + 1 ≤ shard from hgt)
    rw [Nat.add_mul] at this
    omega

/-- No shard has more buckets than a range. -/
theorem stop_sub_start_le (shard : Nat) : p.stop shard - p.start shard ≤ p.rangeSize := by
  unfold stop
  omega

end ShardPlan

namespace Spread

/-! ## Arrays that are looked into and written with care -/

/-- A place that can be read is one of the array. -/
theorem get_eq_ok {α : Type} {xs : Array α} {i : Nat} {x : α} : get xs i = .ok x ↔ xs[i]? = some x := by
  unfold get
  cases xs[i]? <;> simp

/-- A place that can be written is one of the array. -/
theorem put_eq_ok {α : Type} {xs ys : Array α} {i : Nat} {x : α} :
    put xs i x = .ok ys ↔ i < xs.size ∧ xs.setIfInBounds i x = ys := by
  unfold put
  split
  · rename_i h
    simp [h]
  · rename_i h
    simp [h]

/-! ## Arrivals -/

/-- The arrivals whose buckets belong to a shard. -/
def arrivalsOf (p : ShardPlan) (shard : Nat) (arrivals : List (Nat × Bytes)) : List (Nat × Bytes) :=
  arrivals.filter fun a => p.shardOf a.1 == shard

/-- What arrives in a shard is what arrives with a bucket of it. -/
theorem mem_arrivalsOf {p : ShardPlan} {shard : Nat} {arrivals : List (Nat × Bytes)} {a : Nat × Bytes} :
    a ∈ arrivalsOf p shard arrivals ↔ a ∈ arrivals ∧ p.shardOf a.1 = shard := by
  rw [arrivalsOf, List.mem_filter, beq_iff_eq]

/-- What arrives last comes last in its own shard and nowhere else. -/
theorem arrivalsOf_append (p : ShardPlan) (shard : Nat) (arrivals : List (Nat × Bytes)) (a : Nat × Bytes) :
    arrivalsOf p shard (arrivals ++ [a]) =
      arrivalsOf p shard arrivals ++ if p.shardOf a.1 = shard then [a] else [] := by
  rw [arrivalsOf, List.filter_append, List.filter_singleton, arrivalsOf]
  by_cases h : p.shardOf a.1 = shard
  · rw [beq_iff_eq.2 h, if_pos h]
    rfl
  · rw [beq_eq_false_iff_ne.2 h, if_neg h]
    rfl

/-- Arrivals with buckets of their own, in front of the last bucket and with records whose sizes can be noted. -/
structure Apart (p : ShardPlan) (arrivals : List (Nat × Bytes)) : Prop where
  nodup : (arrivals.map Prod.fst).Nodup
  bucket_lt : ∀ a ∈ arrivals, a.1 < p.buckets
  size_lt : ∀ a ∈ arrivals, a.2.length < 0x100000000

namespace Apart

variable {p : ShardPlan} {arrivals : List (Nat × Bytes)}

/-- What arrives apart arrives apart in each shard. -/
theorem nodup_arrivalsOf (h : Apart p arrivals) (shard : Nat) : ((arrivalsOf p shard arrivals).map Prod.fst).Nodup :=
  h.nodup.sublist (List.filter_sublist.map _)

/-- What arrives in a shard has a bucket in the range of the shard. -/
theorem mem_range (h : Apart p arrivals) (hp : p.Covers) {shard : Nat} {a : Nat × Bytes}
    (ha : a ∈ arrivalsOf p shard arrivals) :
    p.start shard ≤ a.1 ∧ a.1 < p.stop shard := by
  obtain ⟨hmem, rfl⟩ := mem_arrivalsOf.1 ha
  exact hp.mem_range (h.bucket_lt a hmem)

/-- No more arrivals belong to a shard than its range has buckets. -/
theorem length_arrivalsOf_le (h : Apart p arrivals) (hp : p.Covers) (shard : Nat) :
    (arrivalsOf p shard arrivals).length ≤ p.stop shard - p.start shard := by
  have hsub : (arrivalsOf p shard arrivals).map Prod.fst ⊆ List.range' (p.start shard) (p.stop shard - p.start shard) := by
    intro b hb
    obtain ⟨a, ha, rfl⟩ := List.mem_map.1 hb
    have := h.mem_range hp ha
    rw [List.mem_range'_1]
    omega
  have hle := ((h.nodup_arrivalsOf shard).subperm hsub).length_le
  rwa [List.length_map, List.length_range'] at hle

/-- When every bucket has its arrival, as many belong to a shard as its range has buckets. -/
theorem length_arrivalsOf (h : Apart p arrivals) (hp : p.Covers) (hall : ∀ b < p.buckets, b ∈ arrivals.map Prod.fst)
    (shard : Nat) : (arrivalsOf p shard arrivals).length = p.stop shard - p.start shard := by
  refine Nat.le_antisymm (h.length_arrivalsOf_le hp shard) ?_
  have hsub : List.range' (p.start shard) (p.stop shard - p.start shard) ⊆ (arrivalsOf p shard arrivals).map Prod.fst := by
    intro b hb
    rw [List.mem_range'_1] at hb
    have hstop : p.stop shard ≤ p.buckets := Nat.min_le_right _ _
    obtain ⟨a, ha, rfl⟩ := List.mem_map.1 (hall b (by omega))
    exact List.mem_map.2 ⟨a, mem_arrivalsOf.2 ⟨ha, ShardPlan.shardOf_eq hb.1 (by omega)⟩, rfl⟩
  have hnodup : (List.range' (p.start shard) (p.stop shard - p.start shard)).Nodup := List.nodup_range'
  have hle := (hnodup.subperm hsub).length_le
  rwa [List.length_map, List.length_range'] at hle

end Apart

/-- What is known of records on their way after some arrivals. -/
structure Holds (p : ShardPlan) (s : Spread) (arrivals : List (Nat × Bytes)) : Prop where
  apart : Apart p arrivals
  count_eq : s.count = arrivals.length
  dataSize_eq : s.dataSize = (arrivals.map fun a => a.2.length).sum
  seen_size : s.seen.words.size = wordsFor p.buckets
  seen_iff : ∀ b, bitAt s.seen.words b = true ↔ b ∈ arrivals.map Prod.fst
  sizes_size : s.sizes.size = max p.buckets 1
  places_size : s.places.size = max p.buckets 1
  sizes_eq : ∀ a ∈ arrivals, s.sizes[a.1]? = some (UInt32.ofNat a.2.length)
  counts_eq : ∀ shard < p.shards, s.counts[shard]? = some (arrivalsOf p shard arrivals).length
  shards_eq : ∀ shard < p.shards, s.shards[shard]? = some ((arrivalsOf p shard arrivals).map Prod.snd).reverse
  /-- The places of a shard are noted by arrival, from the start of its range on. -/
  places_eq : ∀ (shard i : Nat) (hi : i < (arrivalsOf p shard arrivals).length),
    s.places[p.start shard + i]? = some (UInt32.ofNat ((arrivalsOf p shard arrivals)[i].1 - p.start shard))

/-- Before anything arrives nothing is held. -/
theorem holds_empty (p : ShardPlan) : Holds p (empty p) [] where
  apart := ⟨List.nodup_nil, by simp, by simp⟩
  count_eq := rfl
  dataSize_eq := rfl
  seen_size := by simp [empty, BitSet.clear]
  seen_iff b := by simp [empty, BitSet.clear, bitAt_replicate]
  sizes_size := by simp [empty]
  places_size := by simp [empty]
  sizes_eq := by simp
  counts_eq shard hshard := by simp [empty, hshard, arrivalsOf]
  shards_eq shard hshard := by simp [empty, hshard, arrivalsOf]
  places_eq shard i hi := absurd hi (Nat.not_lt_zero i)

/-- A bucket that is not taken has not arrived. -/
theorem Holds.holds_eq {p : ShardPlan} {s : Spread} {arrivals : List (Nat × Bytes)} (hs : Holds p s arrivals) {bucket : Nat}
    (h : s.holds bucket = .ok false) : bucket ∉ arrivals.map Prod.fst := by
  unfold holds at h
  split at h
  · rename_i bit hbit
    cases h
    rw [← hs.seen_iff, (BitSet.get?_eq_some.1 hbit).2]
    exact Bool.false_ne_true
  · exact nomatch h

/-- A bucket that has not arrived is not taken. -/
theorem Holds.holds_of_not_mem {p : ShardPlan} {s : Spread} {arrivals : List (Nat × Bytes)} (hs : Holds p s arrivals)
    {bucket : Nat} (hlt : bucket < p.buckets) (h : bucket ∉ arrivals.map Prod.fst) : s.holds bucket = .ok false := by
  have hin : bucket / 64 < s.seen.words.size := by
    rw [hs.seen_size]
    exact div_lt_wordsFor hlt
  rw [← hs.seen_iff, Bool.not_eq_true] at h
  rw [holds, BitSet.get?_eq_some.2 ⟨hin, h⟩]

theorem getElem?_setIfInBounds_of_eq {α : Type} {xs : Array α} {i j : Nat} {x : α} (hi : i < xs.size) (h : j = i) :
    (xs.setIfInBounds i x)[j]? = some x := by
  subst h
  rw [Array.getElem?_setIfInBounds_self_of_lt hi]

theorem getElem?_setIfInBounds_of_ne {α : Type} {xs : Array α} {i j : Nat} {x : α} (h : j ≠ i) :
    (xs.setIfInBounds i x)[j]? = xs[j]? := by
  rw [Array.getElem?_setIfInBounds_ne (Ne.symm h)]

section Adding

variable {p : ShardPlan} {s s' : Spread} {arrivals : List (Nat × Bytes)} {bucket : Nat} {record : Bytes}

/-- Arrivals stay apart when one for another bucket comes in. -/
theorem Apart.add (h : Apart p arrivals) (hlt : bucket < p.buckets) (hnew : bucket ∉ arrivals.map Prod.fst)
    (hsize : record.length < 0x100000000) : Apart p (arrivals ++ [(bucket, record)]) := by
  refine ⟨?_, ?_, ?_⟩
  · rw [List.map_append, List.map_singleton]
    refine List.nodup_append.2 ⟨h.nodup, List.nodup_singleton _, ?_⟩
    rintro b hb c hc rfl
    rw [List.mem_singleton.1 hc] at hb
    exact hnew hb
  · intro a ha
    rcases List.mem_append.1 ha with ha | ha
    · exact h.bucket_lt a ha
    · rw [List.mem_singleton.1 ha]
      exact hlt
  · intro a ha
    rcases List.mem_append.1 ha with ha | ha
    · exact h.size_lt a ha
    · rw [List.mem_singleton.1 ha]
      exact hsize

/-- What taking in a record has done: each note is made where there is room for it. -/
theorem add_eq_ok (h : s.add p bucket record = .ok s') :
    ∃ arrived earlier, s.counts[p.shardOf bucket]? = some arrived ∧ s.shards[p.shardOf bucket]? = some earlier ∧
      bucket < s.sizes.size ∧ p.start (p.shardOf bucket) + arrived < s.places.size ∧
      p.shardOf bucket < s.counts.size ∧ p.shardOf bucket < s.shards.size ∧
      s' = {
        sizes := s.sizes.setIfInBounds bucket (UInt32.ofNat record.length)
        places := s.places.setIfInBounds (p.start (p.shardOf bucket) + arrived)
          (UInt32.ofNat (bucket - p.start (p.shardOf bucket)))
        counts := s.counts.setIfInBounds (p.shardOf bucket) (arrived + 1)
        shards := s.shards.setIfInBounds (p.shardOf bucket) (record :: earlier)
        seen := s.seen.set bucket
        count := s.count + 1
        dataSize := s.dataSize + record.length } := by
  simp only [Spread.add, Outcome.bind_eq_ok, Outcome.pure_eq_ok, get_eq_ok, put_eq_ok] at h
  obtain ⟨arrived, harrived, earlier, hearlier, _, ⟨hsizes, rfl⟩, _, ⟨hplaces, rfl⟩, _, ⟨hcounts, rfl⟩, _, ⟨hshards, rfl⟩, rfl⟩ := h
  exact ⟨arrived, earlier, harrived, hearlier, hsizes, hplaces, hcounts, hshards, rfl⟩

/-- The shard of a bucket has one arrival more. -/
theorem arrivalsOf_own : arrivalsOf p (p.shardOf bucket) (arrivals ++ [(bucket, record)]) =
    arrivalsOf p (p.shardOf bucket) arrivals ++ [(bucket, record)] := by
  rw [arrivalsOf_append, if_pos rfl]

/-- All other shards have what they had. -/
theorem arrivalsOf_other {shard : Nat} (h : shard ≠ p.shardOf bucket) :
    arrivalsOf p shard (arrivals ++ [(bucket, record)]) = arrivalsOf p shard arrivals := by
  rw [arrivalsOf_append, if_neg (Ne.symm h), List.append_nil]

/-- What is noted for each shard goes on with the arrivals when the note for the shard of the bucket is made anew. -/
theorem noted_append {α : Type} (f : List (Nat × Bytes) → α) {notes : Array α}
    (h : ∀ shard < p.shards, notes[shard]? = some (f (arrivalsOf p shard arrivals))) (record : Bytes)
    (hown : p.shardOf bucket < notes.size) {shard : Nat} (hshard : shard < p.shards) :
    (notes.setIfInBounds (p.shardOf bucket) (f (arrivalsOf p (p.shardOf bucket) arrivals ++ [(bucket, record)])))[shard]? =
      some (f (arrivalsOf p shard (arrivals ++ [(bucket, record)]))) := by
  by_cases hsame : shard = p.shardOf bucket
  · rw [hsame, arrivalsOf_own]
    exact getElem?_setIfInBounds_of_eq hown rfl
  · rw [arrivalsOf_other hsame, getElem?_setIfInBounds_of_ne hsame]
    exact h shard hshard

/-- The place of the arrival is noted behind those of its shard, and the places of other shards stay. -/
theorem Holds.places_append (hs : Holds p s arrivals) (hp : p.Covers) (hapart : Apart p (arrivals ++ [(bucket, record)]))
    (hroom : p.start (p.shardOf bucket) + (arrivalsOf p (p.shardOf bucket) arrivals).length < s.places.size) {shard i : Nat}
    (hi : i < (arrivalsOf p shard (arrivals ++ [(bucket, record)])).length) :
    (s.places.setIfInBounds (p.start (p.shardOf bucket) + (arrivalsOf p (p.shardOf bucket) arrivals).length)
        (UInt32.ofNat (bucket - p.start (p.shardOf bucket))))[p.start shard + i]? =
      some (UInt32.ofNat ((arrivalsOf p shard (arrivals ++ [(bucket, record)]))[i].1 - p.start shard)) := by
  by_cases h : shard = p.shardOf bucket
  · subst h
    simp only [arrivalsOf_own] at hi ⊢
    rw [List.length_append, List.length_singleton] at hi
    rcases Nat.lt_or_eq_of_le (Nat.le_of_lt_succ hi) with hlt | rfl
    · rw [List.getElem_append_left hlt, getElem?_setIfInBounds_of_ne (by omega)]
      exact hs.places_eq _ i hlt
    · rw [List.getElem_append_right (Nat.le_refl _)]
      simp only [Nat.sub_self, List.getElem_cons_zero]
      exact getElem?_setIfInBounds_of_eq hroom rfl
  · -- no range has more places than a shard has buckets, so the place belongs to another shard
    have hfits (shard : Nat) : (arrivalsOf p shard (arrivals ++ [(bucket, record)])).length ≤ p.rangeSize :=
      Nat.le_trans (hapart.length_arrivalsOf_le hp shard) (p.stop_sub_start_le shard)
    have hown := hfits (p.shardOf bucket)
    have hother := hfits shard
    rw [arrivalsOf_own, List.length_append, List.length_singleton] at hown
    simp only [arrivalsOf_other h] at hi hother ⊢
    rw [getElem?_setIfInBounds_of_ne (ShardPlan.start_add_ne h (by omega) (by omega))]
    exact hs.places_eq shard i hi

/-- A record whose bucket had none can be taken in. -/
theorem Holds.exists_add (hs : Holds p s arrivals) (hp : p.Covers) (hlt : bucket < p.buckets)
    (hnew : bucket ∉ arrivals.map Prod.fst) (hsize : record.length < 0x100000000) : ∃ s', s.add p bucket record = .ok s' := by
  have hshard := hp.shardOf_lt hlt
  have hcounts := hs.counts_eq _ hshard
  have hshards := hs.shards_eq _ hshard
  -- with the record its shard has no more arrivals than its range has places
  have hroom := (hs.apart.add hlt hnew hsize).length_arrivalsOf_le hp (p.shardOf bucket)
  rw [arrivalsOf_own, List.length_append, List.length_singleton] at hroom
  have hstop : p.stop (p.shardOf bucket) ≤ p.buckets := Nat.min_le_right _ _
  have hplace : p.start (p.shardOf bucket) + (arrivalsOf p (p.shardOf bucket) arrivals).length < s.places.size := by
    rw [hs.places_size]
    omega
  have hbucket : bucket < s.sizes.size := by
    rw [hs.sizes_size]
    omega
  have hcount := (Array.getElem?_eq_some_iff.1 hcounts).1
  have hearlier := (Array.getElem?_eq_some_iff.1 hshards).1
  simp only [Spread.add, get_eq_ok.2 hcounts, get_eq_ok.2 hshards, put, if_pos hbucket, if_pos hplace, if_pos hcount,
    if_pos hearlier, Outcome.ok_bind]
  exact ⟨_, rfl⟩

/-- A record whose bucket had none is known of after it was taken in. -/
theorem Holds.add (hs : Holds p s arrivals) (hp : p.Covers) (hadd : s.add p bucket record = .ok s') (hlt : bucket < p.buckets)
    (hnew : bucket ∉ arrivals.map Prod.fst) (hsize : record.length < 0x100000000) :
    Holds p s' (arrivals ++ [(bucket, record)]) := by
  have hapart := hs.apart.add hlt hnew hsize
  have hshard := hp.shardOf_lt hlt
  obtain ⟨arrived, earlier, harrived, hearlier, hsizes, hplaces, hcounts, hshards, rfl⟩ := add_eq_ok hadd
  rw [hs.counts_eq _ hshard, Option.some.injEq] at harrived
  rw [hs.shards_eq _ hshard, Option.some.injEq] at hearlier
  subst harrived hearlier
  have hin : bucket / 64 < s.seen.words.size := by
    rw [hs.seen_size]
    exact div_lt_wordsFor hlt
  refine ⟨hapart, ?_, ?_, ?_, ?_, ?_, ?_, ?_, ?_, ?_, ?_⟩
  · simp [hs.count_eq]
  · simp [hs.dataSize_eq]
  · simp [hs.seen_size, BitSet.size_set]
  · intro b
    simp only [BitSet.bitAt_set hin, Bool.or_eq_true, decide_eq_true_eq, hs.seen_iff, List.map_append, List.mem_append,
      List.map_singleton, List.mem_singleton]
    exact Or.comm
  · simp [hs.sizes_size]
  · simp [hs.places_size]
  · intro a ha
    rcases List.mem_append.1 ha with ha | ha
    · have hne : a.1 ≠ bucket := fun h => hnew (h ▸ List.mem_map_of_mem ha)
      simp only [getElem?_setIfInBounds_of_ne hne]
      exact hs.sizes_eq a ha
    · rw [List.mem_singleton.1 ha]
      exact getElem?_setIfInBounds_of_eq hsizes rfl
  · intro shard hlt'
    have hnoted := noted_append List.length hs.counts_eq record hcounts hlt'
    rw [List.length_append, List.length_singleton] at hnoted
    exact hnoted
  · intro shard hlt'
    have hnoted := noted_append (fun arrived => (arrived.map Prod.snd).reverse) hs.shards_eq record hshards hlt'
    rw [List.map_append, List.reverse_append] at hnoted
    exact hnoted
  · intro shard i hi
    exact hs.places_append hp hapart hplaces hi

end Adding

/-! ## Gathering -/

/-- One piece of a byte string that is put together from pieces. -/
theorem take_drop_flatten (pieces : List Bytes) {i : Nat} (hi : i < pieces.length) :
    (pieces.flatten.drop (startOf (pieces.map List.length) i)).take pieces[i].length = pieces[i] := by
  have hsplit : pieces.flatten = (pieces.take i).flatten ++ (pieces[i] ++ (pieces.drop (i + 1)).flatten) := by
    rw [← List.flatten_cons, List.getElem_cons_drop hi, ← List.flatten_append, List.take_append_drop]
  have hlen : startOf (pieces.map List.length) i = (pieces.take i).flatten.length := by
    rw [startOf, ← List.map_take, List.length_flatten]
  rw [hsplit, hlen, List.drop_left, List.take_left]

section Gathering

variable {p : ShardPlan} {s : Spread} {arrivals : List (Nat × Bytes)} {shard : Nat}

/-- The sizes of the records of a shard, by arrival. -/
def sizesOf (p : ShardPlan) (shard : Nat) (arrivals : List (Nat × Bytes)) : List Nat :=
  ((arrivalsOf p shard arrivals).map Prod.snd).map List.length

/-- A shard notes one size for each arrival. -/
theorem length_sizesOf : (sizesOf p shard arrivals).length = (arrivalsOf p shard arrivals).length := by
  rw [sizesOf, List.length_map, List.length_map]

/-- A shard notes sizes in the order of arrival. -/
theorem getElem_sizesOf {i : Nat} (hi : i < (arrivalsOf p shard arrivals).length)
    (hi' : i < (sizesOf p shard arrivals).length) :
    (sizesOf p shard arrivals)[i] = (arrivalsOf p shard arrivals)[i].2.length := by
  simp [sizesOf]

/-- What is noted of an arrival of a shard: its place in the range, and its size. -/
theorem Holds.noted (hs : Holds p s arrivals) (hp : p.Covers) (hcount : p.buckets < 0x100000000) {i : Nat}
    (hi : i < (arrivalsOf p shard arrivals).length) :
    ∃ place size, s.places[p.start shard + i]? = some place ∧
      place.toNat = (arrivalsOf p shard arrivals)[i].1 - p.start shard ∧
      s.sizes[p.start shard + place.toNat]? = some size ∧ size.toNat = (arrivalsOf p shard arrivals)[i].2.length := by
  have hmem := List.getElem_mem hi
  have harrived := (mem_arrivalsOf.1 hmem).1
  have hrange := hs.apart.mem_range hp hmem
  have hlt := hs.apart.bucket_lt _ harrived
  have hsize := hs.apart.size_lt _ harrived
  have hplace : (UInt32.ofNat ((arrivalsOf p shard arrivals)[i].1 - p.start shard)).toNat =
      (arrivalsOf p shard arrivals)[i].1 - p.start shard := by
    rw [UInt32.toNat_ofNat']
    omega
  refine ⟨_, UInt32.ofNat (arrivalsOf p shard arrivals)[i].2.length, hs.places_eq shard i hi, hplace, ?_, ?_⟩
  · rw [hplace, Nat.add_sub_cancel' hrange.1]
    exact hs.sizes_eq _ harrived
  · rw [UInt32.toNat_ofNat']
    omega

/-- The starts of the records of a shard are found by passing over its arrivals: each record starts behind those that arrived
before it. -/
theorem Holds.startsOf_eq (hs : Holds p s arrivals) (hp : p.Covers) (hcount : p.buckets < 0x100000000) (rest i : Nat)
    (hrest : i + rest = (arrivalsOf p shard arrivals).length) (starts : Array Nat)
    (hsize : starts.size = p.stop shard - p.start shard)
    (hstarts : ∀ (j : Nat) (hj : j < (arrivalsOf p shard arrivals).length), j < i →
      starts[(arrivalsOf p shard arrivals)[j].1 - p.start shard]? = some (startOf (sizesOf p shard arrivals) j)) :
    ∃ starts', s.startsOf (p.start shard) ((List.range' i rest).map (p.start shard + ·))
        (startOf (sizesOf p shard arrivals) i) starts = .ok starts' ∧
      ∀ (j : Nat) (hj : j < (arrivalsOf p shard arrivals).length),
        starts'[(arrivalsOf p shard arrivals)[j].1 - p.start shard]? = some (startOf (sizesOf p shard arrivals) j) := by
  induction rest generalizing i starts with
  | zero => exact ⟨starts, rfl, fun j hj => hstarts j hj (by omega)⟩
  | succ rest ih =>
    have hi : i < (arrivalsOf p shard arrivals).length := by omega
    obtain ⟨place, size, hplace, hplace', hnoted, hsize'⟩ := hs.noted hp hcount hi
    have hrange := hs.apart.mem_range hp (List.getElem_mem hi)
    have hlt : place.toNat < starts.size := by omega
    have hin : i < (sizesOf p shard arrivals).length := by rwa [length_sizesOf]
    have hnext : startOf (sizesOf p shard arrivals) i + size.toNat = startOf (sizesOf p shard arrivals) (i + 1) := by
      rw [startOf_succ hin, getElem_sizesOf hi hin, hsize']
    have hput : put starts place.toNat (startOf (sizesOf p shard arrivals) i) =
        .ok (starts.setIfInBounds place.toNat (startOf (sizesOf p shard arrivals) i)) := put_eq_ok.2 ⟨hlt, rfl⟩
    obtain ⟨starts', hrun, hdone⟩ := ih (i + 1) (by omega)
      (starts.setIfInBounds place.toNat (startOf (sizesOf p shard arrivals) i))
      (by rw [Array.size_setIfInBounds]; exact hsize) (by
        intro j hj hji
        rcases Nat.lt_or_eq_of_le (Nat.le_of_lt_succ hji) with hlt' | rfl
        · have hne : (arrivalsOf p shard arrivals)[j].1 - p.start shard ≠ place.toNat := by
            intro hsame
            have hj' := hs.apart.mem_range hp (List.getElem_mem hj)
            have hnodup := hs.apart.nodup_arrivalsOf shard
            have hne := List.pairwise_iff_getElem.1 hnodup j i (by simpa using hj) (by simpa using hi) hlt'
            rw [List.getElem_map, List.getElem_map] at hne
            exact hne (by omega)
          rw [getElem?_setIfInBounds_of_ne hne]
          exact hstarts j hj hlt'
        · exact getElem?_setIfInBounds_of_eq hlt hplace'.symm)
    refine ⟨starts', ?_, hdone⟩
    rw [List.range'_succ, List.map_cons, Spread.startsOf, get_eq_ok.2 hplace, Outcome.ok_bind]
    simp only [hput, Outcome.ok_bind, get_eq_ok.2 hnoted, hnext]
    exact hrun

/-- Arrivals in the order of their buckets. -/
structure Sorted (p : ShardPlan) (arrivals sorted : List (Nat × Bytes)) : Prop where
  perm : sorted.Perm arrivals
  fst_eq : sorted.map Prod.fst = List.range p.buckets

namespace Sorted

variable {sorted : List (Nat × Bytes)}

/-- There are as many sorted records as buckets. -/
theorem length_eq (hsorted : Sorted p arrivals sorted) : sorted.length = p.buckets := by
  have := congrArg List.length hsorted.fst_eq
  rwa [List.length_map, List.length_range] at this

/-- The sorted records stand at their buckets. -/
theorem getElem_fst (hsorted : Sorted p arrivals sorted) {b : Nat} (hb : b < sorted.length) : sorted[b].1 = b := by
  have h : (sorted.map Prod.fst)[b]? = some b := by
    rw [hsorted.fst_eq, List.getElem?_range (by rw [← hsorted.length_eq]; exact hb)]
  rw [List.getElem?_map, List.getElem?_eq_getElem hb] at h
  exact Option.some.inj h

/-- Every bucket has arrived. -/
theorem all (hsorted : Sorted p arrivals sorted) : ∀ b < p.buckets, b ∈ arrivals.map Prod.fst := by
  intro b hb
  rw [← (hsorted.perm.map Prod.fst).mem_iff, hsorted.fst_eq]
  exact List.mem_range.2 hb

end Sorted

variable {sorted : List (Nat × Bytes)}

/-- Every bucket in the range of a shard has its arrival. -/
theorem Sorted.exists_arrival (hsorted : Sorted p arrivals sorted) {b : Nat}
    (hlow : p.start shard ≤ b) (hhigh : b < p.stop shard) (hb : b < sorted.length) :
    ∃ j, ∃ hj : j < (arrivalsOf p shard arrivals).length, (arrivalsOf p shard arrivals)[j] = sorted[b] := by
  have hmem : sorted[b] ∈ arrivalsOf p shard arrivals := by
    rw [mem_arrivalsOf, hsorted.getElem_fst hb]
    exact ⟨hsorted.perm.mem_iff.1 (List.getElem_mem hb), ShardPlan.shardOf_eq hlow hhigh⟩
  exact List.getElem_of_mem hmem

/-- The bytes of a shard are cut into the records that arrived. -/
theorem slice?_arrivals {j : Nat} (hj : j < (arrivalsOf p shard arrivals).length) :
    (Region.ofBytes ((arrivalsOf p shard arrivals).map Prod.snd).flatten).slice? (startOf (sizesOf p shard arrivals) j)
        (startOf (sizesOf p shard arrivals) j + (arrivalsOf p shard arrivals)[j].2.length) =
      some (arrivalsOf p shard arrivals)[j].2 := by
  have hin : j < (sizesOf p shard arrivals).length := by rwa [length_sizesOf]
  have hbytes : (Region.ofBytes ((arrivalsOf p shard arrivals).map Prod.snd).flatten).bytes =
      ((arrivalsOf p shard arrivals).map Prod.snd).flatten := rfl
  have hend : startOf (sizesOf p shard arrivals) j + (arrivalsOf p shard arrivals)[j].2.length ≤
      (Region.ofBytes ((arrivalsOf p shard arrivals).map Prod.snd).flatten).bytes.length := by
    rw [hbytes, List.length_flatten, ← getElem_sizesOf hj hin]
    exact startOf_add_le_sum hin
  have hpiece := take_drop_flatten ((arrivalsOf p shard arrivals).map Prod.snd) (i := j) (by rwa [List.length_map])
  rw [List.getElem_map] at hpiece
  rw [Region.slice?_eq _ _ _ (Nat.le_add_right _ _) hend, Nat.add_sub_cancel_left, hbytes]
  exact congrArg some hpiece

/-- The record of a place is found by the start that was noted for it. -/
theorem Holds.recordAt_eq (hs : Holds p s arrivals) (hp : p.Covers) (hcount : p.buckets < 0x100000000)
    (hsorted : Sorted p arrivals sorted) {starts : Array Nat}
    (hstarts : ∀ (j : Nat) (hj : j < (arrivalsOf p shard arrivals).length),
      starts[(arrivalsOf p shard arrivals)[j].1 - p.start shard]? = some (startOf (sizesOf p shard arrivals) j))
    {place : Nat} (hplace : p.start shard + place < p.stop shard) (hlt : p.start shard + place < sorted.length) :
    s.recordAt (Region.ofBytes ((arrivalsOf p shard arrivals).map Prod.snd).flatten) (p.start shard) starts place =
      .ok sorted[p.start shard + place].2 := by
  obtain ⟨j, hj, harrival⟩ := hsorted.exists_arrival (Nat.le_add_right _ place) hplace hlt
  have hfst : (arrivalsOf p shard arrivals)[j].1 = p.start shard + place := by rw [harrival, hsorted.getElem_fst]
  obtain ⟨noted, size, -, hnoted, hsize, hsize'⟩ := hs.noted hp hcount hj
  have hat : noted.toNat = place := by omega
  have hstart := hstarts j hj
  rw [hfst, Nat.add_sub_cancel_left] at hstart
  rw [hat] at hsize
  rw [recordAt, get_eq_ok.2 hstart, Outcome.ok_bind, get_eq_ok.2 hsize, Outcome.ok_bind, hsize', slice?_arrivals hj, harrival]
  rfl

/-- A shard gives its records in the order of their buckets. -/
theorem Holds.gatherShard_eq (hs : Holds p s arrivals) (hp : p.Covers) (hcount : p.buckets < 0x100000000)
    (hsorted : Sorted p arrivals sorted) (hshard : shard < p.shards) :
    s.gatherShard p shard =
      .ok (((sorted.map Prod.snd).drop (p.start shard)).take (p.stop shard - p.start shard)).flatten := by
  unfold gatherShard
  by_cases hnone : p.stop shard ≤ p.start shard
  · have hzero : p.stop shard - p.start shard = 0 := by omega
    simp only [hnone, if_true, hzero, List.take_zero, List.flatten_nil]
    rfl
  have hlength := hs.apart.length_arrivalsOf hp hsorted.all shard
  have hstop : p.stop shard ≤ sorted.length := by
    rw [hsorted.length_eq]
    exact Nat.min_le_right _ _
  have hall : 0 + (p.stop shard - p.start shard) = (arrivalsOf p shard arrivals).length := by rw [Nat.zero_add, hlength]
  obtain ⟨starts, hrun, hstarts⟩ := hs.startsOf_eq hp hcount (p.stop shard - p.start shard) 0 hall
    (Array.replicate (p.stop shard - p.start shard) 0) Array.size_replicate (fun j hj h => absurd h (Nat.not_lt_zero j))
  have htaken : (((sorted.map Prod.snd).drop (p.start shard)).take (p.stop shard - p.start shard)).length =
      p.stop shard - p.start shard := by
    rw [List.length_take, List.length_drop, List.length_map]
    omega
  have hrecords : (List.range (p.stop shard - p.start shard)).mapM
      (s.recordAt (Region.ofBytes ((arrivalsOf p shard arrivals).map Prod.snd).flatten) (p.start shard) starts) =
        .ok (((sorted.map Prod.snd).drop (p.start shard)).take (p.stop shard - p.start shard)) := by
    refine Outcome.mapM_range htaken.symm ?_
    intro place hplace
    rw [List.getElem_take, List.getElem_drop, List.getElem_map]
    exact hs.recordAt_eq hp hcount hsorted hstarts (by omega) (by omega)
  simp only [hnone, if_false, get_eq_ok.2 (hs.shards_eq shard hshard), Outcome.ok_bind, List.reverse_reverse]
  rw [startOf_zero, ← List.range_eq_range'] at hrun
  rw [hrun, Outcome.ok_bind, hrecords, Outcome.ok_bind]
  rfl

/-- Stretches of one length, one after the other, are the list up to where the last one ends. -/
theorem flatten_stretches {α : Type} (xs : List α) (length count : Nat) :
    ((List.range count).map fun i => (xs.drop (i * length)).take length).flatten = xs.take (count * length) := by
  induction count with
  | zero => simp
  | succ count ih =>
    rw [List.range_succ, List.map_append, List.flatten_append, ih, Nat.add_mul, Nat.one_mul, List.take_add]
    simp

/-- The ranges cut a list that has an element for each bucket into pieces that make it up. -/
theorem flatten_ranges {α : Type} (hp : p.Covers) {xs : List α} (hxs : xs.length = p.buckets) :
    ((List.range p.shards).map fun shard => (xs.drop (p.start shard)).take (p.stop shard - p.start shard)).flatten = xs := by
  have hrange (shard : Nat) : (xs.drop (p.start shard)).take (p.stop shard - p.start shard) =
      (xs.drop (shard * p.rangeSize)).take p.rangeSize := by
    -- the last range may be cut short, but there is nothing behind it
    rw [ShardPlan.stop, ShardPlan.start, List.take_eq_take_iff, List.length_drop, hxs]
    omega
  simp only [hrange]
  rw [flatten_stretches]
  exact List.take_of_length_le (hxs ▸ hp.buckets_le)

/-- When every bucket has its record, the records come out in the order of their buckets. -/
theorem Holds.gather_eq (hs : Holds p s arrivals) (hp : p.Covers) (hcount : p.buckets < 0x100000000)
    (hsorted : Sorted p arrivals sorted) : s.gather p = .ok (sorted.map Prod.snd).flatten := by
  have hlength : (sorted.map Prod.snd).length = p.buckets := by rw [List.length_map, hsorted.length_eq]
  have hwhole := congrArg List.flatten (flatten_ranges hp hlength)
  rw [List.flatten_flatten, List.map_map] at hwhole
  rw [gather, Outcome.mapM_ok fun shard hshard => hs.gatherShard_eq hp hcount hsorted (List.mem_range.1 hshard),
    Outcome.ok_bind, Outcome.pure_eq_ok]
  exact hwhole

/-- The sizes that are noted are the sizes of the records in the order of their buckets. -/
theorem Holds.sizes_eq_map (hs : Holds p s arrivals) (hsorted : Sorted p arrivals sorted) :
    (s.sizes.toList.take p.buckets).map (·.toNat) = (sorted.map Prod.snd).map List.length := by
  have hsize := hs.sizes_size
  have hlengths : ((s.sizes.toList.take p.buckets).map (·.toNat)).length = ((sorted.map Prod.snd).map List.length).length := by
    rw [List.length_map, List.length_map, List.length_map, List.length_take, Array.length_toList, hsize, hsorted.length_eq]
    omega
  refine List.ext_getElem hlengths ?_
  intro b hb hb'
  have hlt : b < sorted.length := by simpa using hb'
  have hmem : sorted[b] ∈ arrivals := hsorted.perm.mem_iff.1 (List.getElem_mem hlt)
  have hnoted := hs.sizes_eq _ hmem
  have hlength := hs.apart.size_lt _ hmem
  rw [hsorted.getElem_fst hlt, ← Array.getElem?_toList] at hnoted
  have hat := (List.getElem?_eq_some_iff.1 hnoted).2
  simp only [List.getElem_map, List.getElem_take, hat, UInt32.toNat_ofNat']
  omega

end Gathering

end Spread

end FrozenTable
