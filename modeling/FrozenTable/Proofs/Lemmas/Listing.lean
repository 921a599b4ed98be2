import FrozenTable.Lookup.Cursor
import FrozenTable.Proofs.Lemmas.Outcome
import FrozenTable.Resident.Map

/-!
# Going over the buckets of a table

`Table.Lists` says what the buckets of a table hold. Whatever goes over the buckets in order gives the same, each in its own
form: reading buckets by number, walking through the table, and the keys and values of a map.
-/

namespace FrozenTable

variable {κ ν : Type}

/-- The buckets of a table hold these pairs of a key, where keys are stored, and a value, where there is one. -/
structure Table.Lists (t : Table κ ν) (kept : List (Option κ × Option ν)) : Prop where
  size_eq : t.size = kept.length
  entryAt_eq : ∀ i (hi : i < kept.length), t.entryAt i = .ok kept[i]

namespace Table.Lists

variable {t : Table κ ν} {kept : List (Option κ × Option ν)}

/-- Reading all buckets in order gives what they hold. -/
theorem mapM_entryAt (h : t.Lists kept) : (List.range t.size).mapM t.entryAt = .ok kept :=
  Outcome.mapM_range h.size_eq h.entryAt_eq

/-- The value in a bucket is that of its entry. -/
theorem valueAt_eq (h : t.Lists kept) {i : Nat} (hi : i < kept.length) : t.valueAt i = .ok kept[i].2 := by
  rw [valueAt, h.entryAt_eq i hi]
  rfl

/-- The values of a map are those in its buckets. -/
theorem values_eq (h : t.Lists kept) : (ResidentMap.mk t).values = .ok (kept.filterMap Prod.snd) := by
  have hvalues : (List.range t.size).mapM t.valueAt = .ok (kept.map Prod.snd) := by
    refine Outcome.mapM_range (by rw [h.size_eq, List.length_map]) ?_
    intro i hi
    rw [List.length_map] at hi
    rw [h.valueAt_eq hi, List.getElem_map]
  rw [ResidentMap.values, hvalues, Outcome.ok_bind, List.filterMap_map]
  rfl

/-- The search for a value, started at a bucket, finds it there or behind. -/
theorem containsFrom_eq [DecidableEq ν] (h : t.Lists kept) (value : ν) (count bucket : Nat)
    (hcount : bucket + count = kept.length) : (ResidentMap.mk t).containsFrom value count bucket =
      .ok (decide (some value ∈ (kept.drop bucket).map Prod.snd)) := by
  induction count generalizing bucket with
  | zero =>
    rw [List.drop_of_length_le (by omega)]
    rfl
  | succ count ih =>
    have hbucket : bucket < kept.length := by omega
    rw [ResidentMap.containsFrom, h.valueAt_eq hbucket, Outcome.ok_bind, List.drop_eq_getElem_cons hbucket, List.map_cons]
    by_cases hfound : kept[bucket].2 = some value
    · rw [if_pos hfound, decide_eq_true (List.mem_cons.2 (.inl hfound.symm))]
      rfl
    · have hcons : some value ∈ kept[bucket].2 :: (kept.drop (bucket + 1)).map Prod.snd ↔
          some value ∈ (kept.drop (bucket + 1)).map Prod.snd := by
        rw [List.mem_cons, or_iff_right fun heq => hfound heq.symm]
      rw [if_neg hfound, ih (bucket + 1) (by omega), decide_eq_decide.2 hcons]

/-- A map contains the values in its buckets. -/
theorem containsValue_eq [DecidableEq ν] (h : t.Lists kept) (value : ν) :
    (ResidentMap.mk t).containsValue value = .ok (decide (some value ∈ kept.map Prod.snd)) := by
  rw [ResidentMap.containsValue, h.size_eq]
  exact h.containsFrom_eq value kept.length 0 (Nat.zero_add _)

variable {pairs : List (κ × Option ν)}

/-- A cursor yields the entry of its bucket. -/
theorem next_eq (h : t.Lists (pairs.map fun pair => (some pair.1, pair.2))) {i : Nat} (hi : i < pairs.length) :
    t.next ⟨i⟩ = some (.ok pairs[i], ⟨i + 1⟩) := by
  have hi' : i < (pairs.map fun pair => (some pair.1, pair.2)).length := by rwa [List.length_map]
  have hsize : ¬ t.size ≤ i := by
    rw [h.size_eq]
    omega
  have hentry : t.keyedEntryAt i = .ok pairs[i] := by
    rw [keyedEntryAt, h.entryAt_eq i hi', List.getElem_map]
    rfl
  rw [next, if_neg hsize, hentry]

/-- A walk yields the entries of the buckets from the cursor on. -/
theorem take_fst (h : t.Lists (pairs.map fun pair => (some pair.1, pair.2))) (limit i : Nat) :
    (t.take limit ⟨i⟩).1 = ((pairs.drop i).take limit).map .ok := by
  induction limit generalizing i with
  | zero => rw [List.take_zero]; rfl
  | succ limit ih =>
    rcases Nat.lt_or_ge i pairs.length with hi | hi
    · rw [List.drop_eq_getElem_cons hi, List.take_succ_cons, List.map_cons, ← ih (i + 1)]
      simp only [take, h.next_eq hi]
    · have hsize : t.size ≤ i := by rwa [h.size_eq, List.length_map]
      have hnext : t.next ⟨i⟩ = none := if_pos hsize
      rw [List.drop_of_length_le hi, List.take_nil]
      simp only [take, hnext]
      rfl

/-- A walk through the whole table yields all entries. -/
theorem entries_eq (h : t.Lists (pairs.map fun pair => (some pair.1, pair.2))) (hwalk : t.walk = .ok ⟨0⟩) :
    t.entries = .ok pairs := by
  have hsize : t.size = pairs.length := by rw [h.size_eq, List.length_map]
  have htake : (t.take (t.remaining ⟨0⟩) ⟨0⟩).1 = pairs.map .ok := by
    rw [h.take_fst, remaining, hsize]
    exact congrArg (List.map Except.ok) List.take_length
  rw [entries, hwalk, Outcome.ok_bind, htake, Outcome.mapM_eq_ok, List.map_id]

/-- The keys of a table that lists entries are theirs. -/
theorem keys_eq (h : t.Lists (pairs.map fun pair => (some pair.1, pair.2))) (hwalk : t.walk = .ok ⟨0⟩) :
    t.keys = .ok (pairs.map Prod.fst) := by
  rw [keys, h.entries_eq hwalk]
  rfl

end Table.Lists

/-- A list in which nothing is there twice stays as it is when repetitions are erased. -/
theorem eraseDups_of_nodup {α : Type} [DecidableEq α] {xs : List α} (h : xs.Nodup) : xs.eraseDups = xs := by
  induction xs with
  | nil => rfl
  | cons x xs ih =>
    obtain ⟨hx, hxs⟩ := List.nodup_cons.1 h
    have hfilter : xs.filter (fun y => !y == x) = xs := by
      rw [List.filter_eq_self]
      intro y hy
      have hne : y ≠ x := by
        rintro rfl
        exact hx hy
      simpa using hne
    rw [List.eraseDups_cons, hfilter, ih hxs]

end FrozenTable
