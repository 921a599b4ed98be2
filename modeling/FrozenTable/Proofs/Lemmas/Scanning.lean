import FrozenTable.Build.Source
import FrozenTable.Descriptor.Basic
import FrozenTable.Proofs.Lemmas.Outcome
import FrozenTable.Proofs.Lemmas.Streaming

/-!
# The first pass finds the fingerprints and the range of the keys

`Scan.Covers` says what a first pass that ended well has found out about some entries. The range of the keys, where it is kept,
consists of a smallest and a largest key, both from among the entries.
-/

namespace FrozenTable

variable {κ ν : Type}

/-- The fingerprint of a key. -/
def Settings.fingerprint (s : Settings κ ν) (key : κ) : Except Fault Fingerprint :=
  (s.keyBytes key).map .ofBytes

/-- The fingerprint of a key is that of its bytes. -/
theorem Settings.fingerprint_of_keyBytes {s : Settings κ ν} {key : κ} {bytes : Bytes} (h : s.keyBytes key = .ok bytes) :
    s.fingerprint key = .ok (.ofBytes bytes) := by
  rw [fingerprint, h]
  rfl

/-- The pieces in which a key is hashed for a lookup have the fingerprint of its bytes. -/
theorem Descriptor.bucketOf_eq (d : Descriptor κ ν) (key : κ) :
    d.bucketOf key = d.settings.fingerprint key >>= d.hash.slot := by
  unfold bucketOf Settings.fingerprint Settings.keyPieces Settings.keyBytes Codec.write
  cases d.settings.needKeyCodec with
  | error fault => rfl
  | ok codec =>
    simp only [Outcome.ok_bind]
    cases codec.pieces key with
    | error fault => rfl
    | ok pieces =>
      simp only [Outcome.ok_bind, Fingerprint.ofPieces_eq]
      rfl

namespace Scan

variable [Ord κ]

/-- The smallest and the largest of some keys. -/
def rangeOf (keys : List κ) : Option (κ × κ) :=
  keys.foldl (fun range key => some (widen range key)) none

end Scan

/-- The range of the keys of some entries, where it is kept. -/
def Settings.rangeOf [Ord κ] (s : Settings κ ν) (entries : List (Entry κ ν)) : Option (κ × κ) :=
  if s.tracksRange then Scan.rangeOf (entries.map (·.key)) else none

namespace Scan

variable [Ord κ]

/-- What a first pass that ended well has found out about some entries. -/
structure Covers (s : Settings κ ν) (entries : List (Entry κ ν)) (scan : Scan κ) : Prop where
  value : ∀ entry ∈ entries, s.needValue entry = .ok ()
  fingerprints : entries.mapM (fun entry => s.fingerprint entry.key) = .ok scan.fingerprints.reverse
  range_eq : scan.range = s.rangeOf entries

/-- What a first pass adds up for an entry. -/
def counted (s : Settings κ ν) (sized : Bool) (entry : Entry κ ν) : Except Fault Nat :=
  if sized then .ok 0 else s.recordSize entry

/-- One entry is checked, hashed, counted and measured against the range. -/
theorem step_eq (s : Settings κ ν) (sized : Bool) (scan : Scan κ) (entry : Entry κ ν) :
    scan.step s sized entry = s.needValue entry >>= fun _ => s.keyBytes entry.key >>= fun bytes =>
      counted s sized entry >>= fun size => .ok ⟨.ofBytes bytes :: scan.fingerprints, scan.dataSize + size,
        if s.tracksRange then some (widen scan.range entry.key) else none⟩ := by
  cases sized <;> rfl

/-- One more entry is covered. -/
theorem covers_of_step {s : Settings κ ν} {sized : Bool} {scan scan' : Scan κ} {entries : List (Entry κ ν)}
    {entry : Entry κ ν} (hscan : Covers s entries scan) (h : scan.step s sized entry = .ok scan') :
    Covers s (entries ++ [entry]) scan' := by
  simp only [step_eq, Outcome.bind_eq_ok, Except.ok.injEq] at h
  obtain ⟨_, hvalue, bytes, hbytes, size, -, rfl⟩ := h
  refine ⟨?_, ?_, ?_⟩
  · rw [List.forall_mem_append, List.forall_mem_singleton]
    exact ⟨hscan.value, hvalue⟩
  · rw [Outcome.mapM_eq_ok, List.map_append, Outcome.mapM_eq_ok.1 hscan.fingerprints, List.map_singleton,
      Settings.fingerprint_of_keyBytes hbytes, List.reverse_cons, List.map_append, List.map_singleton]
  · have hrange := hscan.range_eq
    unfold Settings.rangeOf at hrange ⊢
    by_cases htracks : s.tracksRange = true
    · rw [if_pos htracks] at hrange ⊢
      rw [if_pos htracks, hrange, rangeOf, rangeOf, List.map_append, List.foldl_append]
      rfl
    · rw [if_neg htracks, if_neg htracks]

/-- A first pass that ends well covers the entries. -/
theorem covers_of_run {s : Settings κ ν} {sized : Bool} {entries : List (Entry κ ν)} {scan : Scan κ}
    (h : run s sized (entries.map .ok) = .ok scan) : Covers s entries scan := by
  rw [run, List.foldlM_map] at h
  refine Outcome.foldlM_induction (P := fun done scan => Covers s done scan) ?_ ?_ h
  · refine ⟨nofun, rfl, ?_⟩
    unfold Settings.rangeOf
    split <;> rfl
  · intro done entry scan scan' hscan hstep
    exact covers_of_step hscan hstep

/-- A first pass has found the sum of what it adds up. -/
theorem dataSize_of_run {s : Settings κ ν} {sized : Bool} {entries : List (Entry κ ν)} {scan : Scan κ}
    (h : run s sized (entries.map .ok) = .ok scan) :
    ∃ sizes, entries.mapM (counted s sized) = .ok sizes ∧ scan.dataSize = sizes.sum := by
  rw [run, List.foldlM_map] at h
  refine Outcome.foldlM_induction
    (P := fun done scan => ∃ sizes, done.mapM (counted s sized) = .ok sizes ∧ scan.dataSize = sizes.sum) ⟨[], rfl, rfl⟩ ?_ h
  rintro done entry scan scan' ⟨sizes, hsizes, hsum⟩ hstep
  simp only [Outcome.ok_bind, step_eq, Outcome.bind_eq_ok, Except.ok.injEq] at hstep
  obtain ⟨_, -, bytes, -, size, hsize, rfl⟩ := hstep
  refine ⟨sizes ++ [size], ?_, ?_⟩
  · rw [Outcome.mapM_eq_ok, List.map_append, Outcome.mapM_eq_ok.1 hsizes, List.map_singleton, hsize, List.map_append]
    rfl
  · rw [List.sum_append, hsum]
    simp

/-- A first pass fails for one of its entries. -/
theorem fault_of_run {s : Settings κ ν} {sized : Bool} {entries : List (Entry κ ν)} {fault : Fault}
    (h : run s sized (entries.map .ok) = .error fault) :
    ∃ entry ∈ entries, s.needValue entry = .error fault ∨ s.keyBytes entry.key = .error fault ∨
      counted s sized entry = .error fault := by
  rw [run, List.foldlM_map] at h
  obtain ⟨done, entry, rest, scan, rfl, -, hstep⟩ := Outcome.exists_step_of_foldlM_error h
  refine ⟨entry, by simp, ?_⟩
  simp only [Outcome.ok_bind, step_eq, Outcome.bind_eq_error] at hstep
  rcases hstep with hvalue | ⟨_, -, hbytes | ⟨bytes, -, hsize | ⟨size, -, hnone⟩⟩⟩
  · exact .inl hvalue
  · exact .inr (.inl hbytes)
  · exact .inr (.inr hsize)
  · cases hnone

/-- How a first pass ends is told by the entries, whatever their order of failing would be. -/
theorem run_eq_ok_iff {s : Settings κ ν} {sized : Bool} {entries : List (Entry κ ν)} {scan : Scan κ} :
    run s sized (entries.map .ok) = .ok scan ↔
      Covers s entries scan ∧ ∃ sizes, entries.mapM (counted s sized) = .ok sizes ∧ scan.dataSize = sizes.sum := by
  constructor
  · exact fun h => ⟨covers_of_run h, dataSize_of_run h⟩
  · rintro ⟨hcovers, sizes, hsizes, hsum⟩
    cases h : run s sized (entries.map .ok) with
    | ok scan' =>
      obtain ⟨sizes', hsizes', hsum'⟩ := dataSize_of_run h
      cases hsizes.symm.trans hsizes'
      have hprints := Except.ok.inj ((covers_of_run h).fingerprints.symm.trans hcovers.fingerprints)
      have hrange := (covers_of_run h).range_eq.trans hcovers.range_eq.symm
      cases scan
      cases scan'
      cases List.reverse_inj.1 hprints
      cases hrange
      cases hsum'.trans hsum.symm
      rfl
    | error fault =>
      exfalso
      obtain ⟨entry, hentry, hvalue | hbytes | hsize⟩ := fault_of_run h
      · exact nomatch (hcovers.value entry hentry).symm.trans hvalue
      · obtain ⟨f, -, hprint⟩ := Outcome.exists_of_mapM hcovers.fingerprints hentry
        rw [Settings.fingerprint, hbytes] at hprint
        exact nomatch hprint
      · obtain ⟨size, -, hsize'⟩ := Outcome.exists_of_mapM hsizes hentry
        exact nomatch hsize'.symm.trans hsize

/-- A first pass that ended well has found entries only. -/
theorem exists_entries_of_run {s : Settings κ ν} {sized : Bool} {found : List (Except Fault (Entry κ ν))} {scan : Scan κ}
    (h : run s sized found = .ok scan) : ∃ entries : List (Entry κ ν), found = entries.map .ok :=
  Outcome.exists_map_ok_of_foldlM h

/-- The fingerprints that were found are those of the entries, in order. -/
theorem Covers.fingerprint_getElem {s : Settings κ ν} {scan : Scan κ} {entries : List (Entry κ ν)} (h : Covers s entries scan)
    {i : Nat} {entry : Entry κ ν} (hi : entries[i]? = some entry) :
    ∃ hi : i < scan.fingerprints.reverse.length, s.fingerprint entry.key = .ok scan.fingerprints.reverse[i] := by
  obtain ⟨hlength, hprints⟩ := Outcome.getElem_of_mapM h.fingerprints
  obtain ⟨hlt, rfl⟩ := List.getElem?_eq_some_iff.1 hi
  exact ⟨by rw [hlength]; exact hlt, hprints i hlt⟩

/-! ## Ranges -/

/-- Two of some keys with all of them in between. -/
structure Spans (keys : List κ) (low high : κ) : Prop where
  low_mem : low ∈ keys
  high_mem : high ∈ keys
  low_le : ∀ key ∈ keys, (compare low key).isLE
  le_high : ∀ key ∈ keys, (compare key high).isLE

/-- One more key widens the range to itself. -/
theorem rangeOf_append_singleton (keys : List κ) (key : κ) : rangeOf (keys ++ [key]) = some (widen (rangeOf keys) key) := by
  rw [rangeOf, List.foldl_append]
  rfl

/-- The keys of a range are among the keys it is the range of. -/
theorem mem_of_rangeOf {keys : List κ} {low high : κ} (h : rangeOf keys = some (low, high)) : low ∈ keys ∧ high ∈ keys := by
  induction keys using List.reverseRecOn generalizing low high with
  | nil => exact nomatch h
  | append_singleton keys key ih =>
    rw [rangeOf_append_singleton, Option.some.injEq] at h
    cases hkeys : rangeOf keys with
    | none =>
      rw [hkeys] at h
      cases h
      simp
    | some range =>
      obtain ⟨hlow, hhigh⟩ := ih hkeys
      rw [hkeys, widen, Prod.mk.injEq] at h
      obtain ⟨rfl, rfl⟩ := h
      constructor
      · split
        · simp
        · exact List.mem_append_left _ hlow
      · split
        · simp
        · exact List.mem_append_left _ hhigh

variable [Std.TransOrd κ]

/-- A range that is made wide enough for one more key spans it as well. -/
theorem Spans.widen {keys : List κ} {low high : κ} (h : Spans keys low high) (key : κ) :
    Spans (keys ++ [key]) (Scan.widen (some (low, high)) key).1 (Scan.widen (some (low, high)) key).2 := by
  have hself : (compare key key).isLE := by rw [Std.ReflOrd.compare_self]; rfl
  unfold Scan.widen
  refine ⟨?_, ?_, ?_, ?_⟩
  · dsimp only
    split
    · simp
    · simp [h.low_mem]
  · dsimp only
    split
    · simp
    · simp [h.high_mem]
  · intro other hother
    dsimp only
    rw [List.mem_append, List.mem_singleton] at hother
    split
    · rename_i hlt
      rcases hother with hother | rfl
      · exact Std.TransOrd.isLE_trans (by rw [hlt]; rfl) (h.low_le other hother)
      · exact hself
    · rename_i hnot
      rcases hother with hother | rfl
      · exact h.low_le other hother
      · rw [Std.OrientedOrd.eq_swap (a := low)]
        cases hcompare : compare other low <;> simp_all
  · intro other hother
    dsimp only
    rw [List.mem_append, List.mem_singleton] at hother
    split
    · rename_i hgt
      have hle : (compare high key).isLE := by
        rw [Std.OrientedOrd.eq_swap (a := high), hgt]
        rfl
      rcases hother with hother | rfl
      · exact Std.TransOrd.isLE_trans (h.le_high other hother) hle
      · exact hself
    · rename_i hnot
      rcases hother with hother | rfl
      · exact h.le_high other hother
      · cases hcompare : compare other high <;> simp_all

/-- The range of some keys spans them, and only no keys have none. -/
theorem spans_rangeOf (keys : List κ) :
    (keys = [] ∧ rangeOf keys = none) ∨ ∃ low high, rangeOf keys = some (low, high) ∧ Spans keys low high := by
  induction keys using List.reverseRecOn with
  | nil => exact .inl ⟨rfl, rfl⟩
  | append_singleton keys key ih =>
    right
    rw [rangeOf_append_singleton]
    rcases ih with ⟨rfl, hnone⟩ | ⟨low, high, hsome, hspans⟩
    · rw [hnone]
      exact ⟨key, key, rfl, by simp, by simp, by simp, by simp⟩
    · rw [hsome]
      exact ⟨_, _, rfl, hspans.widen key⟩

end Scan

end FrozenTable
