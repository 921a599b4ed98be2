import FrozenTable.PerfectHash.Ordered
import FrozenTable.Proofs.Lemmas.Opening

/-!
# Distinct fingerprints can be hashed

A build of a hash turns away fingerprints that are there twice, and what else could go wrong lies with the library of hash
functions. `HashLibrary.Resolves` says what is asked of it: its functions lead the fingerprints they were made from to places
of their own. Then a hash is built exactly of distinct fingerprints (`PerfectHash.build_eq_ok_iff`). Functions that go by the
order of their fingerprints do what is asked of a library.
-/

namespace FrozenTable

/-- A library whose functions lead the fingerprints that they were made from, in order and none there twice, to as many
places, each to its own. -/
def HashLibrary.Resolves [HashLibrary] : Prop :=
  ∀ keys : List Fingerprint, keys ≠ [] → (keys.Pairwise fun f g => f.toNat < g.toNat) →
    (∀ f ∈ keys, (train keys).bucket f < keys.length) ∧ (keys.map (train keys).bucket).Nodup

namespace Fingerprint

theorem le_trans {a b c : Fingerprint} (hab : a.le b = true) (hbc : b.le c = true) : a.le c = true := by
  rw [le_iff] at *
  exact Nat.le_trans hab hbc

/-- A fingerprint is its number. -/
theorem ofNat_toNat (f : Fingerprint) : ofNat f.toNat = f := by
  have hlow := f.low.toNat_lt
  have hhigh : f.toNat / 0x10000000000000000 = f.high.toNat := by
    unfold toNat
    omega
  have hword : UInt64.ofNat f.toNat = f.low := by
    rw [← UInt64.toNat_inj, UInt64.toNat_ofNat', toNat]
    omega
  rw [ofNat, hhigh, hword, UInt64.ofNat_toNat]

/-- Fingerprints that stand on both sides of each other are one. -/
theorem le_antisymm {a b : Fingerprint} (hab : a.le b = true) (hba : b.le a = true) : a = b := by
  rw [le_iff] at hab hba
  exact toNat_inj.1 (Nat.le_antisymm hab hba)

theorem le_total (a b : Fingerprint) : (a.le b || b.le a) = true := by
  rw [Bool.or_eq_true, le_iff, le_iff]
  exact Nat.le_total a.toNat b.toNat

/-- Sorting puts fingerprints in order. -/
theorem pairwise_mergeSort (fingerprints : List Fingerprint) :
    (fingerprints.mergeSort le).Pairwise fun f g => f.le g = true :=
  @List.pairwise_mergeSort _ le (fun _ _ _ => le_trans) le_total fingerprints

end Fingerprint

namespace PerfectHash

/-! ## Fingerprints that are there twice -/

/-- Of fingerprints in order, one that is there twice is followed by itself. -/
theorem firstRepeated_eq_none_iff {keys : List Fingerprint} (h : keys.Pairwise fun f g => f.le g = true) :
    firstRepeated keys = none ↔ keys.Pairwise fun f g => f.toNat < g.toNat := by
  induction keys with
  | nil => simp [firstRepeated]
  | cons f rest ih =>
    cases rest with
    | nil => simp [firstRepeated]
    | cons g rest =>
      obtain ⟨hfirst, hrest⟩ := List.pairwise_cons.1 h
      have hle := (Fingerprint.le_iff f g).1 (hfirst g List.mem_cons_self)
      rw [firstRepeated]
      by_cases hsame : f = g
      · subst hsame
        simp
      · have hlt : f.toNat < g.toNat := by
          have hne : f.toNat ≠ g.toNat := fun heq => hsame (Fingerprint.toNat_inj.1 heq)
          omega
        rw [if_neg hsame, ih hrest, List.pairwise_cons (a := f)]
        constructor
        · intro hpairs
          refine ⟨?_, hpairs⟩
          intro k hk
          rcases List.mem_cons.1 hk with rfl | hk
          · exact hlt
          · exact Nat.lt_trans hlt ((List.pairwise_cons.1 hpairs).1 k hk)
        · exact fun hpairs => hpairs.2

/-- Fingerprints that rise are all different. -/
theorem nodup_of_increasing {keys : List Fingerprint} (h : keys.Pairwise fun f g => f.toNat < g.toNat) : keys.Nodup := by
  refine h.imp ?_
  rintro f g hlt rfl
  exact Nat.lt_irrefl _ hlt

/-- Fingerprints in order, none of which is there twice, increase. -/
theorem increasing_of_nodup {keys : List Fingerprint} (h : keys.Pairwise fun f g => f.le g = true) (hnodup : keys.Nodup) :
    keys.Pairwise fun f g => f.toNat < g.toNat := by
  refine (h.and hnodup).imp ?_
  rintro f g ⟨hle, hne⟩
  have hle := (Fingerprint.le_iff f g).1 hle
  have hne : f.toNat ≠ g.toNat := fun heq => hne (Fingerprint.toNat_inj.1 heq)
  omega

/-! ## Building -/

/-- Signatures can be kept at places that are apart and free. -/
theorem signAll_eq_ok {length : Nat} {function : HashFunction} {seen : BitSet} {signatures : PackedArray}
    {keys : List Fingerprint} (hlt : ∀ f ∈ keys, function.bucket f < length) (hnodup : (keys.map function.bucket).Nodup)
    (hseen : seen.words.size = wordsFor length) (hfree : ∀ f ∈ keys, bitAt seen.words (function.bucket f) = false) :
    ∃ kept, signAll length function seen signatures keys = .ok kept := by
  induction keys generalizing seen signatures with
  | nil => exact ⟨signatures, rfl⟩
  | cons f rest ih =>
    rw [List.map_cons, List.nodup_cons] at hnodup
    have hplace := hlt f List.mem_cons_self
    have hin : function.bucket f / 64 < seen.words.size := by
      rw [hseen]
      exact div_lt_wordsFor hplace
    have hget : seen.get? (function.bucket f) = some false :=
      BitSet.get?_eq_some.2 ⟨hin, hfree f List.mem_cons_self⟩
    have hgo : ¬ (length ≤ function.bucket f ∨ seen.get? (function.bucket f) ≠ some false) := by
      rw [not_or, Decidable.not_not]
      exact ⟨Nat.not_le.2 hplace, hget⟩
    simp only [signAll, if_neg hgo]
    refine ih (fun g hg => hlt g (List.mem_cons_of_mem _ hg)) hnodup.2 (by rw [BitSet.size_set]; exact hseen) ?_
    intro g hg
    have hne : function.bucket g ≠ function.bucket f := by
      intro hsame
      exact hnodup.1 (hsame ▸ List.mem_map_of_mem hg)
    rw [BitSet.bitAt_set hin, hfree g (List.mem_cons_of_mem _ hg), decide_eq_false hne]
    rfl

/-- A hash is built of distinct fingerprints, and of no others. -/
theorem build_eq_ok_iff [HashLibrary] (hlibrary : HashLibrary.Resolves) {fingerprints : List Fingerprint} {width : Nat} :
    (∃ h, build fingerprints width = .ok h) ↔ fingerprints.Nodup := by
  have hperm : (fingerprints.mergeSort Fingerprint.le).Perm fingerprints := List.mergeSort_perm _ _
  have hsorted := Fingerprint.pairwise_mergeSort fingerprints
  rw [← hperm.nodup_iff, build]
  generalize fingerprints.mergeSort Fingerprint.le = keys at hsorted
  constructor
  · rintro ⟨h, hbuild⟩
    split at hbuild
    · exact nomatch hbuild
    · rename_i hnone
      exact nodup_of_increasing ((firstRepeated_eq_none_iff hsorted).1 hnone)
  · intro hnodup
    have hincreasing := increasing_of_nodup hsorted hnodup
    rw [(firstRepeated_eq_none_iff hsorted).2 hincreasing, ofSorted]
    by_cases hempty : keys = []
    · subst hempty
      exact ⟨_, rfl⟩
    obtain ⟨hlt, hapart⟩ := hlibrary keys hempty hincreasing
    obtain ⟨kept, hkept⟩ : ∃ kept, signAll keys.length (HashLibrary.train keys) (.clear keys.length)
        (.zeros width keys.length) keys = .ok kept :=
      signAll_eq_ok hlt hapart (by simp [BitSet.clear]) (by simp [BitSet.clear, bitAt_replicate])
    simp only [List.isEmpty_iff, if_neg hempty, hkept, Outcome.ok_bind]
    exact ⟨_, rfl⟩

/-- The hash does not depend on the order in which fingerprints are given. -/
theorem build_perm [HashLibrary] {fingerprints fingerprints' : List Fingerprint} (h : fingerprints.Perm fingerprints')
    (width : Nat) : build fingerprints width = build fingerprints' width := by
  have hsame : fingerprints.mergeSort Fingerprint.le = fingerprints'.mergeSort Fingerprint.le := by
    refine List.Perm.eq_of_pairwise (fun f g _ _ hfg hgf => Fingerprint.le_antisymm hfg hgf)
      (Fingerprint.pairwise_mergeSort fingerprints) (Fingerprint.pairwise_mergeSort fingerprints') ?_
    exact (List.mergeSort_perm _ _).trans (h.trans (List.mergeSort_perm _ _).symm)
  rw [build, build, hsame]

/-- Fingerprints that increase need no sorting. -/
theorem build_of_increasing [HashLibrary] {keys : List Fingerprint} (h : keys.Pairwise fun f g => f.toNat < g.toNat)
    (width : Nat) : build keys width = ofSorted keys width := by
  have hle : keys.Pairwise fun f g => f.le g = true := h.imp fun hlt => (Fingerprint.le_iff _ _).2 (Nat.le_of_lt hlt)
  rw [build, List.mergeSort_of_pairwise hle, (firstRepeated_eq_none_iff hle).2 h]

/-- The only fault of a check for a bijection is that it is none. -/
theorem eq_of_signAll_eq_error {length : Nat} {function : HashFunction} {seen : BitSet} {signatures : PackedArray}
    {keys : List Fingerprint} {fault : Fault} (h : signAll length function seen signatures keys = .error fault) :
    fault = .hashUnresolvable length := by
  induction keys generalizing seen signatures with
  | nil => exact nomatch h
  | cons f rest ih =>
    simp only [signAll] at h
    split at h
    · cases h
      rfl
    · exact ih h

/-- A build of a hash fails for what it was given. -/
theorem kind_of_build_eq_error [HashLibrary] {fingerprints : List Fingerprint} {width : Nat} {fault : Fault}
    (h : build fingerprints width = .error fault) : fault.kind = .invalidInput := by
  unfold build at h
  dsimp only at h
  split at h
  · cases h
    rfl
  unfold ofSorted at h
  dsimp only at h
  split at h
  · exact nomatch h
  · rcases Outcome.bind_eq_error.1 h with hsign | ⟨kept, -, hnone⟩
    · rw [eq_of_signAll_eq_error hsign]
      rfl
    · exact nomatch hnone

end PerfectHash

/-! ## Functions that go by order -/

namespace HashFunction

/-- A fingerprint is led to its place in the order. -/
theorem placeAmong_getElem {keys : List Fingerprint} (h : keys.Pairwise fun f g => f.toNat < g.toNat) {i : Nat}
    (hi : i < keys.length) : placeAmong keys.toArray keys[i] = i := by
  have hsearch : searchFirst (fun j => keys[i].le (keys.toArray.getD j default)) 0 keys.toArray.size = i := by
    refine searchFirst_eq ?_ ?_ (Nat.zero_le i) (Nat.le_of_lt hi)
    · intro j hj
      have hlt := List.pairwise_iff_getElem.1 h j i (by omega) hi hj
      have hget : keys.toArray.getD j default = keys[j] := by simp [Array.getD, Nat.lt_trans hj hi]
      rw [hget, Bool.eq_false_iff, ne_eq, Fingerprint.le_iff]
      omega
    · intro j hj hj'
      have hj' : j < keys.length := hj'
      have hget : keys.toArray.getD j default = keys[j] := by simp [Array.getD, hj']
      rw [hget, Fingerprint.le_iff]
      rcases Nat.lt_or_eq_of_le hj with hlt | rfl
      · exact Nat.le_of_lt (List.pairwise_iff_getElem.1 h i j hi hj' hlt)
      · exact Nat.le_refl _
  simp only [placeAmong, hsearch]
  rw [if_pos (by simp [hi])]

/-- Functions that go by order lead their fingerprints apart. -/
theorem resolves_byOrder : @HashLibrary.Resolves byOrder := by
  intro keys _ hkeys
  have hbucket : (byOrder.train keys).bucket = placeAmong keys.toArray := rfl
  rw [hbucket]
  have hplaces : keys.map (placeAmong keys.toArray) = List.range keys.length := by
    refine List.ext_getElem (by simp) ?_
    intro i hi _
    rw [List.length_map] at hi
    rw [List.getElem_map, List.getElem_range, placeAmong_getElem hkeys hi]
  refine ⟨?_, by rw [hplaces]; exact List.nodup_range⟩
  intro f hf
  have hmem : placeAmong keys.toArray f ∈ List.range keys.length := by
    rw [← hplaces]
    exact List.mem_map_of_mem hf
  exact List.mem_range.1 hmem

/-- Fingerprints are read back from their bytes. -/
theorem keysFrom_flatMap (keys : List Fingerprint) :
    keysFrom keys.length (keys.flatMap fun f => Bytes.bigEndian keySize f.toNat) = some keys := by
  induction keys with
  | nil => rfl
  | cons f keys ih =>
    have hsplit := Bytes.splitExact?_append (Bytes.bigEndian keySize f.toNat)
      (keys.flatMap fun f => Bytes.bigEndian keySize f.toNat)
    rw [Bytes.length_bigEndian] at hsplit
    have hcapacity : Bytes.capacity keySize = 0x100000000000000000000000000000000 := by decide
    have hlt : f.toNat < Bytes.capacity keySize := by
      have hlow := f.low.toNat_lt
      have hhigh := f.high.toNat_lt
      rw [hcapacity, Fingerprint.toNat]
      omega
    have hread : Fingerprint.ofNat (Bytes.toNatBig (Bytes.bigEndian keySize f.toNat)) = f := by
      rw [Bytes.toNatBig_bigEndian, Nat.mod_eq_of_lt hlt, Fingerprint.ofNat_toNat]
    simp only [List.length_cons, List.flatMap_cons, keysFrom, hsplit, ih, hread, Option.pure_def, Option.bind_eq_bind,
      Option.bind_some]

/-- Functions that go by order are read back. -/
theorem restores_byOrder : @HashLibrary.Restores byOrder := by
  intro keys hkeys
  have hlength := length_flatMap_of_width (fun f : Fingerprint => Bytes.length_bigEndian keySize f.toNat) keys
  have hpos : 0 < keys.length := List.length_pos_iff.2 hkeys
  have hbytes : (keys.flatMap fun f => Bytes.bigEndian keySize f.toNat) ≠ [] := by
    rw [← List.length_pos_iff, hlength]
    exact Nat.mul_pos hpos (by decide)
  show (keysOf (keys.flatMap fun f => Bytes.bigEndian keySize f.toNat)).map ofOrdered = some (ofOrdered keys)
  rw [keysOf, if_pos ⟨by rw [hlength, Nat.mul_mod_left], hbytes⟩, hlength, Nat.mul_div_cancel _ (by decide), keysFrom_flatMap]
  rfl

end HashFunction

end FrozenTable
