import FrozenTable.PerfectHash
import FrozenTable.Proofs.Lemmas.Outcome
import FrozenTable.Proofs.Lemmas.PackedNumbers

/-!
# A perfect hash keeps its fingerprints apart

`PerfectHash.Separates` says what a hash that was built knows of its fingerprints: each has a place of its own and its signature
is kept there. Nothing is asked of the library of hash functions for this, because a build looks at every place it is given. As
there are as many places as fingerprints, every place belongs to a fingerprint, and a fingerprint that is not turned away has
the signature that is kept for the place it is led to.
-/

namespace FrozenTable

/-- A mask keeps the low bits. -/
theorem PackedArray.toNat_and_mask {width : Nat} (h : width ≤ 64) (w : UInt64) :
    (w &&& PackedArray.mask width).toNat = w.toNat % 2 ^ width := by
  refine Nat.eq_of_testBit_eq ?_
  intro i
  have hand := bitOf_and w (PackedArray.mask width) i
  rw [bitOf_mask h, Bool.and_comm] at hand
  rw [Nat.testBit_mod_two_pow]
  exact hand

namespace PerfectHash

/-- The place to which the function of a hash leads a fingerprint. -/
def place (h : PerfectHash) (f : Fingerprint) : Nat :=
  (h.function.map fun function => function.bucket f).getD 0

/-- What a hash knows of the fingerprints that it was built from. -/
structure Separates (h : PerfectHash) (width : Nat) (fingerprints : List Fingerprint) : Prop where
  length_eq : h.length = fingerprints.length
  function_eq_none : h.function = none ↔ h.length = 0
  functionSize_eq : h.functionSize = h.functionBytes.length
  width_eq : h.signatures.width = width
  signatures_length : h.signatures.length = h.length
  /-- The words of the signatures are as many as their number asks for. -/
  words_size : h.signatures.words.size = wordsFor (h.length * width)
  place_lt : ∀ f ∈ fingerprints, h.place f < h.length
  /-- No place is given twice. -/
  nodup : (fingerprints.map h.place).Nodup
  kept : ∀ f ∈ fingerprints, h.signatures.get? (h.place f) = some (f.signature &&& PackedArray.mask width)

/-! ## Building -/

namespace SignAux

/-- What is known after the signatures of some fingerprints were kept. -/
structure Signed (length : Nat) (function : HashFunction) (seen : BitSet) (before after : PackedArray)
    (fingerprints : List Fingerprint) : Prop where
  width_eq : after.width = before.width
  length_eq : after.length = before.length
  size_eq : after.words.size = before.words.size
  bucket_lt : ∀ f ∈ fingerprints, function.bucket f < length
  unseen : ∀ f ∈ fingerprints, bitAt seen.words (function.bucket f) = false
  nodup : (fingerprints.map function.bucket).Nodup
  kept : ∀ f ∈ fingerprints, after.get? (function.bucket f) = some (f.signature &&& PackedArray.mask before.width)
  /-- The places of other fingerprints are left alone. -/
  others : ∀ i < length, i ∉ fingerprints.map function.bucket → after.get? i = before.get? i

end SignAux

/-- A pass that keeps signatures and ends well found all places apart. -/
theorem signed_of_signAll {length : Nat} {function : HashFunction} {seen : BitSet} {before after : PackedArray}
    {fingerprints : List Fingerprint} (h : signAll length function seen before fingerprints = .ok after)
    (hwidth : before.width ≤ 64) (hsize : before.words.size = wordsFor (length * before.width))
    (hseen : seen.words.size = wordsFor length) :
    SignAux.Signed length function seen before after fingerprints := by
  induction fingerprints generalizing seen before with
  | nil =>
    cases h
    exact ⟨rfl, rfl, rfl, by simp, by simp, by simp, by simp, fun _ _ _ => rfl⟩
  | cons f rest ih =>
    simp only [signAll] at h
    split at h
    · exact nomatch h
    rename_i hfree
    rw [not_or, Nat.not_le, Decidable.not_not, BitSet.get?_eq_some] at hfree
    obtain ⟨hlt, hin, hclear⟩ := hfree
    have hreach : before.Reaches (function.bucket f) := .of_lt hsize hlt
    have hrest := ih h (by rw [PackedArray.width_set]; exact hwidth)
      (by rw [PackedArray.size_set, PackedArray.width_set]; exact hsize) (by rw [BitSet.size_set]; exact hseen)
    have hfresh : ∀ g ∈ rest, function.bucket g ≠ function.bucket f := by
      intro g hg hsame
      have := hrest.unseen g hg
      rw [BitSet.bitAt_set hin, hsame] at this
      simp at this
    have hnew : function.bucket f ∉ rest.map function.bucket := by
      rw [List.mem_map]
      rintro ⟨g, hg, hsame⟩
      exact hfresh g hg hsame
    have hwidth' := PackedArray.width_set before (function.bucket f) f.signature
    refine ⟨hrest.width_eq.trans hwidth', hrest.length_eq.trans (PackedArray.length_set _ _ _),
      hrest.size_eq.trans (PackedArray.size_set _ _ _), ?_, ?_, ?_, ?_, ?_⟩
    · rintro g (_ | ⟨_, hg⟩)
      · exact hlt
      · exact hrest.bucket_lt g hg
    · rintro g (_ | ⟨_, hg⟩)
      · exact hclear
      · have := hrest.unseen g hg
        rw [BitSet.bitAt_set hin, Bool.or_eq_false_iff] at this
        exact this.2
    · rw [List.map_cons, List.nodup_cons]
      exact ⟨hnew, hrest.nodup⟩
    · rintro g (_ | ⟨_, hg⟩)
      · rw [hrest.others _ hlt hnew, PackedArray.get?_set hwidth hreach hreach, if_pos rfl]
      · rw [hrest.kept g hg, hwidth']
    · intro i hi hout
      rw [List.map_cons, List.mem_cons, not_or] at hout
      rw [hrest.others i hi hout.2, PackedArray.get?_set hwidth hreach (.of_lt hsize hi), if_neg hout.1]

/-- A hash that was built separates its fingerprints. -/
theorem separates_of_build [HashLibrary] {fingerprints : List Fingerprint} {width : Nat} {h : PerfectHash}
    (hbuild : build fingerprints width = .ok h) (hwidth : width ≤ 64) : h.Separates width fingerprints := by
  have hperm : (fingerprints.mergeSort Fingerprint.le).Perm fingerprints := List.mergeSort_perm _ _
  unfold build at hbuild
  simp only at hbuild
  split at hbuild
  · exact nomatch hbuild
  revert hperm hbuild
  generalize fingerprints.mergeSort Fingerprint.le = keys
  intro hperm hbuild
  unfold ofSorted at hbuild
  by_cases hnone : keys = []
  · subst hnone
    have hempty : fingerprints = [] := hperm.nil_eq.symm
    subst hempty
    cases hbuild
    exact ⟨rfl, by simp, rfl, rfl, rfl, by simp [PackedArray.zeros], by simp, by simp, by simp⟩
  · simp only [List.isEmpty_iff, hnone, if_false, Outcome.bind_eq_ok, Outcome.pure_eq_ok] at hbuild
    obtain ⟨signatures, hsigned, rfl⟩ := hbuild
    have hsigned := signed_of_signAll hsigned hwidth (by simp [PackedArray.zeros]) (by simp [BitSet.clear])
    have hpos : keys.length ≠ 0 := by simpa using hnone
    refine ⟨hperm.length_eq, by simp [hnone], rfl, hsigned.width_eq, hsigned.length_eq, ?_, ?_, ?_, ?_⟩
    · rw [hsigned.size_eq]
      simp [PackedArray.zeros]
    · intro f hf
      exact hsigned.bucket_lt f (hperm.mem_iff.2 hf)
    · exact (hperm.map _).nodup_iff.1 hsigned.nodup
    · intro f hf
      exact hsigned.kept f (hperm.mem_iff.2 hf)

/-- The function of a hash is one that the library made. -/
theorem function_of_build [HashLibrary] {fingerprints : List Fingerprint} {width : Nat} {h : PerfectHash}
    (hbuild : build fingerprints width = .ok h) {function : HashFunction} (hfunction : h.function = some function) :
    ∃ keys, keys ≠ [] ∧ function = HashLibrary.train keys := by
  unfold build at hbuild
  dsimp only at hbuild
  split at hbuild
  · exact nomatch hbuild
  unfold ofSorted at hbuild
  by_cases hnone : fingerprints.mergeSort Fingerprint.le = []
  · simp only [hnone, List.isEmpty_nil, if_true, Outcome.pure_eq_ok] at hbuild
    subst hbuild
    exact nomatch hfunction
  · simp only [List.isEmpty_iff, hnone, if_false, Outcome.bind_eq_ok, Outcome.pure_eq_ok] at hbuild
    obtain ⟨signatures, -, rfl⟩ := hbuild
    exact ⟨_, hnone, (Option.some.inj hfunction).symm⟩

/-! ## Asking -/

/-- A hash leads no key past its buckets. -/
theorem lt_of_slotOfBytes {hash : PerfectHash} {bytes : Bytes} {bucket : Nat}
    (h : hash.slotOfBytes bytes = .ok (some bucket)) : bucket < hash.length := by
  unfold slotOfBytes slot at h
  split at h
  · cases h
  · dsimp only at h
    split at h
    · cases h
    · rename_i hlt
      obtain ⟨matches', -, h⟩ := Outcome.bind_eq_ok.1 h
      cases matches' with
      | false => cases h
      | true =>
        cases h
        exact Nat.not_le.1 hlt

namespace Separates

variable {h : PerfectHash} {width : Nat} {fingerprints : List Fingerprint}

/-- There is a signature for each bucket. -/
theorem reaches (hs : h.Separates width fingerprints) {i : Nat} (hi : i < h.length) : h.signatures.Reaches i := by
  refine .of_lt (n := h.length) ?_ hi
  rw [hs.words_size, hs.width_eq]

/-- Every place belongs to a fingerprint. -/
theorem places_perm (hs : h.Separates width fingerprints) : (fingerprints.map h.place).Perm (List.range h.length) := by
  have hsub : fingerprints.map h.place ⊆ List.range h.length := by
    intro i hi
    obtain ⟨f, hf, rfl⟩ := List.mem_map.1 hi
    exact List.mem_range.2 (hs.place_lt f hf)
  refine (hs.nodup.subperm hsub).perm_of_length_le ?_
  rw [List.length_range, List.length_map]
  exact Nat.le_of_eq hs.length_eq

/-- No fingerprint is there twice. -/
theorem fingerprints_nodup (hs : h.Separates width fingerprints) : fingerprints.Nodup :=
  List.Nodup.of_map _ hs.nodup

/-- Whether a signature is the one kept for a place is always told. -/
theorem signatureMatches_eq (hs : h.Separates width fingerprints) (hwidth : width ≤ 64) (f : Fingerprint) {i : Nat}
    (hi : i < h.length) : ∃ kept, h.signatures.get? i = some kept ∧
      h.signatureMatches f i = .ok (kept == f.signature &&& PackedArray.mask width) := by
  obtain ⟨kept, hkept, hbits⟩ := PackedArray.get?_eq (by rw [hs.width_eq]; exact hwidth) (hs.reaches hi)
  refine ⟨kept, hkept, ?_⟩
  rw [signatureMatches, signatureWidth, hs.width_eq]
  by_cases hnone : width = 0
  · rw [if_pos hnone]
    have hclear : kept = f.signature &&& PackedArray.mask width := by
      refine bitOf_ext ?_
      intro j _
      rw [hbits, bitOf_and, bitOf_mask hwidth, hs.width_eq, hnone]
      simp
    rw [beq_iff_eq.2 hclear]
  · rw [if_neg hnone, if_neg (by unfold wordBits; omega), hkept]

/-- Asking never fails. A fingerprint is led to its place when that is one of the places and has its signature. -/
theorem slot_eq (hs : h.Separates width fingerprints) (hwidth : width ≤ 64) (f : Fingerprint) :
    h.slot f = .ok (if h.place f < h.length ∧ h.signatures.get? (h.place f) = some (f.signature &&& PackedArray.mask width)
      then some (h.place f) else none) := by
  unfold slot
  cases hfunction : h.function with
  | none =>
    have hzero := hs.function_eq_none.1 hfunction
    simp [hzero]
  | some function =>
    have hplace : h.place f = function.bucket f := by rw [place, hfunction]; rfl
    rw [hplace]
    by_cases hlt : function.bucket f < h.length
    · obtain ⟨kept, hkept, hmatches⟩ := hs.signatureMatches_eq hwidth f hlt
      simp only [Nat.not_le.2 hlt, if_false, hmatches, Outcome.ok_bind, hkept, hlt, true_and, Option.some.injEq, beq_iff_eq]
      split <;> rfl
    · simp only [Nat.not_lt.1 hlt, if_true, hlt, false_and, if_false]

/-- A fingerprint that the hash was built from is led to its place. -/
theorem slot_of_mem (hs : h.Separates width fingerprints) (hwidth : width ≤ 64) {f : Fingerprint} (hf : f ∈ fingerprints) :
    h.slot f = .ok (some (h.place f)) := by
  rw [hs.slot_eq hwidth, if_pos ⟨hs.place_lt f hf, hs.kept f hf⟩]

/-- A fingerprint that is not turned away has the signature that is kept for the place it is led to. -/
theorem kept_of_slot (hs : h.Separates width fingerprints) (hwidth : width ≤ 64) {f : Fingerprint} {i : Nat}
    (hf : h.slot f = .ok (some i)) :
    i < h.length ∧ h.signatures.get? i = some (f.signature &&& PackedArray.mask width) := by
  rw [hs.slot_eq hwidth] at hf
  split at hf
  · rename_i hplace
    cases hf
    exact hplace
  · exact nomatch hf

end Separates

end PerfectHash

end FrozenTable
