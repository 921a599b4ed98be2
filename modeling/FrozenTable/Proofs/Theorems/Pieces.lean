import FrozenTable.Proofs.Lemmas.Refusing
import FrozenTable.Proofs.Lemmas.Supporting

/-!
# A lookup hashes a key as the build did

A build has the bytes of a key at hand and hashes them at once, in its first pass to make the hash and in its second one to find
the bucket of the record. A lookup hashes the key while its codec writes it, in as many pieces as the codec likes. A key would be
lost if the two ever told different fingerprints. They tell the same one for all bytes and all ways to cut them, so the bucket a
lookup goes to is the one that the build asked for.
-/

namespace FrozenTable

variable {κ ν : Type}

/-! ## Keys -/

/-- The fingerprint that a build takes of a key is the one that a lookup takes piece by piece. -/
theorem Settings.fingerprint_eq_ofPieces (s : Settings κ ν) (key : κ) :
    s.fingerprint key = (s.keyPieces key).map .ofPieces := by
  unfold fingerprint keyBytes keyPieces Codec.write
  cases s.needKeyCodec with
  | error fault => rfl
  | ok codec =>
    simp only [Outcome.ok_bind]
    cases codec.pieces key with
    | error fault => rfl
    | ok pieces => exact congrArg Except.ok (Fingerprint.ofPieces_eq pieces).symm

/-- A lookup asks the hash for the bytes of the key, and fails where these cannot be written. -/
theorem Descriptor.bucketOf_eq_slotOfBytes (d : Descriptor κ ν) (key : κ) :
    d.bucketOf key = d.settings.keyBytes key >>= d.hash.slotOfBytes := by
  rw [bucketOf_eq, Settings.fingerprint]
  cases d.settings.keyBytes key <;> rfl

/-! ## Passes -/

/-- The fingerprints that a first pass has found are those that lookups of its keys take. -/
theorem Scan.Covers.ofPieces [Ord κ] {s : Settings κ ν} {entries : List (Entry κ ν)} {scan : Scan κ}
    (h : Covers s entries scan) :
    entries.mapM (fun entry => (s.keyPieces entry.key).map .ofPieces) = .ok scan.fingerprints.reverse := by
  rw [← h.fingerprints]
  congr 1
  funext entry
  exact (s.fingerprint_eq_ofPieces entry.key).symm

/-- The buckets that are marked are those of the records that came in. -/
theorem Spread.Holds.holds_eq_decide {p : ShardPlan} {s : Spread} {arrivals : List (Nat × Bytes)} (hs : Holds p s arrivals)
    {bucket : Nat} (hlt : bucket < p.buckets) : s.holds bucket = .ok (decide (bucket ∈ arrivals.map Prod.fst)) := by
  have hin : bucket / 64 < s.seen.words.size := by
    rw [hs.seen_size]
    exact div_lt_wordsFor hlt
  have hbit : bitAt s.seen.words bucket = decide (bucket ∈ arrivals.map Prod.fst) := by
    rw [Bool.eq_iff_iff, hs.seen_iff, decide_eq_true_iff]
  rw [holds, BitSet.get?_eq_some.2 ⟨hin, hbit⟩]

/-- The buckets that a second pass has marked are those to which lookups of its keys go, in the order of its entries. -/
theorem Descriptor.leads_of_run [Spelled κ] (d : Descriptor κ ν) {dataSize : Nat} {entries : List (Entry κ ν)} {s : Spread}
    (h : Spread.run d.settings d.hash (.of d.hash.length dataSize d.settings.shardSize) (entries.map .ok) = .ok s) :
    ∃ buckets : List Nat, entries.mapM (fun entry => d.bucketOf entry.key) = .ok (buckets.map some) ∧
      ∀ b < d.hash.length, s.holds b = .ok (decide (b ∈ buckets)) := by
  obtain ⟨arrivals, htakes, hs⟩ := Spread.holds_of_run (ShardPlan.covers_of _ _ _) rfl h
  refine ⟨arrivals.map Prod.fst, ?_, fun b hb => hs.holds_eq_decide hb⟩
  simp only [d.bucketOf_eq_slotOfBytes]
  exact Spread.leads_of_takes htakes

/-- However bytes are cut into pieces, and be some of these empty, their fingerprint taken piece by piece is the one taken at
once. So a lookup of any key, with any codec and any hash, asks for what the hash has for the bytes of the key, and both passes
of a build have asked for the same: the first one has found the fingerprints that lookups take, and the second one has marked
the buckets that lookups go to. -/
theorem Descriptor.lookups_hash_as_builds [Ord κ] [Spelled κ] :
    (∀ (bytes : Bytes) (pieces : List Bytes), pieces.flatten = bytes → Fingerprint.ofPieces pieces = .ofBytes bytes) ∧
    ∀ d : Descriptor κ ν,
      (∀ key, d.bucketOf key = d.settings.keyBytes key >>= d.hash.slotOfBytes) ∧
      (∀ sized (entries : List (Entry κ ν)) scan, Scan.run d.settings sized (entries.map .ok) = .ok scan →
        entries.mapM (fun entry => (d.settings.keyPieces entry.key).map .ofPieces) = .ok scan.fingerprints.reverse) ∧
      ∀ dataSize (entries : List (Entry κ ν)) s,
        Spread.run d.settings d.hash (.of d.hash.length dataSize d.settings.shardSize) (entries.map .ok) = .ok s →
        ∃ buckets : List Nat, entries.mapM (fun entry => d.bucketOf entry.key) = .ok (buckets.map some) ∧
          ∀ b < d.hash.length, s.holds b = .ok (decide (b ∈ buckets)) := by
  constructor
  · rintro bytes pieces rfl
    exact Fingerprint.ofPieces_eq pieces
  · intro d
    refine ⟨d.bucketOf_eq_slotOfBytes, ?_, ?_⟩
    · intro sized entries scan h
      exact (Scan.covers_of_run h).ofPieces
    · intro dataSize entries s h
      exact d.leads_of_run h

/-- A text that is written in two pieces has the fingerprint of its bytes, and so have these with an empty piece among them. The
build of a table of one entry has found the fingerprint that a lookup of the key takes, and marked the bucket it goes to. -/
theorem Descriptor.lookups_hash_as_single_builds :
    (∃ bytes, Codec.string.write "key" = .ok bytes ∧ Codec.string.pieces "key" = .ok [[3], [107, 101, 121]] ∧
      Fingerprint.ofPieces [[3], [107, 101, 121]] = .ofBytes bytes ∧
      Fingerprint.ofPieces [[3, 107], [], [101, 121]] = .ofBytes bytes) ∧
    ∃ store d scan s bucket, Build.single .explicit .fixed = (store, .ok d) ∧
      Scan.run d.settings false [.ok ⟨7, some 5⟩] = .ok scan ∧ scan.fingerprints = [.ofPieces [Codec.longBytes 7]] ∧
      Spread.run d.settings d.hash (.of d.hash.length d.dataSize d.settings.shardSize) [.ok ⟨7, some 5⟩] = .ok s ∧
      d.bucketOf 7 = .ok (some bucket) ∧ s.holds bucket = .ok true := by
  let _ : HashLibrary := .single
  obtain ⟨hpieces, hdescriptor⟩ := @lookups_hash_as_builds Int64 Int64 _ _
  refine ⟨⟨[3, 107, 101, 121], by decide +kernel, by decide +kernel, hpieces _ _ rfl, hpieces _ _ rfl⟩, ?_⟩
  obtain ⟨store, d, hsingle, -⟩ := Build.single_eq_ok .explicit .fixed
  obtain ⟨scan, hash, settings, data, sizes, offsets, keys, hhashed, hresolved, harrange, -, -, rfl, -⟩ :=
    Build.parts_of_run hsingle
  cases hresolved
  obtain ⟨s, hrun, -⟩ := Outcome.bind_eq_ok.1 harrange
  obtain ⟨-, hfirst, hsecond⟩ :=
    hdescriptor (.new (.longs .explicit .fixed) hash offsets.select scan.dataSize keys 0 (.inDirectory ["work", "table"]))
  obtain ⟨buckets, hbuckets, hmarked⟩ := hsecond _ [⟨7, some 5⟩] s hrun
  obtain ⟨slot, hslot, hkey⟩ := Outcome.exists_of_mapM hbuckets List.mem_cons_self
  obtain ⟨bucket, hbucket, rfl⟩ := List.mem_map.1 hslot
  have hprints := hfirst false [⟨7, some 5⟩] scan hhashed.scanned
  have hlt : bucket < hash.length := by
    rw [Descriptor.bucketOf_eq_slotOfBytes] at hkey
    obtain ⟨bytes, -, hslot⟩ := Outcome.bind_eq_ok.1 hkey
    exact PerfectHash.lt_of_slotOfBytes hslot
  have hmark := hmarked bucket hlt
  rw [decide_eq_true hbucket] at hmark
  refine ⟨store, _, scan, s, bucket, hsingle, hhashed.scanned, ?_, hrun, hkey, hmark⟩
  exact List.reverse_eq_iff.1 (Except.ok.inj hprints).symm

end FrozenTable
