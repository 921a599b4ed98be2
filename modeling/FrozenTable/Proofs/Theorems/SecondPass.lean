import FrozenTable.Proofs.Lemmas.Permuting
import FrozenTable.Proofs.Theorems.Buildable
import FrozenTable.Proofs.Theorems.Pieces
import FrozenTable.Proofs.Theorems.Replacing

/-!
# What the second pass of a build is checked against

A source of entries may yield others when it is passed over again. The second pass of a build does not have the keys of the first
one to compare with. It has their hash, and it notes which buckets have their record, how many records there are and how long
they are together. So it takes an entry for the one of the first pass in the same bucket, as far as the bits of the signature
that are kept tell. `Descriptor.StandsFor` says when this happens: the entries of a build that ended well stand for those of the
first pass, one for one. Missing, additional and repeated keys never pass; a key that was not hashed passes only if it stands
for one that does not come again.
-/

namespace FrozenTable

variable {κ ν : Type}

/-- The bytes of the keys of entries, as far as they can be written. -/
def Settings.encodings (s : Settings κ ν) (entries : List (Entry κ ν)) : List (Except Fault Bytes) :=
  entries.map fun entry => s.keyBytes entry.key

/-- Whether a key can come in the place of another one unnoticed: the hash leads both to one bucket, where the same bits are
kept of their signatures. -/
def Descriptor.StandsFor (d : Descriptor κ ν) (key other : κ) : Prop :=
  ∃ f g i, d.settings.fingerprint key = .ok f ∧ d.settings.fingerprint other = .ok g ∧ d.bucketOf key = .ok (some i) ∧
    d.bucketOf other = .ok (some i) ∧
    f.signature.toNat % 2 ^ d.settings.signatureWidth = g.signature.toNat % 2 ^ d.settings.signatureWidth

/-- Keys that the hash leads to one bucket stand for one another. -/
theorem Descriptor.standsFor_of_bucketOf {d : Descriptor κ ν} {fingerprints : List Fingerprint}
    (hs : d.hash.Separates d.settings.signatureWidth fingerprints) (hwidth : d.settings.signatureWidth ≤ 64) {key other : κ}
    {i : Nat} (hkey : d.bucketOf key = .ok (some i)) (hother : d.bucketOf other = .ok (some i)) : d.StandsFor key other := by
  obtain ⟨f, hf, hslot⟩ := Outcome.bind_eq_ok.1 (d.bucketOf_eq key ▸ hkey)
  obtain ⟨g, hg, hslot'⟩ := Outcome.bind_eq_ok.1 (d.bucketOf_eq other ▸ hother)
  obtain ⟨-, hkept⟩ := hs.kept_of_slot hwidth hslot
  obtain ⟨-, hkept'⟩ := hs.kept_of_slot hwidth hslot'
  have hbits := congrArg UInt64.toNat (Option.some.inj (hkept.symm.trans hkept'))
  rw [PackedArray.toNat_and_mask hwidth, PackedArray.toNat_and_mask hwidth] at hbits
  exact ⟨f, g, i, hf, hg, hkey, hother, hbits⟩

/-! ## Entries side by side -/

/-- Entries of two passes side by side: the hash leads them to the same buckets, each pair to one of its own. -/
structure Abreast (d : Descriptor κ ν) (entries others : List (Entry κ ν)) (buckets : List Nat) : Prop where
  nodup : buckets.Nodup
  leads : entries.mapM (fun entry => d.bucketOf entry.key) = .ok (buckets.map some)
  leads_others : others.mapM (fun entry => d.bucketOf entry.key) = .ok (buckets.map some)

namespace Abreast

variable {d : Descriptor κ ν} {entries others : List (Entry κ ν)} {buckets : List Nat}

theorem symm (h : Abreast d entries others buckets) : Abreast d others entries buckets :=
  ⟨h.nodup, h.leads_others, h.leads⟩

theorem length_eq (h : Abreast d entries others buckets) : entries.length = others.length := by
  obtain ⟨hlength, -⟩ := Outcome.getElem_of_mapM h.leads
  obtain ⟨hlength', -⟩ := Outcome.getElem_of_mapM h.leads_others
  exact hlength.symm.trans hlength'

theorem exists_bucket (h : Abreast d entries others buckets) {i : Nat} (hi : i < entries.length) (hi' : i < others.length) :
    ∃ b, d.bucketOf entries[i].key = .ok (some b) ∧ d.bucketOf others[i].key = .ok (some b) := by
  obtain ⟨hlength, hled⟩ := Outcome.getElem_of_mapM h.leads
  obtain ⟨_, hled'⟩ := Outcome.getElem_of_mapM h.leads_others
  have hlt : i < buckets.length := by
    rw [← hlength, List.length_map] at hi
    exact hi
  refine ⟨buckets[i], ?_, ?_⟩
  · rw [hled i hi, List.getElem_map]
  · rw [hled' i hi', List.getElem_map]

/-- Of the one side only the entry beside another one is led where this one is. -/
theorem eq_of_keyBytes (h : Abreast d entries others buckets) {i : Nat} (hi : i < entries.length) (hi' : i < others.length)
    {entry : Entry κ ν} (hentry : entry ∈ entries)
    (hsame : d.settings.keyBytes entry.key = d.settings.keyBytes others[i].key) : entry = entries[i] := by
  obtain ⟨b, hb, hb'⟩ := h.exists_bucket hi hi'
  have hbucket : d.bucketOf entry.key = d.bucketOf entries[i].key := by
    rw [hb, ← hb', d.bucketOf_eq_slotOfBytes, d.bucketOf_eq_slotOfBytes, hsame]
  have hnodup := h.nodup.map (Option.some_injective Nat)
  exact Outcome.eq_of_mapM_nodup h.leads hnodup hentry (List.getElem_mem hi) hbucket

/-- If the keys on the one side are not those on the other, side by side, then some key has bytes that none of the other side
has, and neither has the one beside it. -/
theorem exists_stranger (h : Abreast d entries others buckets)
    (hdiffer : d.settings.encodings others ≠ d.settings.encodings entries) :
    ∃ i, ∃ hi : i < entries.length, ∃ hi' : i < others.length,
      d.settings.keyBytes others[i].key ∉ d.settings.encodings entries ∧
      d.settings.keyBytes entries[i].key ∉ d.settings.encodings others := by
  obtain ⟨i, hi, hi', hstranger⟩ : ∃ i, ∃ _ : i < entries.length, ∃ hi' : i < others.length,
      d.settings.keyBytes others[i].key ∉ d.settings.encodings entries := by
    by_contra hnone
    push Not at hnone
    refine hdiffer (List.ext_getElem ?_ ?_)
    · rw [Settings.encodings, Settings.encodings, List.length_map, List.length_map, h.length_eq]
    · intro i hi hi'
      rw [Settings.encodings, List.length_map] at hi hi'
      obtain ⟨entry, hentry, hsame⟩ := List.mem_map.1 (hnone i hi' hi)
      simp only [Settings.encodings, List.getElem_map]
      rw [← hsame, h.eq_of_keyBytes hi' hi hentry hsame]
  refine ⟨i, hi, hi', hstranger, ?_⟩
  intro hfound
  obtain ⟨other, hother, hsame⟩ := List.mem_map.1 hfound
  rw [h.symm.eq_of_keyBytes hi' hi hother hsame] at hsame
  rw [hsame] at hstranger
  exact hstranger (List.mem_map_of_mem (List.getElem_mem hi))

/-- Entries side by side stand for one another. -/
theorem standsFor (h : Abreast d entries others buckets) {fingerprints : List Fingerprint}
    (hs : d.hash.Separates d.settings.signatureWidth fingerprints) (hwidth : d.settings.signatureWidth ≤ 64) {i : Nat}
    (hi : i < entries.length) (hi' : i < others.length) : d.StandsFor others[i].key entries[i].key := by
  obtain ⟨b, hb, hb'⟩ := h.exists_bucket hi hi'
  exact Descriptor.standsFor_of_bucketOf hs hwidth hb' hb

/-- If the keys on the two sides are not the same, whatever the order they come in, then one that is on the one side only stands
for one that is on the other side only. -/
theorem exists_stranger_of_not_perm (h : Abreast d entries others buckets) {fingerprints : List Fingerprint}
    (hs : d.hash.Separates d.settings.signatureWidth fingerprints) (hwidth : d.settings.signatureWidth ≤ 64)
    {later : List (Entry κ ν)} (horder : others.Perm later)
    (hdiffer : ¬ (d.settings.encodings later).Perm (d.settings.encodings entries)) :
    ∃ new ∈ later, ∃ old ∈ entries, d.StandsFor new.key old.key ∧ d.settings.keyBytes new.key ∉ d.settings.encodings entries ∧
      d.settings.keyBytes old.key ∉ d.settings.encodings later := by
  have hencodings : (d.settings.encodings others).Perm (d.settings.encodings later) := horder.map _
  have hne : d.settings.encodings others ≠ d.settings.encodings entries := by
    intro heq
    rw [heq] at hencodings
    exact hdiffer hencodings.symm
  obtain ⟨i, hi, hi', hnew, hold⟩ := h.exists_stranger hne
  have hlater : others[i] ∈ later := horder.mem_iff.1 (List.getElem_mem hi')
  refine ⟨others[i], hlater, entries[i], List.getElem_mem hi, h.standsFor hs hwidth hi hi', hnew, ?_⟩
  intro hfound
  exact hold (hencodings.mem_iff.2 hfound)

end Abreast

namespace Build

section

variable [HashLibrary] [Ord κ] [Spelled κ] [Spelled ν] {settings : Settings κ ν} {dataSize : Option Nat}
  {first later : List (Entry κ ν)} {d : Descriptor κ ν}

/-- What is known of a build that ended well with other entries on its second pass: they stand for those of the first one, one
for one, and the size of their records is the one that was declared, or else the one that the first pass has found. If their
keys are not those of the first pass, then one that was not hashed stands for one that did not come again. -/
structure Admitted (settings : Settings κ ν) (dataSize : Option Nat) (first later : List (Entry κ ν)) (d : Descriptor κ ν) :
    Prop where
  standFor : ∃ order, order.Perm later ∧ List.Forall₂ (fun old new => d.StandsFor new.key old.key) first order
  written : ∃ records, later.mapM settings.record = .ok records ∧ d.dataSize = (records.map List.length).sum
  declared : ∀ size, dataSize = some size → d.dataSize = size
  found : dataSize = none → ∃ sizes, first.mapM settings.recordSize = .ok sizes ∧ d.dataSize = sizes.sum
  stranger : ¬ (settings.encodings later).Perm (settings.encodings first) → ∃ new ∈ later, ∃ old ∈ first,
    d.StandsFor new.key old.key ∧ settings.keyBytes new.key ∉ settings.encodings first ∧
      settings.keyBytes old.key ∉ settings.encodings later

omit [Spelled ν] in
/-- The entries of a second pass that ended well stand beside those of the first one in some order. -/
theorem exists_abreast_of_arrange {settings' : Settings κ ν} {scan : Scan κ} {hash : PerfectHash} {arranged : Bytes × List Nat}
    (hhashed : Hashed settings dataSize (.changing first later) scan hash) {size : Nat}
    (harrange : arrange settings' hash size (later.map .ok) = .ok arranged) (hkeys : settings'.keyBytes = settings.keyBytes)
    (hsettings : d.settings = settings') (hhash : d.hash = hash) :
    ∃ order buckets, order.Perm later ∧ Abreast d first order buckets := by
  have hsame : Hashed settings dataSize (.ofEntries first) scan hash := ⟨hhashed.flaw_eq_none, hhashed.scanned, hhashed.built⟩
  have hseats := hsame.seats size settings.shardSize
  obtain ⟨data, sizes⟩ := arranged
  obtain ⟨slots, records, harranged, -⟩ := sorted_of_arrange harrange
  have hseats' := harranged.seats size settings.shardSize
  have hbucketOf (entry : Entry κ ν) :
      d.bucketOf entry.key = settings.keyBytes entry.key >>= hash.slotOfBytes := by
    rw [d.bucketOf_eq_slotOfBytes, hsettings, hhash, hkeys]
  have hperm : (scan.fingerprints.reverse.map hash.place).Perm (List.range hash.length) :=
    ((List.reverse_perm _).map _).trans hhashed.separates.places_perm
  have hled : slots.mapM (fun entry => d.bucketOf entry.key) = .ok ((List.range hash.length).map some) := by
    simp only [hbucketOf, ← hkeys]
    exact hseats'.leads
  obtain ⟨order, horder, hleads⟩ := Outcome.exists_perm_of_mapM hled (hperm.map some)
  refine ⟨order, _, horder.trans harranged.perm, hseats.nodup, ?_, hleads⟩
  simp only [hbucketOf]
  exact hseats.leads

/-- A second pass takes what stands for the entries of the first one. -/
theorem admitted_of_run {store store' : FileStore} {timestamp : Nat} {directory : Path}
    (hrun : run store settings dataSize timestamp directory (.changing first later) = (store', .ok d)) :
    Admitted settings dataSize first later d := by
  obtain ⟨scan, hash, settings', data, sizes, offsets, keys, hhashed, hresolved, harrange, -, -, rfl, -⟩ := parts_of_run hrun
  obtain ⟨hsettings, -⟩ := resolved_eq_ok hhashed.flaw_eq_none hresolved
  have hkeys : settings'.keyBytes = settings.keyBytes := by
    rw [hsettings]
    rfl
  have hsame : settings'.signatureWidth = settings.signatureWidth := by rw [hsettings]
  have hwidth : settings'.signatureWidth ≤ 64 := hsame ▸ signatureWidth_le hhashed.flaw_eq_none
  have hseparates : hash.Separates settings'.signatureWidth scan.fingerprints := hsame ▸ hhashed.separates
  obtain ⟨order, buckets, horder, habreast⟩ :=
    exists_abreast_of_arrange (d := .new settings' hash offsets.select (dataSize.getD scan.dataSize) keys timestamp
      (.inDirectory directory)) hhashed harrange hkeys rfl rfl
  have hencodings : settings'.encodings = settings.encodings := by
    funext entries
    rw [Settings.encodings, hkeys]
    rfl
  refine ⟨⟨order, horder, ?_⟩, ?_, ?_, ?_, ?_⟩
  · refine List.forall₂_iff_get.2 ⟨habreast.length_eq, ?_⟩
    intro i hi hi'
    exact habreast.standsFor hseparates hwidth hi hi'
  · obtain ⟨records, hrecords, -, hsum⟩ := records_of_arrange harrange
    have hrecord : settings'.record = settings.record := by
      rw [hsettings]
      rfl
    exact ⟨records, hrecord ▸ hrecords, hsum⟩
  · rintro size rfl
    rfl
  · rintro rfl
    exact Scan.dataSize_of_run hhashed.scanned
  · rw [← hencodings, ← hkeys]
    exact habreast.exists_stranger_of_not_perm hseparates hwidth horder

/-- What a build that failed leaves: the store as it was, if it has not come to write, and else no descriptor, so that nothing
opens. -/
def LeavesNoTable [DecidableEq κ] (finder : CodecFinder κ ν) (store store' : FileStore) (settings : Settings κ ν)
    (dataSize : Option Nat) (directory : Path) (source : Source κ ν) : Prop :=
  (store' = store ∧ ∀ scan hash, ¬ Hashed settings dataSize source scan hash) ∨
    (∃ place data offsets, store.Left store' directory place data offsets none) ∧
      ∀ opening : Opening, opening.open finder store' directory = .error (.file .notFound)

/-- A build that fails leaves no table of its own. -/
theorem leavesNoTable_of_run [DecidableEq κ] (finder : CodecFinder κ ν) {store store' : FileStore} {timestamp : Nat}
    {directory : Path} {source : Source κ ν} (hos : Unhindered store settings dataSize timestamp directory source) {fault : Fault}
    (hrun : run store settings dataSize timestamp directory source = (store', .error fault)) :
    LeavesNoTable finder store store' settings dataSize directory source := by
  by_cases hhashed : ∃ scan hash, Hashed settings dataSize source scan hash
  · right
    obtain ⟨scan, hash, hhashed⟩ := hhashed
    obtain ⟨draft, -, hdraft⟩ := hhashed.run_eq
    obtain ⟨left, place, hleft, hfiles⟩ := hdraft store timestamp directory hos
    rw [hleft, Prod.mk.injEq] at hrun
    obtain ⟨rfl, houtcome⟩ := hrun
    cases hfault : draft.outcome with
    | ok d =>
      rw [hfault] at houtcome
      cases houtcome
    | error fault' =>
      rw [hfault] at hfiles
      exact ⟨⟨place, draft.data, draft.offsets, hfiles⟩, open_of_left finder hfiles⟩
  · left
    simp only [not_exists] at hhashed
    obtain ⟨fault', hrefused⟩ := run_of_not_hashed hhashed store timestamp directory
    rw [hrefused, Prod.mk.injEq] at hrun
    exact ⟨hrun.1.symm, hhashed⟩

/-- The second pass of a build is checked against the hash of the first one, not against its keys.

If the build ends well, then the entries of the second pass stand for those of the first one, one for one, and their records
have the size that is due. Their keys may still be others; each that was not hashed stands for one that did not come again, in
the same bucket with the same bits of the signature. If the build fails, it leaves no table of its own. It fails whenever the
keys of the two passes are not the same and all keys of the one pass are among those of the other, so when keys are missing,
come twice or are added. -/
theorem second_pass_stands_for_first [DecidableEq κ] (finder : CodecFinder κ ν) {store : FileStore} {timestamp : Nat}
    {directory : Path} (hos : Unhindered store settings dataSize timestamp directory (.changing first later)) :
    (∀ store' d, run store settings dataSize timestamp directory (.changing first later) = (store', .ok d) →
      Admitted settings dataSize first later d) ∧
    (∀ store' fault, run store settings dataSize timestamp directory (.changing first later) = (store', .error fault) →
      LeavesNoTable finder store store' settings dataSize directory (.changing first later)) ∧
    (¬ (settings.encodings later).Perm (settings.encodings first) →
      settings.encodings later ⊆ settings.encodings first ∨ settings.encodings first ⊆ settings.encodings later →
      ∃ store' fault, run store settings dataSize timestamp directory (.changing first later) = (store', .error fault)) := by
  refine ⟨?_, ?_, ?_⟩
  · intro store' d hrun
    exact admitted_of_run hrun
  · intro store' fault hrun
    exact leavesNoTable_of_run finder hos hrun
  · intro hdiffer hamong
    cases hrun : run store settings dataSize timestamp directory (.changing first later) with
    | mk store' outcome =>
      cases outcome with
      | error fault => exact ⟨store', fault, rfl⟩
      | ok d =>
        obtain ⟨new, hnew, old, hold, -, hunknown, hgone⟩ := (admitted_of_run hrun).stranger hdiffer
        rcases hamong with hsubset | hsubset
        · exact absurd (hsubset (List.mem_map_of_mem hnew)) hunknown
        · exact absurd (hsubset (List.mem_map_of_mem hold)) hgone

end

/-- A key that comes twice on the second pass is noticed, and no table is left. -/
theorem second_pass_of_one_twice : ∃ store fault,
    @run _ _ .single _ _ _ (.rooted ["work"]) (.longs .explicit .fixed) none 0 ["work", "table"]
      (.changing [⟨7, some 5⟩] [⟨7, some 5⟩, ⟨7, some 5⟩]) = (store, .error fault) ∧
    @LeavesNoTable _ _ .single _ _ .longs (.rooted ["work"]) store (.longs .explicit .fixed) none ["work", "table"]
      (.changing [⟨7, some 5⟩] [⟨7, some 5⟩, ⟨7, some 5⟩]) := by
  let _ : HashLibrary := .single
  have haccepts : (FileStore.rooted ["work"]).Accepts ["work", "table"] := by decide +kernel
  obtain ⟨-, hleaves, hfails⟩ := second_pass_stands_for_first .longs
    (unhindered_of_accepts haccepts (.longs .explicit .fixed) none 0 (.changing [⟨7, some 5⟩] [⟨7, some 5⟩, ⟨7, some 5⟩]))
  have hmore : ¬ ((Settings.longs .explicit .fixed).encodings [⟨7, some 5⟩, ⟨7, some 5⟩]).Perm
      ((Settings.longs .explicit .fixed).encodings [⟨7, some 5⟩]) := by
    intro hperm
    exact absurd hperm.length_eq (by decide)
  obtain ⟨store, fault, hrun⟩ := hfails hmore (.inl (by simp [Settings.encodings]))
  exact ⟨store, fault, hrun, hleaves store fault hrun⟩

/-- Builds a table without signatures from one entry where the second pass yields another one. -/
def changingSingle : FileStore × Except Fault (Descriptor Int64 Int64) :=
  @run _ _ .single _ _ _ (.rooted ["work"]) (Settings.initial.changed [.keyCodec .long, .valueCodec .long]) none 0
    ["work", "table"] (.changing [⟨1, some 1⟩] [⟨2, some 2⟩])

/-- Without signatures another key is taken for the one that was hashed, and its table has a descriptor. -/
theorem second_pass_of_another_key : ∃ settings : Settings Int64 Int64,
    settings = Settings.initial.changed [.keyCodec .long, .valueCodec .long] ∧
    ¬ (settings.encodings [⟨2, some 2⟩]).Perm (settings.encodings [⟨1, some 1⟩]) ∧
    ∃ store d, @run _ _ .single _ _ _ (.rooted ["work"]) settings none 0 ["work", "table"]
        (.changing [⟨1, some 1⟩] [⟨2, some 2⟩]) = (store, .ok d) ∧
      (store.find? ["work", "table", TablePaths.descriptorName]).isSome = true := by
  refine ⟨_, rfl, ?_, ?_⟩
  · intro hperm
    have hsame : Codec.longBytes 2 ++ [] = Codec.longBytes 1 ++ [] :=
      Except.ok.inj (List.singleton_perm_singleton.1 hperm)
    exact absurd hsame (by decide)
  · have hbuilt : changingSingle.2.toOption.isSome = true := by decide +kernel
    have hfile : (changingSingle.1.find? ["work", "table", TablePaths.descriptorName]).isSome = true := by decide +kernel
    exact ⟨changingSingle.1, _, Prod.ext rfl (Outcome.eq_ok_get hbuilt), hfile⟩

end Build

end FrozenTable
