import FrozenTable.Proofs.Lemmas.Varying

/-!
# What a table without keys can be wrong about

A table that drops its keys has no way to tell an unknown key that the perfect hash leads to the record of another. It knows
every key that it was built from, and what it is wrong about is bounded: a key that it takes for another one has the bits that
are kept of the signature of the other one, and is between the smallest and the largest key where these are kept. None of this
depends on the way the keys are stored.
-/

namespace FrozenTable

section

variable {κ ν : Type} [HashLibrary] [Ord κ]

/-- Whether a key can be taken for another one, as it has the bits of a signature that are kept in the bucket of the other. -/
def Descriptor.TakenFor (d : Descriptor κ ν) (key other : κ) : Prop :=
  ∃ f g i kept, d.settings.fingerprint key = .ok f ∧ d.settings.fingerprint other = .ok g ∧ d.bucketOf other = .ok (some i) ∧
    d.hash.signatures.get? i = some kept ∧ kept.toNat = f.signature.toNat % 2 ^ d.settings.signatureWidth ∧
    kept.toNat = g.signature.toNat % 2 ^ d.settings.signatureWidth

/-- Whether a key is between the smallest and the largest key of some entries, where these are kept. -/
def Settings.InRange (s : Settings κ ν) (entries : List (Entry κ ν)) (key : κ) : Prop :=
  s.tracksRange = true → ∃ low high, Scan.Spans (entries.map (·.key)) low high ∧ (compare low key).isLE ∧
    (compare key high).isLE

namespace Build.Made

variable {settings : Settings κ ν} {entries slots : List (Entry κ ν)} {d : Descriptor κ ν} {records : List Bytes}
  {file : Option Bytes} {storage : Storage}

/-- A key that is led to the bucket of an entry is taken for the key of the entry. -/
theorem takenFor_of_bucketOf (h : Made settings entries d slots records file) {key : κ} {i : Nat}
    (hkey : d.bucketOf key = .ok (some i)) (hi : i < slots.length) : d.TakenFor key slots[i].key := by
  obtain ⟨-, f, kept, hf, hkept, hbits⟩ := h.kept_of_bucketOf hkey
  obtain ⟨-, g, kept', hg, hkept', hbits'⟩ := h.kept_of_bucketOf (h.bucketOf_slot hi)
  rw [hkept] at hkept'
  cases hkept'
  refine ⟨f, g, i, kept, ?_, ?_, h.bucketOf_slot hi, hkept, ?_, ?_⟩
  · rw [h.fingerprint_eq, hf]
  · rw [h.fingerprint_eq, hg]
  · rw [h.signatureWidth_eq, hbits]
  · rw [h.signatureWidth_eq, hbits']

variable [Std.TransOrd κ] [DecidableEq κ]

omit [HashLibrary] [DecidableEq κ] in
/-- A key that is not turned away by the range of a table is in range. -/
theorem inRange_of_outOfRange {t : Table κ ν} (hrange : t.range = settings.rangeOf entries) (hne : entries ≠ [])
    {key : κ} (hkey : t.outOfRange key = false) : settings.InRange entries key := by
  intro htracks
  rcases Scan.spans_rangeOf (entries.map (·.key)) with ⟨hnil, -⟩ | ⟨low, high, -, hspans⟩
  · exact absurd (List.map_eq_nil_iff.1 hnil) hne
  · exact ⟨low, high, hspans, Table.between_of_outOfRange hrange htracks hspans hkey⟩

omit [HashLibrary] [DecidableEq κ] in
/-- A key before the smallest or after the largest key of a table is turned away where these are kept. -/
theorem outOfRange_of_compare {t : Table κ ν} (hrange : t.range = settings.rangeOf entries)
    (htracks : settings.tracksRange = true) {low high : κ} (hspans : Scan.Spans (entries.map (·.key)) low high) {key : κ}
    (hkey : compare key low = .lt ∨ compare key high = .gt) : t.outOfRange key = true := by
  rw [← Bool.not_eq_false]
  intro hout
  obtain ⟨hlow, hhigh⟩ := Table.between_of_outOfRange hrange htracks hspans hout
  rcases hkey with hkey | hkey
  · rw [Std.OrientedOrd.eq_swap, hkey] at hlow
    exact nomatch hlow
  · rw [hkey] at hhigh
    exact nomatch hhigh

omit [HashLibrary] [Std.TransOrd κ] in
/-- Nothing is found out of range. -/
theorem answers_of_outOfRange {range : Option (κ × κ)} {key : κ} (hout : (Table.fresh d storage range).outOfRange key = true) :
    ((Table.fresh d storage range).get key).2 = .ok none ∧ ((Table.fresh d storage range).contains key).2 = .ok false := by
  have hfind : (Table.fresh d storage range).find key = .ok .filtered := by rw [Table.find_fresh, if_pos hout]
  constructor
  · rw [Table.get_snd, hfind]
    rfl
  · rw [Table.contains_fresh]
    cases d.settings.validation with
    | equality =>
      dsimp only
      rw [hfind]
      rfl
    | disabled =>
      dsimp only
      rw [if_pos hout]

end Build.Made

/-- A table whose build ended well has no false negatives, and its false positives are bounded: a key for which it has a
value, or which it contains, is taken for the key of an entry, with the value of the entry, and is in the range of the keys
where this is kept. Out of that range nothing is found. The offsets of records have to be kept for this, so the table has
to be supported. -/
theorem Build.opened_bounds_mistakes [Spelled κ] [Spelled ν] [Std.TransOrd κ] [DecidableEq κ] {finder : CodecFinder κ ν}
    {store store' : FileStore} {settings : Settings κ ν} {dataSize : Option Nat} {timestamp : Nat} {directory : Path}
    {entries : List (Entry κ ν)} {d : Descriptor κ ν} (hfaithful : settings.Faithful)
    (hcount : entries.length < 0x100000000)
    (hrun : run store settings dataSize timestamp directory (.ofEntries entries) = (store', .ok d))
    (hlibrary : HashLibrary.Restores) (hknown : finder.Knows settings) (hbounded : settings.Bounded)
    (hsupported : d.Supported) (opening : Opening) :
    ∃ t, opening.open finder store' directory = .ok t ∧
      (∀ entry ∈ entries, (t.contains entry.key).2 = .ok true ∧
        (settings.hasValues = true → ∃ value, entry.value = some value ∧ (t.get entry.key).2 = .ok (some value))) ∧
      (∀ key value, (t.get key).2 = .ok (some value) →
        settings.InRange entries key ∧ ∃ entry ∈ entries, entry.value = some value ∧ d.TakenFor key entry.key) ∧
      (∀ key, (t.contains key).2 = .ok true →
        settings.InRange entries key ∧ ∃ entry ∈ entries, d.TakenFor key entry.key) ∧
      (settings.tracksRange = true → ∀ low high, Scan.Spans (entries.map (·.key)) low high →
        ∀ key, compare key low = .lt ∨ compare key high = .gt →
          (t.get key).2 = .ok none ∧ (t.contains key).2 = .ok false) := by
  obtain ⟨slots, records, file, storage, hmade, hserves, hopen⟩ :=
    opened_of_run hfaithful hcount hrun hlibrary hknown hbounded hsupported opening
  have hslot {i : Nat} (hi : i < slots.length) : slots[i] ∈ entries := hmade.arranged.perm.mem_iff.1 (List.getElem_mem hi)
  have hinRange {key : κ} (hout : (Table.fresh d storage (settings.rangeOf entries)).outOfRange key = false) {i : Nat}
      (hi : i < slots.length) : settings.InRange entries key :=
    Made.inRange_of_outOfRange rfl (List.ne_nil_of_mem (hslot hi)) hout
  refine ⟨_, hopen, ?_, ?_, ?_, ?_⟩
  · intro entry hentry
    refine ⟨hmade.contains_of_mem hfaithful hserves hentry, ?_⟩
    intro hvalues
    obtain ⟨value, hvalue⟩ := hmade.exists_value hvalues hentry
    refine ⟨value, hvalue, ?_⟩
    rw [Table.get_snd, hmade.find_of_mem hfaithful hserves hentry, Settings.stored, if_pos hvalues, hvalue]
    rfl
  · intro key value hget
    rw [Table.get_snd, Outcome.map_eq_ok] at hget
    obtain ⟨finding, hfind, hvalue⟩ := hget
    cases finding with
    | filtered | missing => exact nomatch hvalue
    | retrieved found =>
      obtain ⟨hout, i, hi, hkey, hjudge⟩ := hmade.exists_of_find hfaithful hserves hfind
      have hfound : found = some value := hvalue
      have hstored := Settings.value_of_judge hjudge
      rw [hfound, Settings.stored] at hstored
      dsimp only at hstored
      split at hstored
      · exact ⟨hinRange hout hi, slots[i], hslot hi, hstored.symm, hmade.takenFor_of_bucketOf hkey hi⟩
      · exact nomatch hstored
  · intro key hcontains
    obtain ⟨hout, i, hi, hkey⟩ := hmade.exists_of_contains hfaithful hserves hcontains
    exact ⟨hinRange hout hi, slots[i], hslot hi, hmade.takenFor_of_bucketOf hkey hi⟩
  · intro htracks low high hspans key hkey
    exact Made.answers_of_outOfRange (Made.outOfRange_of_compare rfl htracks hspans hkey)

end

/-- A table of four entries without their keys, of different sizes and with selected offsets, knows the keys, and smaller and
larger ones are out of its range. -/
theorem Build.opened_four_bounds_mistakes : ∃ store d t, ofFour (.varied .implicit .selected .equality) = (store, .ok d) ∧
    openFour store .map = .ok t ∧ (∀ entry ∈ four, (t.contains entry.key).2 = .ok true ∧
      (t.get entry.key).2 = .ok entry.value) ∧
    ∀ key, compare key 1 = .lt ∨ compare key 4 = .gt → (t.get key).2 = .ok none ∧ (t.contains key).2 = .ok false := by
  obtain ⟨store, d, hrun, hsupported⟩ := ofFour_varied .implicit .selected .equality nofun
  obtain ⟨t, hopen, hknown, -, -, hbeyond⟩ := opened_bounds_mistakes (Settings.faithful_varied _ _ _) (by decide) hrun
    HashFunction.restores_byOrder (Settings.knows_varied _ _ _) (Settings.formed_varied _ _ _).bounded hsupported .map
  have hspans : Scan.Spans (four.map (·.key)) 1 4 := by
    refine ⟨by decide, by decide, ?_, ?_⟩
    all_goals
      intro key hkey
      fin_cases hkey <;> decide
  refine ⟨store, d, t, hrun, hopen, fun entry hentry => ?_, hbeyond rfl 1 4 hspans⟩
  obtain ⟨hcontains, hvalue⟩ := hknown entry hentry
  obtain ⟨value, hsome, hget⟩ := hvalue rfl
  exact ⟨hcontains, hsome ▸ hget⟩

/-- With a line that falls, which an image of settings may have, a key of the table has the value of no entry, and for another
one both lookups fail. -/
theorem Build.opened_falling_mistakes_known : ∃ bytes store d t,
    Settings.decode .varied bytes = some (.falling .implicit .selected .equality) ∧
    (Settings.falling .implicit .selected .equality).validate = .ok () ∧
    ofFour (.falling .implicit .selected .equality) = (store, .ok d) ∧ openFour store .map = .ok t ∧
    (t.get 1).2 = .ok (some (-2)) ∧ (∀ entry ∈ four, entry.value ≠ some (-2)) ∧ (t.get 3).2 = .error .varintTruncated ∧
    (t.contains 3).2 = .error .varintTruncated := by
  obtain ⟨hdecode, hvalid⟩ := Settings.decode_falling .implicit .selected .equality nofun
  obtain ⟨store, d, t, hrun, hopen, hwrong, hfails, hfails'⟩ :=
    ofFour_of_evaluation .implicit .selected .equality nofun (.inr rfl) .map
      (fun _ t => (t.get 1).2 = .ok (some (-2)) ∧ (t.get 3).2 = .error .varintTruncated ∧
        (t.contains 3).2 = .error .varintTruncated) (by decide +kernel)
  exact ⟨_, store, d, t, hdecode, hvalid, hrun, hopen, hwrong, by decide, hfails, hfails'⟩

end FrozenTable
