import FrozenTable.Proofs.Lemmas.Varying

/-!
# A table with stored keys is a finite map

A table that keeps its keys and compares them answers for every key, whether it was built from it or not, and its answers are
those of the finite map of its entries. The unknown keys are the point: the perfect hash leads them to records of other keys,
from which they are told by the key in the record. What the codecs say about sizes does not matter, as a build fails when a
size is not what it should be.
-/

namespace FrozenTable

namespace Build.Made

variable {κ ν : Type} [HashLibrary] [Ord κ] [DecidableEq κ] {settings : Settings κ ν} {entries slots : List (Entry κ ν)}
  {d : Descriptor κ ν} {records : List Bytes} {file : Option Bytes} {storage : Storage}

omit [DecidableEq κ] in
/-- With a key codec that writes every key, every key has a fingerprint. -/
theorem exists_fingerprint (h : Made settings entries d slots records file)
    (htotal : ∀ codec, settings.keyCodec = some codec → codec.Total) (key : κ) :
    ∃ f, settings.fingerprint key = .ok f := by
  have hflaw := h.flaw_eq_none
  unfold Settings.flaw at hflaw
  cases hcodec : settings.keyCodec with
  | none =>
    rw [hcodec] at hflaw
    exact nomatch hflaw
  | some codec =>
    obtain ⟨bytes, hbytes⟩ := htotal codec hcodec key
    have hwrite : settings.keyBytes key = .ok bytes := by
      rw [Settings.keyBytes, Settings.needKeyCodec, hcodec]
      exact hbytes
    exact ⟨_, Settings.fingerprint_of_keyBytes hwrite⟩

/-- A key that was not among the entries is turned away: before any record is read, or by the key in the record. -/
theorem find_of_not_mem (h : Made settings entries d slots records file) (hexplicit : settings.keyStorage = .explicit)
    (hequality : settings.validation = .equality) (hfaithful : settings.Faithful)
    (htotal : ∀ codec, settings.keyCodec = some codec → codec.Total) (hserves : storage.Serves d records)
    (range : Option (κ × κ)) {key : κ} (hkey : key ∉ entries.map (·.key)) :
    (Table.fresh d storage range).find key = .ok .filtered ∨ (Table.fresh d storage range).find key = .ok .missing := by
  by_cases hout : (Table.fresh d storage range).outOfRange key = true
  · left
    rw [Table.find_fresh, if_pos hout]
  rw [Bool.not_eq_true] at hout
  obtain ⟨f, hf⟩ := h.exists_fingerprint htotal key
  obtain ⟨slot, hslot⟩ := h.bucketOf_of_fingerprint hf
  cases slot with
  | none =>
    left
    rw [Table.find_fresh, hout, if_neg Bool.false_ne_true, hslot]
    rfl
  | some i =>
    right
    have hi := (h.kept_of_bucketOf hslot).1
    have hne : slots[i].key ≠ key := by
      rintro rfl
      exact hkey (List.mem_map_of_mem (h.arranged.perm.mem_iff.1 (List.getElem_mem hi)))
    have hstores : settings.storesKeys = true := by
      rw [Settings.storesKeys, hexplicit]
      rfl
    rw [h.find_of_bucketOf hfaithful hserves hout hslot hi]
    simp only [Settings.judge, Settings.acceptance, hequality, Settings.stored, hstores, if_true, Acceptance.sameKey,
      if_neg hne]

end Build.Made

/-- A table whose build ended well, with stored keys that are compared, opens in every way and is the finite map of its
entries: no key has two entries, exactly the keys of entries are contained, each of them has its value where values are kept,
and nothing else has a value.

A table whose settings come of changes is supported; for another one it is asked, since with a line that falls the offsets of
records may be lost. -/
theorem Build.opened_is_finite_map {κ ν : Type} [HashLibrary] [Ord κ] [DecidableEq κ] [Spelled κ] [Spelled ν]
    [Std.TransOrd κ] {finder : CodecFinder κ ν} {store store' : FileStore} {settings : Settings κ ν} {dataSize : Option Nat}
    {timestamp : Nat} {directory : Path} {entries : List (Entry κ ν)} {d : Descriptor κ ν}
    (hexplicit : settings.keyStorage = .explicit) (hequality : settings.validation = .equality) (hfaithful : settings.Faithful)
    (htotal : ∀ codec, settings.keyCodec = some codec → codec.Total) (hcount : entries.length < 0x100000000)
    (hrun : run store settings dataSize timestamp directory (.ofEntries entries) = (store', .ok d))
    (hlibrary : HashLibrary.Restores) (hknown : finder.Knows settings) (hbounded : settings.Bounded)
    (hsupported : d.Supported) (opening : Opening) :
    ∃ t, opening.open finder store' directory = .ok t ∧ (entries.map (·.key)).Nodup ∧ ∀ key,
      (t.contains key).2 = .ok (decide (key ∈ entries.map (·.key))) ∧
      (settings.hasValues = true → ∀ value, ⟨key, some value⟩ ∈ entries → (t.get key).2 = .ok (some value)) ∧
      (settings.hasValues = false ∨ key ∉ entries.map (·.key) → (t.get key).2 = .ok none) := by
  obtain ⟨slots, records, file, storage, hmade, hserves, hopen⟩ :=
    opened_of_run hfaithful hcount hrun hlibrary hknown hbounded hsupported opening
  have hvalidation : d.settings.validation = .equality := by rw [hmade.settings_eq, hequality]
  have hmiss (key : κ) (hkey : key ∉ entries.map (·.key)) :=
    hmade.find_of_not_mem hexplicit hequality hfaithful htotal hserves (settings.rangeOf entries) hkey
  have hhit (entry : Entry κ ν) (hentry : entry ∈ entries) := hmade.find_of_mem hfaithful hserves hentry
  have hnodup : (entries.map (·.key)).Nodup := (hmade.arranged.perm.map _).nodup_iff.1 hmade.keys_nodup
  refine ⟨_, hopen, hnodup, ?_⟩
  intro key
  refine ⟨?_, ?_, ?_⟩
  · simp only [Table.contains_fresh, hvalidation]
    by_cases hkey : key ∈ entries.map (·.key)
    · obtain ⟨entry, hentry, rfl⟩ := List.mem_map.1 hkey
      rw [hhit entry hentry, decide_eq_true hkey]
      rfl
    · rw [decide_eq_false hkey]
      rcases hmiss key hkey with hmissed | hmissed <;> rw [hmissed] <;> rfl
  · intro hvalues value hentry
    have hfound := hhit ⟨key, some value⟩ hentry
    simp only [Settings.stored, hvalues, if_true] at hfound
    rw [Table.get_snd, hfound]
    rfl
  · intro hnone
    rw [Table.get_snd]
    by_cases hkey : key ∈ entries.map (·.key)
    · obtain ⟨entry, hentry, rfl⟩ := List.mem_map.1 hkey
      have hvalues := hnone.resolve_right (not_not_intro hkey)
      rw [hhit entry hentry, Settings.stored, hvalues]
      rfl
    · rcases hmiss key hkey with hmissed | hmissed <;> rw [hmissed] <;> rfl

/-- The table of four entries of different sizes, with selected offsets, has their keys with their values and no other key. -/
theorem Build.opened_four_is_finite_map : ∃ store d t, ofFour (.varied .explicit .selected .equality) = (store, .ok d) ∧
    openFour store .map = .ok t ∧ (∀ key, (t.contains key).2 = .ok (decide (key ∈ four.map (·.key)))) ∧
    (t.get 1).2 = .ok (some 1) ∧ (t.get 2).2 = .ok (some 2) ∧ (t.get 3).2 = .ok (some 100) ∧ (t.get 4).2 = .ok (some 200) ∧
    (t.get 5).2 = .ok none := by
  obtain ⟨store, d, hrun, hsupported⟩ := ofFour_varied .explicit .selected .equality nofun
  obtain ⟨t, hopen, -, hanswers⟩ := opened_is_finite_map rfl rfl (Settings.faithful_varied _ _ _)
    (Settings.total_varied _ _ _) (by decide) hrun HashFunction.restores_byOrder (Settings.knows_varied _ _ _)
    (Settings.formed_varied _ _ _).bounded hsupported .map
  have hvalue (key value : Int64) (hentry : ⟨key, some value⟩ ∈ four) : (t.get key).2 = .ok (some value) :=
    (hanswers key).2.1 rfl value hentry
  exact ⟨store, d, t, hrun, hopen, fun key => (hanswers key).1, hvalue 1 1 (by decide), hvalue 2 2 (by decide),
    hvalue 3 100 (by decide), hvalue 4 200 (by decide), (hanswers 5).2.2 (.inr (by decide))⟩

/-- Not so with the same settings and a line that falls, which an image of settings may have: the build ends well and the table
opens, but two keys are not there any more and a third one leads to a fault. -/
theorem Build.opened_falling_is_no_finite_map : ∃ bytes store d t,
    Settings.decode .varied bytes = some (.falling .explicit .selected .equality) ∧
    (Settings.falling .explicit .selected .equality).validate = .ok () ∧
    ofFour (.falling .explicit .selected .equality) = (store, .ok d) ∧ openFour store .map = .ok t ∧
    (t.get 1).2 = .ok none ∧ (t.contains 1).2 = .ok false ∧ (t.get 2).2 = .ok none ∧
    (t.get 3).2 = .error .varintTruncated ∧ (t.get 4).2 = .ok (some 200) := by
  obtain ⟨hdecode, hvalid⟩ := Settings.decode_falling .explicit .selected .equality nofun
  obtain ⟨store, d, t, hrun, hopen, hfound⟩ := ofFour_of_evaluation .explicit .selected .equality nofun (.inr rfl) .map
    (fun _ t => (t.get 1).2 = .ok none ∧ (t.contains 1).2 = .ok false ∧ (t.get 2).2 = .ok none ∧
      (t.get 3).2 = .error .varintTruncated ∧ (t.get 4).2 = .ok (some 200)) (by decide +kernel)
  exact ⟨_, store, d, t, hdecode, hvalid, hrun, hopen, hfound⟩

end FrozenTable
