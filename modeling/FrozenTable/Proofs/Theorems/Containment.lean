import FrozenTable.Proofs.Theorems.Signatures

/-!
# Whether a key is contained is told as its value is

A table that looks at the keys in its records answers whether it contains a key by the whole lookup. Without such a look it reads
no record for that: the range of the keys and the perfect hash decide. Where records have values both ways agree with asking for
the value, for unknown keys as well, as every bucket that a key is led to holds a record with a value. Records without values
have none to answer with, and what they are for is told by containment alone.
-/

namespace FrozenTable

/-- A record with a value is found exactly when a value is answered. -/
theorem Settings.isSome_value_judge {κ ν : Type} [DecidableEq κ] (s : Settings κ ν) (asked : κ) {found : Option κ × Option ν}
    (hvalue : found.2.isSome = true) : (s.judge asked found).value.isSome = (s.judge asked found).isRetrieved := by
  cases hjudge : s.judge asked found with
  | filtered | missing => rfl
  | retrieved value =>
    rw [value_of_judge hjudge]
    exact hvalue

namespace Build.Made

variable {κ ν : Type} [HashLibrary] [Ord κ] [DecidableEq κ] {settings : Settings κ ν} {entries slots : List (Entry κ ν)}
  {d : Descriptor κ ν} {records : List Bytes} {file : Option Bytes} {storage : Storage}

/-- A lookup of a key that is in range ends as asking for its bucket does, until there is a record to judge. -/
theorem find_of_inRange (h : Made settings entries d slots records file) (hfaithful : settings.Faithful)
    (hserves : storage.Serves d records) {range : Option (κ × κ)} {key : κ}
    (hrange : (Table.fresh d storage range).outOfRange key = false) :
    (∃ fault, d.bucketOf key = .error fault ∧ (Table.fresh d storage range).find key = .error fault) ∨
      (d.bucketOf key = .ok none ∧ (Table.fresh d storage range).find key = .ok .filtered) ∨
      ∃ i, ∃ hi : i < slots.length, d.bucketOf key = .ok (some i) ∧
        (Table.fresh d storage range).find key = .ok (settings.judge key (settings.stored slots[i])) := by
  cases hslot : d.bucketOf key with
  | error fault =>
    refine .inl ⟨fault, rfl, ?_⟩
    rw [Table.find_fresh, hrange, if_neg Bool.false_ne_true, hslot]
    rfl
  | ok slot =>
    cases slot with
    | none =>
      refine .inr (.inl ⟨rfl, ?_⟩)
      rw [Table.find_fresh, hrange, if_neg Bool.false_ne_true, hslot]
      rfl
    | some i =>
      have hi := (h.kept_of_bucketOf hslot).1
      exact .inr (.inr ⟨i, hi, rfl, h.find_of_bucketOf hfaithful hserves hrange hslot hi⟩)

omit [DecidableEq κ] in
/-- The record of an entry of a table with values has one. -/
theorem isSome_stored (h : Made settings entries d slots records file) (hvalues : settings.hasValues = true) {i : Nat}
    (hi : i < slots.length) : (settings.stored slots[i]).2.isSome = true := by
  obtain ⟨value, hvalue⟩ := h.exists_value hvalues (h.arranged.perm.mem_iff.1 (List.getElem_mem hi))
  rw [Settings.stored, if_pos hvalues, hvalue]
  rfl

/-- Where there are values a table contains the keys that it has a value for, and fails for the same keys in the same way. -/
theorem contains_eq_get (h : Made settings entries d slots records file) (hfaithful : settings.Faithful)
    (hserves : storage.Serves d records) (hvalues : settings.hasValues = true) (range : Option (κ × κ)) (key : κ) :
    ((Table.fresh d storage range).contains key).2 = ((Table.fresh d storage range).get key).2.map Option.isSome := by
  rw [Table.contains_fresh, Table.get_snd]
  cases hrange : (Table.fresh d storage range).outOfRange key with
  | true =>
    have hfind : (Table.fresh d storage range).find key = .ok .filtered := by rw [Table.find_fresh, if_pos hrange]
    rw [hfind]
    cases d.settings.validation <;> rfl
  | false =>
    rcases h.find_of_inRange hfaithful hserves hrange with ⟨fault, hslot, hfind⟩ | ⟨hslot, hfind⟩ | ⟨i, hi, hslot, hfind⟩
    · rw [hslot, hfind]
      cases d.settings.validation <;> rfl
    · rw [hslot, hfind]
      cases d.settings.validation <;> rfl
    · rw [hslot, hfind]
      have hjudge := settings.isSome_value_judge key (h.isSome_stored hvalues hi)
      cases hvalidation : d.settings.validation with
      | equality => exact congrArg Except.ok hjudge.symm
      | disabled =>
        -- without a look at the record every record is found
        have hnone : settings.validation = .disabled := by rw [← hvalidation, h.settings_eq]
        have hretrieved : (settings.judge key (settings.stored slots[i])).isRetrieved = true := by
          rw [Settings.judge, Settings.acceptance, hnone]
          rfl
        rw [hretrieved] at hjudge
        exact congrArg Except.ok hjudge.symm

/-- Where there are no values none is answered. -/
theorem value_eq_none_of_get (h : Made settings entries d slots records file) (hfaithful : settings.Faithful)
    (hserves : storage.Serves d records) (hvalues : settings.hasValues = false) {range : Option (κ × κ)} {key : κ}
    {value : Option ν} (hget : ((Table.fresh d storage range).get key).2 = .ok value) : value = none := by
  rw [Table.get_snd, Outcome.map_eq_ok] at hget
  obtain ⟨finding, hfind, rfl⟩ := hget
  cases finding with
  | filtered | missing => rfl
  | retrieved value =>
    obtain ⟨-, i, hi, -, hjudge⟩ := h.exists_of_find hfaithful hserves hfind
    have hstored := Settings.value_of_judge hjudge
    rw [Settings.stored, hvalues] at hstored
    exact hstored

/-- A key that can be written is answered for. -/
theorem answers_of_keyBytes (h : Made settings entries d slots records file) (hfaithful : settings.Faithful)
    (hserves : storage.Serves d records) (range : Option (κ × κ)) {key : κ} {bytes : Bytes}
    (hbytes : settings.keyBytes key = .ok bytes) :
    (∃ held, ((Table.fresh d storage range).contains key).2 = .ok held) ∧
      ∃ value, ((Table.fresh d storage range).get key).2 = .ok value := by
  obtain ⟨slot, hslot⟩ := h.bucketOf_of_fingerprint (Settings.fingerprint_of_keyBytes hbytes)
  have hfind : ∃ finding, (Table.fresh d storage range).find key = .ok finding := by
    cases hrange : (Table.fresh d storage range).outOfRange key with
    | true => exact ⟨.filtered, by rw [Table.find_fresh, if_pos hrange]⟩
    | false =>
      rcases h.find_of_inRange hfaithful hserves hrange with ⟨fault, hnone, -⟩ | ⟨-, hfind⟩ | ⟨i, hi, -, hfind⟩
      · rw [hslot] at hnone
        cases hnone
      · exact ⟨_, hfind⟩
      · exact ⟨_, hfind⟩
  obtain ⟨finding, hfind⟩ := hfind
  constructor
  · rw [Table.contains_fresh]
    cases d.settings.validation with
    | equality => exact ⟨finding.isRetrieved, by dsimp only; rw [hfind]; rfl⟩
    | disabled =>
      dsimp only
      split
      · exact ⟨false, rfl⟩
      · exact ⟨slot.isSome, by rw [hslot]; rfl⟩
  · exact ⟨finding.value, by rw [Table.get_snd, hfind]; rfl⟩

end Build.Made

/-- A build that found the same on each pass and ended well found entries only. -/
theorem Build.exists_ofEntries_of_run {κ ν : Type} [HashLibrary] [Ord κ] [Spelled κ] [Spelled ν] {store store' : FileStore}
    {settings : Settings κ ν} {dataSize : Option Nat} {timestamp : Nat} {directory : Path} {source : Source κ ν}
    {d : Descriptor κ ν} (hsame : source.later = source.first)
    (hrun : run store settings dataSize timestamp directory source = (store', .ok d)) :
    ∃ entries : List (Entry κ ν), source = .ofEntries entries := by
  obtain ⟨scan, hash, storage, arranged, hhashed, -⟩ := exists_arrange_of_run hrun
  obtain ⟨entries, hentries⟩ := Scan.exists_entries_of_run hhashed.scanned
  refine ⟨entries, ?_⟩
  cases source
  cases hsame
  cases hentries
  rfl

/-- A table of a build that found the same entries on each pass and ended well, opened in any way, contains the keys that it was
built from. Every key that can be written is answered for, both when it is asked whether the table contains it and when its
value is asked for. Where records have values the table contains a key exactly when it has a value for it, and where the one
answer is a fault the other one is the same. Where they have none, no key has a value. As only one of the two reads a record,
this takes a table that is supported. -/
theorem Build.opened_contains_what_it_gets {κ ν : Type} [HashLibrary] [Ord κ] [DecidableEq κ] [Spelled κ] [Spelled ν]
    [Std.TransOrd κ] {finder : CodecFinder κ ν} {store store' : FileStore} {settings : Settings κ ν} {dataSize : Option Nat}
    {timestamp : Nat} {directory : Path} {source : Source κ ν} {d : Descriptor κ ν} (hfaithful : settings.Faithful)
    (hsame : source.later = source.first) (hcount : source.first.length < 0x100000000)
    (hrun : run store settings dataSize timestamp directory source = (store', .ok d))
    (hlibrary : HashLibrary.Restores) (hknown : finder.Knows settings) (hbounded : settings.Bounded)
    (hsupported : d.Supported) (opening : Opening) :
    ∃ t, opening.open finder store' directory = .ok t ∧
      (∀ entry, .ok entry ∈ source.first → (t.contains entry.key).2 = .ok true) ∧
      (∀ key bytes, settings.keyBytes key = .ok bytes →
        (∃ held, (t.contains key).2 = .ok held) ∧ ∃ value, (t.get key).2 = .ok value) ∧
      (settings.hasValues = true → ∀ key, (t.contains key).2 = (t.get key).2.map Option.isSome) ∧
      (settings.hasValues = false → ∀ key value, (t.get key).2 = .ok value → value = none) := by
  obtain ⟨entries, rfl⟩ := exists_ofEntries_of_run hsame hrun
  have hlength : entries.length < 0x100000000 := (List.length_map _).symm.trans_lt hcount
  obtain ⟨slots, records, file, storage, hmade, hserves, hopen⟩ :=
    opened_of_run hfaithful hlength hrun hlibrary hknown hbounded hsupported opening
  refine ⟨_, hopen, ?_, ?_, ?_, ?_⟩
  · intro entry hentry
    obtain ⟨found, hfound, hok⟩ := List.mem_map.1 hentry
    cases hok
    exact hmade.contains_of_mem hfaithful hserves hfound
  · intro key bytes hbytes
    exact hmade.answers_of_keyBytes hfaithful hserves _ hbytes
  · intro hvalues key
    exact hmade.contains_eq_get hfaithful hserves hvalues _ key
  · intro hvalues key value hget
    exact hmade.value_eq_none_of_get hfaithful hserves hvalues hget

/-- A table of four entries of different sizes, with selected offsets and without a look at the keys in records, contains their
keys, and any other key exactly when it has a value for it. -/
theorem Build.opened_four_contains_what_it_gets : ∃ store d t,
    ofFour (.varied .explicit .selected .disabled) = (store, .ok d) ∧ openFour store .map = .ok t ∧
    (∀ entry ∈ four, (t.contains entry.key).2 = .ok true) ∧
    ∀ key, ∃ held value, (t.contains key).2 = .ok held ∧ (t.get key).2 = .ok value ∧ held = value.isSome := by
  obtain ⟨store, d, hrun, hsupported⟩ := ofFour_varied .explicit .selected .disabled nofun
  obtain ⟨t, hopen, hcontained, hanswers, hagree, -⟩ := opened_contains_what_it_gets (Settings.faithful_varied _ _ _) rfl
    (by decide) hrun HashFunction.restores_byOrder (Settings.knows_varied _ _ _) (Settings.formed_varied _ _ _).bounded
    hsupported .map
  refine ⟨store, d, t, hrun, hopen, fun entry hentry => hcontained entry (List.mem_map_of_mem hentry), ?_⟩
  intro key
  obtain ⟨bytes, hbytes⟩ : ∃ bytes, (Settings.varied .explicit .selected .disabled).keyBytes key = .ok bytes :=
    Codec.total_long key
  obtain ⟨⟨held, hheld⟩, value, hvalue⟩ := hanswers key bytes hbytes
  have hsame := hagree rfl key
  rw [hheld, hvalue] at hsame
  exact ⟨held, value, hheld, hvalue, Except.ok.inj hsame⟩

/-- With a line that falls, which an image of settings may have, a key is contained and asking for its value fails. -/
theorem Build.opened_falling_contains_without_value : ∃ bytes store d t,
    Settings.decode .varied bytes = some (.falling .explicit .selected .disabled) ∧
    (Settings.falling .explicit .selected .disabled).validate = .ok () ∧
    ofFour (.falling .explicit .selected .disabled) = (store, .ok d) ∧ openFour store .map = .ok t ∧
    (t.contains 3).2 = .ok true ∧ (t.get 3).2 = .error .varintTruncated := by
  obtain ⟨hdecode, hvalid⟩ := Settings.decode_falling .explicit .selected .disabled nofun
  obtain ⟨store, d, t, hrun, hopen, hcontains, hfails⟩ :=
    ofFour_of_evaluation .explicit .selected .disabled nofun (.inr rfl) .map
      (fun _ t => (t.contains 3).2 = .ok true ∧ (t.get 3).2 = .error .varintTruncated) (by decide +kernel)
  exact ⟨_, store, d, t, hdecode, hvalid, hrun, hopen, hcontains, hfails⟩

end FrozenTable
