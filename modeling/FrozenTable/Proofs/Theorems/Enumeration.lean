import FrozenTable.Proofs.Lemmas.Listing
import FrozenTable.Proofs.Lemmas.Varying

/-!
# A table lists its entries, each once

Each bucket of a table has one of the entries that the table was built from, and the key of an entry leads to its bucket. So
whatever goes over the buckets goes over the entries: reading buckets by number, walking through a table, and the keys and
values of a map.
-/

namespace FrozenTable

section

variable {κ ν : Type}

/-- A table with given settings that has some entries in its buckets, in order. -/
structure Table.Enumerates [Ord κ] [DecidableEq κ] [DecidableEq ν] (t : Table κ ν) (settings : Settings κ ν)
    (slots : List (Entry κ ν)) : Prop where
  size : t.size = slots.length
  entries_by_number : (List.range t.size).mapM t.entryAt = .ok (slots.map settings.stored)
  /-- Keys lead to the buckets of their entries, and lookups give the values there. -/
  led : ∀ i (hi : i < slots.length), t.descriptor.bucketOf slots[i].key = .ok (some i) ∧
    t.entryAt i = .ok (settings.stored slots[i]) ∧ t.valueAt i = (t.get slots[i].key).2
  /-- There are no other buckets. -/
  beyond : ∀ i, slots.length ≤ i → ∃ fault : Fault, fault.kind = .invalidInput ∧ t.entryAt i = .error fault ∧
    t.valueAt i = .error fault ∧ t.keyAt i = .error fault
  walk : settings.keyStorage = .explicit → t.walk = .ok ⟨0⟩ ∧ ∀ limit, (t.take limit ⟨0⟩).1 =
    (slots.take limit).map fun entry => .ok (entry.key, (settings.stored entry).2)
  entries : settings.keyStorage = .explicit →
    t.entries = .ok (slots.map fun entry => (entry.key, (settings.stored entry).2))
  keys : settings.keyStorage = .explicit → t.keys = .ok (slots.map (·.key))
  keySet : settings.keyStorage = .explicit → (ResidentMap.mk t).keySet = .ok (slots.map (·.key))
  values : (ResidentMap.mk t).values = .ok (slots.filterMap fun entry => (settings.stored entry).2)
  containsValue : ∀ value, ∃ found, (ResidentMap.mk t).containsValue value = .ok found ∧
    (found = true ↔ settings.hasValues = true ∧ ∃ entry ∈ slots, entry.value = some value)
  /-- Nothing is listed by key where keys are dropped. -/
  keyless : settings.keyStorage = .implicit → ∃ fault : Fault, fault.kind = .unsupported ∧ t.walk = .error fault ∧
    t.entries = .error fault ∧ t.keys = .error fault

/-- Some entry is kept with a value exactly if values are kept and an entry has it. -/
theorem Settings.exists_stored_iff (s : Settings κ ν) (slots : List (Entry κ ν)) (value : ν) :
    (∃ entry ∈ slots, (s.stored entry).2 = some value) ↔
      s.hasValues = true ∧ ∃ entry ∈ slots, entry.value = some value := by
  unfold stored
  by_cases hvalues : s.hasValues = true <;> simp [hvalues]

namespace Build.Made

variable [HashLibrary] [Ord κ] [DecidableEq κ] {settings : Settings κ ν} {entries slots : List (Entry κ ν)}
  {d : Descriptor κ ν} {records : List Bytes} {file : Option Bytes} {storage : Storage}

/-- The buckets hold what is kept of the entries. -/
theorem lists (h : Made settings entries d slots records file) (hfaithful : settings.Faithful)
    (hserves : storage.Serves d records) (range : Option (κ × κ)) :
    (Table.fresh d storage range).Lists (slots.map settings.stored) := by
  have hsize : (Table.fresh d storage range).size = (slots.map settings.stored).length := by
    rw [List.length_map, h.slots_length]
    rfl
  refine ⟨hsize, ?_⟩
  intro i hi
  rw [List.length_map] at hi
  rw [h.entryAt_slot hfaithful hserves range hi, List.getElem_map]

omit [DecidableEq κ] in
theorem storesKeys_eq (h : Made settings entries d slots records file) : d.settings.storesKeys = settings.storesKeys := by
  rw [h.settings_eq]
  rfl

theorem walk_fresh (h : Made settings entries d slots records file) (storage : Storage) (range : Option (κ × κ)) :
    (Table.fresh d storage range).walk = if settings.storesKeys then .ok ⟨0⟩ else .error .keysImplicit := by
  have hdescriptor : (Table.fresh d storage range).descriptor = d := rfl
  rw [Table.walk, hdescriptor, h.storesKeys_eq]
  cases settings.storesKeys <;> rfl

/-- The value of a key is the one in its bucket. -/
theorem valueAt_eq_get [Std.TransOrd κ] (h : Made settings entries d slots records file) (hfaithful : settings.Faithful)
    (hserves : storage.Serves d records) {i : Nat} (hi : i < slots.length) :
    (Table.fresh d storage (settings.rangeOf entries)).valueAt i =
      ((Table.fresh d storage (settings.rangeOf entries)).get slots[i].key).2 := by
  have hmem : slots[i] ∈ entries := h.arranged.perm.mem_iff.1 (List.getElem_mem hi)
  rw [Table.valueAt, h.entryAt_slot hfaithful hserves _ hi, Table.get_snd, h.find_of_mem hfaithful hserves hmem]
  rfl

/-- Where keys are stored, the buckets hold the entries with their keys. -/
theorem lists_keyed (h : Made settings entries d slots records file) (hfaithful : settings.Faithful)
    (hserves : storage.Serves d records) (range : Option (κ × κ)) (hstores : settings.storesKeys = true) :
    (Table.fresh d storage range).Lists
      ((slots.map fun entry => (entry.key, (settings.stored entry).2)).map fun pair => (some pair.1, pair.2)) := by
  have hsame : (fun entry : Entry κ ν => (some entry.key, (settings.stored entry).2)) = settings.stored := by
    funext entry
    rw [Settings.stored, if_pos hstores]
  have hlists := h.lists hfaithful hserves range
  rw [← hsame] at hlists
  rw [List.map_map]
  exact hlists

/-- Beyond the buckets of the table there is nothing to read. -/
theorem exists_fault (h : Made settings entries d slots records file) (range : Option (κ × κ)) {i : Nat}
    (hi : slots.length ≤ i) : ∃ fault : Fault, fault.kind = .invalidInput ∧
      (Table.fresh d storage range).entryAt i = .error fault ∧ (Table.fresh d storage range).valueAt i = .error fault ∧
      (Table.fresh d storage range).keyAt i = .error fault := by
  have hentry := Table.entryAt_of_size_le (Table.fresh d storage range) (h.slots_length ▸ hi)
  refine ⟨_, rfl, hentry, ?_, ?_⟩
  · rw [Table.valueAt, hentry]
    rfl
  · rw [Table.keyAt, hentry]
    rfl

theorem enumerates [Std.TransOrd κ] [DecidableEq ν] (h : Made settings entries d slots records file)
    (hfaithful : settings.Faithful) (hserves : storage.Serves d records) :
    (Table.fresh d storage (settings.rangeOf entries)).Enumerates settings slots := by
  have hlists := h.lists hfaithful hserves (settings.rangeOf entries)
  have hkeyed := h.lists_keyed hfaithful hserves (settings.rangeOf entries)
  have hwalk := h.walk_fresh storage (settings.rangeOf entries)
  have hexplicit (hkeys : settings.keyStorage = .explicit) : settings.storesKeys = true := by
    rw [Settings.storesKeys, hkeys]
    rfl
  have hstart (hkeys : settings.keyStorage = .explicit) := hwalk.trans (if_pos (hexplicit hkeys))
  have hkeys (hkeys : settings.keyStorage = .explicit) := (hkeyed (hexplicit hkeys)).keys_eq (hstart hkeys)
  have hfst : (slots.map fun entry => (entry.key, (settings.stored entry).2)).map Prod.fst = slots.map (·.key) :=
    List.map_map
  rw [hfst] at hkeys
  exact {
    size := h.slots_length.symm
    entries_by_number := hlists.mapM_entryAt
    led := fun i hi => ⟨h.bucketOf_slot hi, h.entryAt_slot hfaithful hserves _ hi, h.valueAt_eq_get hfaithful hserves hi⟩
    beyond := fun i hi => h.exists_fault _ hi
    walk := fun hkeys => by
      refine ⟨hstart hkeys, fun limit => ?_⟩
      rw [(hkeyed (hexplicit hkeys)).take_fst, List.drop_zero, ← List.map_take, List.map_map]
      rfl
    entries := fun hkeys => (hkeyed (hexplicit hkeys)).entries_eq (hstart hkeys)
    keys := hkeys
    keySet := fun hstored => by
      rw [ResidentMap.keySet, hkeys hstored, Outcome.ok_bind, eraseDups_of_nodup h.keys_nodup]
      rfl
    values := by
      rw [hlists.values_eq, List.filterMap_map]
      rfl
    containsValue := fun value => by
      refine ⟨_, hlists.containsValue_eq value, ?_⟩
      rw [decide_eq_true_iff, List.map_map, List.mem_map]
      exact settings.exists_stored_iff slots value
    keyless := fun hdropped => by
      have hstores : ¬ settings.storesKeys = true := by
        rw [Settings.storesKeys, hdropped]
        decide
      have herror := hwalk.trans (if_neg hstores)
      refine ⟨_, rfl, herror, ?_, ?_⟩
      · rw [Table.entries, herror]
        rfl
      · rw [Table.keys, Table.entries, herror]
        rfl }

end Build.Made

/-- A table whose build ended well has its entries in its buckets, each in one, and lists them in this order in every way. This
goes for maps, too. The table has to be supported: otherwise the bucket of one entry may have the offset of another. -/
theorem Build.opened_enumerates [HashLibrary] [Ord κ] [DecidableEq κ] [DecidableEq ν] [Spelled κ] [Spelled ν] [Std.TransOrd κ]
    {finder : CodecFinder κ ν} {store store' : FileStore} {settings : Settings κ ν} {dataSize : Option Nat} {timestamp : Nat}
    {directory : Path} {entries : List (Entry κ ν)} {d : Descriptor κ ν} (hfaithful : settings.Faithful)
    (hcount : entries.length < 0x100000000)
    (hrun : run store settings dataSize timestamp directory (.ofEntries entries) = (store', .ok d))
    (hlibrary : HashLibrary.Restores) (hknown : finder.Knows settings) (hbounded : settings.Bounded)
    (hsupported : d.Supported) (opening : Opening) :
    ∃ t slots, opening.open finder store' directory = .ok t ∧
      (opening = .map → ResidentMap.load finder store' directory = .ok ⟨t⟩) ∧ slots.Perm entries ∧
      (slots.map (·.key)).Nodup ∧ t.Enumerates settings slots := by
  obtain ⟨slots, records, file, storage, hmade, hserves, hopen⟩ :=
    opened_of_run hfaithful hcount hrun hlibrary hknown hbounded hsupported opening
  refine ⟨_, slots, hopen, ?_, hmade.arranged.perm, hmade.keys_nodup, hmade.enumerates hfaithful hserves⟩
  rintro rfl
  obtain ⟨m, hload, hm⟩ := Outcome.map_eq_ok.1 hopen
  rw [hload, ← hm]

end

/-- The map of four entries of different sizes, with selected offsets, lists them all and each once. -/
theorem Build.opened_four_enumerates : ∃ store d m, ∃ slots : List (Entry Int64 Int64),
    ofFour (.varied .explicit .selected .equality) = (store, .ok d) ∧
    ResidentMap.load .varied store ["work", "table"] = .ok m ∧ slots.Perm four ∧ m.table.size = 4 ∧
    m.table.entries = .ok (slots.map fun entry => (entry.key, entry.value)) ∧ m.keySet = .ok (slots.map (·.key)) ∧
    m.values = .ok (slots.filterMap (·.value)) := by
  obtain ⟨store, d, hrun, hsupported⟩ := ofFour_varied .explicit .selected .equality nofun
  obtain ⟨t, slots, -, hload, hperm, -, henumerates⟩ := opened_enumerates (Settings.faithful_varied _ _ _) (by decide) hrun
    HashFunction.restores_byOrder (Settings.knows_varied _ _ _) (Settings.formed_varied _ _ _).bounded hsupported .map
  exact ⟨store, d, ⟨t⟩, slots, hrun, hload rfl, hperm, henumerates.size.trans hperm.length_eq, henumerates.entries rfl,
    henumerates.keySet rfl, henumerates.values⟩

/-- With a line that falls, which an image of settings may have, the second bucket has an entry that the table was not built
from, and the walk through the table ends with a fault. -/
theorem Build.opened_falling_enumerates_others : ∃ bytes store d t,
    Settings.decode .varied bytes = some (.falling .explicit .selected .equality) ∧
    (Settings.falling .explicit .selected .equality).validate = .ok () ∧
    ofFour (.falling .explicit .selected .equality) = (store, .ok d) ∧ openFour store .map = .ok t ∧
    t.entryAt 1 = .ok (some 259, some 0) ∧ ⟨259, some 0⟩ ∉ four ∧ t.entryAt 3 = .error .varintTruncated ∧
    t.entries = .error .varintTruncated := by
  obtain ⟨hdecode, hvalid⟩ := Settings.decode_falling .explicit .selected .equality nofun
  obtain ⟨store, d, t, hrun, hopen, hother, hfails, hfails'⟩ :=
    ofFour_of_evaluation .explicit .selected .equality nofun (.inr rfl) .map
      (fun _ t => t.entryAt 1 = .ok (some 259, some 0) ∧ t.entryAt 3 = .error .varintTruncated ∧
        t.entries = .error .varintTruncated) (by decide +kernel)
  exact ⟨_, store, d, t, hdecode, hvalid, hrun, hopen, hother, by decide, hfails, hfails'⟩

end FrozenTable
