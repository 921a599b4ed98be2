import FrozenTable.Proofs.Lemmas.Opening

/-!
# What an opened table answers

Lookups of a table that was opened after a build that ended well are told by the order of the entries in their buckets. They go
in two steps. First, whatever the codecs do, each bucket is read from the start of its record on, so an answer depends on the
hash, the range, the records and the codecs only. Then, with codecs that read what they wrote, the bucket of a key that the
table was built from holds the entry of this key.
-/

namespace FrozenTable

variable {κ ν : Type}

/-- The bytes from the start of a record on are this record and those behind it. -/
theorem drop_startOf (records : List Bytes) (i : Nat) :
    records.flatten.drop (startOf (records.map List.length) i) = (records.drop i).flatten := by
  induction records generalizing i with
  | nil => simp
  | cons record records ih =>
    cases i with
    | zero => rfl
    | succ i =>
      have hstart : startOf ((record :: records).map List.length) (i + 1) =
          record.length + startOf (records.map List.length) i := by
        rw [List.map_cons, startOf, List.take_succ_cons, List.sum_cons, startOf]
      rw [hstart, List.flatten_cons, List.drop_length_add_append, ih, List.drop_succ_cons]

/-! ## Codecs -/

/-- A codec that writes every item. -/
def Codec.Total {α : Type} (c : Codec α) : Prop :=
  ∀ x, ∃ bytes, c.write x = .ok bytes

namespace Settings

/-- Settings whose codecs read what they wrote. -/
structure Faithful (s : Settings κ ν) : Prop where
  key : ∀ codec, s.keyCodec = some codec → codec.Faithful
  value : ∀ codec, s.valueCodec = some codec → codec.Faithful

/-- What a table keeps of an entry. -/
def stored (s : Settings κ ν) (entry : Entry κ ν) : Option κ × Option ν :=
  (if s.storesKeys then some entry.key else none, if s.hasValues then entry.value else none)

/-- The record at the front of some bytes. -/
def decodeRecord (s : Settings κ ν) (input : Bytes) : Except Fault (Option κ × Option ν) := do
  let (key, rest) ← s.readKey input
  let (value, _) ← s.readValue rest
  pure (key, value)

/-- The bytes of a key inside a record. -/
def keyPart (s : Settings κ ν) (key : κ) : Except Fault Bytes :=
  if s.storesKeys then s.keyBytes key else .ok []

/-- The bytes of a value inside a record. -/
def valuePart (s : Settings κ ν) (value : Option ν) : Except Fault Bytes :=
  match s.valueCodec, value with
  | some codec, some value => codec.write value
  | _, _ => .ok []

/-- The bytes of a value come behind those of its key. -/
theorem map_valuePart (s : Settings κ ν) (value : Option ν) (key : Bytes) : (s.valuePart value).map (key ++ ·) =
    match s.valueCodec, value with
    | some codec, some value => do pure (key ++ (← codec.write value))
    | _, _ => pure (key ++ []) := by
  unfold valuePart
  split
  · rename_i codec value _
    cases codec.write value <;> rfl
  · rfl

/-- A record is what it has of its key and then what it has of its value. -/
theorem record_eq (s : Settings κ ν) (entry : Entry κ ν) :
    s.record entry = s.keyPart entry.key >>= fun key => (s.valuePart entry.value).map (key ++ ·) := by
  simp only [map_valuePart]
  unfold record keyPart
  by_cases hstores : s.storesKeys = true
  · rw [if_pos hstores, if_pos hstores]
    cases s.valueCodec <;> cases entry.value <;> rfl
  · rw [if_neg hstores, if_neg hstores]
    cases s.valueCodec <;> cases entry.value <;> rfl

/-- The codec that is needed is that of the settings. -/
theorem needKeyCodec_eq_ok {s : Settings κ ν} {codec : Codec κ} (h : s.needKeyCodec = .ok codec) :
    s.keyCodec = some codec := by
  unfold needKeyCodec at h
  split at h
  · rename_i hsome
    cases h
    exact hsome
  · exact nomatch h

/-- What a record has of its key is read back. -/
theorem readKey_append {s : Settings κ ν} (hfaithful : s.Faithful) {key : κ} {bytes : Bytes}
    (h : s.keyPart key = .ok bytes) (rest : Bytes) :
    s.readKey (bytes ++ rest) = .ok (if s.storesKeys then some key else none, rest) := by
  unfold keyPart at h
  unfold readKey
  by_cases hstores : s.storesKeys = true
  · rw [if_pos hstores] at h
    rw [if_pos hstores, if_pos hstores]
    obtain ⟨codec, hcodec, hwrite⟩ := Outcome.bind_eq_ok.1 h
    rw [hcodec, Outcome.ok_bind, hfaithful.key codec (needKeyCodec_eq_ok hcodec) key bytes rest hwrite]
    rfl
  · rw [if_neg hstores] at h
    cases h
    rw [if_neg hstores, if_neg hstores]
    rfl

/-- What a record has of its value is read back. -/
theorem readValue_append {s : Settings κ ν} (hfaithful : s.Faithful) {entry : Entry κ ν} {bytes : Bytes}
    (hvalue : s.needValue entry = .ok ()) (h : s.valuePart entry.value = .ok bytes) (rest : Bytes) :
    s.readValue (bytes ++ rest) = .ok (if s.hasValues then entry.value else none, rest) := by
  unfold valuePart at h
  unfold readValue
  cases hcodec : s.valueCodec with
  | none =>
    rw [hcodec] at h
    cases h
    rw [hasValues, hcodec]
    rfl
  | some codec =>
    have hhas : s.hasValues = true := by rw [hasValues, hcodec]; rfl
    cases hentry : entry.value with
    | none =>
      rw [needValue, hhas, hentry] at hvalue
      exact nomatch hvalue
    | some value =>
      rw [hcodec, hentry] at h
      rw [if_pos hhas]
      simp only [hfaithful.value codec hcodec value bytes rest h, Outcome.ok_bind]
      rfl

/-- The record of an entry holds what the table keeps of the entry. -/
theorem decodeRecord_append {s : Settings κ ν} (hfaithful : s.Faithful) {entry : Entry κ ν} {bytes : Bytes}
    (hvalue : s.needValue entry = .ok ()) (h : s.record entry = .ok bytes) (rest : Bytes) :
    s.decodeRecord (bytes ++ rest) = .ok (s.stored entry) := by
  simp only [record_eq, Outcome.bind_eq_ok, Outcome.map_eq_ok] at h
  obtain ⟨front, hfront, back, hback, rfl⟩ := h
  rw [List.append_assoc, decodeRecord, readKey_append hfaithful hfront, Outcome.ok_bind]
  simp only [readValue_append hfaithful hvalue hback, Outcome.ok_bind]
  rfl

end Settings

/-! ## Tables -/

/-- How a lookup of a key ends that has found a record. -/
def Settings.judge [DecidableEq κ] (s : Settings κ ν) (asked : κ) (found : Option κ × Option ν) : Finding ν :=
  match s.acceptance with
  | none => .retrieved found.2
  | some accept => match accept asked found.1 found.2 with
    | some value => .retrieved value
    | none => .missing

namespace Table

variable [DecidableEq κ] {d : Descriptor κ ν} {storage : Storage} {records : List Bytes}

/-- A bucket is read from the start of its record on. -/
theorem readBucket_fresh (hserves : storage.Serves d records) (range : Option (κ × κ)) {i : Nat} (hi : i < records.length) :
    (fresh d storage range).readBucket storage i = d.settings.decodeRecord (records.drop i).flatten := by
  have hstart := hserves.leads i (by rwa [List.length_map])
  have hle : startOf (records.map List.length) i ≤ storage.data.bytes.length := by
    rw [hserves.bytes_eq, List.length_flatten]
    exact startOf_le_sum _ i
  have hfrom : storage.data.from? (startOf (records.map List.length) i) = some (records.drop i).flatten := by
    rw [Region.from?_eq, if_pos hle, hserves.bytes_eq, drop_startOf]
  have hdescriptor : (fresh d storage range).descriptor = d := rfl
  rw [readBucket, hdescriptor, hstart, Outcome.ok_bind, readRecord, hfrom]
  rfl

/-- A bucket of the table is read like this, too, when it is asked for by its number. -/
theorem entryAt_fresh (hserves : storage.Serves d records) (hlength : records.length = d.count) (range : Option (κ × κ))
    {i : Nat} (hi : i < d.count) :
    (fresh d storage range).entryAt i = d.settings.decodeRecord (records.drop i).flatten := by
  have hsize : ¬ (fresh d storage range).size ≤ i := Nat.not_le.2 hi
  rw [← readBucket_fresh hserves range (hlength ▸ hi)]
  simp only [entryAt, if_neg hsize]
  rfl

omit [DecidableEq κ] in
/-- There is no entry behind the last bucket. -/
theorem entryAt_of_size_le (t : Table κ ν) {i : Nat} (hi : t.size ≤ i) :
    t.entryAt i = .error (.bucketOutOfRange i t.size) := by
  simp only [entryAt, if_pos hi]
  rfl

/-- A lookup goes from the key over its bucket to a record, which is then judged. -/
theorem find_fresh [Ord κ] (d : Descriptor κ ν) (storage : Storage) (range : Option (κ × κ)) (key : κ) :
    (fresh d storage range).find key =
      if (fresh d storage range).outOfRange key then .ok .filtered
      else d.bucketOf key >>= fun
        | none => .ok .filtered
        | some bucket =>
          (fresh d storage range).readBucket storage bucket >>= fun found => .ok (d.settings.judge key found) := by
  have hdescriptor : (fresh d storage range).descriptor = d := rfl
  have hacceptance : (fresh d storage range).acceptance = d.settings.acceptance := rfl
  have hstorage : (fresh d storage range).needStorage = .ok storage := rfl
  simp only [find, hstorage, Outcome.ok_bind, locate, hdescriptor, hacceptance]
  by_cases hout : (fresh d storage range).outOfRange key = true
  · rw [if_pos hout, if_pos hout]
    rfl
  · rw [if_neg hout, if_neg hout]
    congr 1
    funext slot
    cases slot with
    | none => rfl
    | some bucket =>
      simp only
      congr 1
      funext found
      unfold Settings.judge
      cases d.settings.acceptance with
      | none => rfl
      | some accept =>
        dsimp only
        cases accept key found.1 found.2 <;> rfl

omit [DecidableEq κ] in
/-- The value of a key is that of its lookup, whatever is counted. -/
theorem get_snd [Ord κ] (t : Table κ ν) (key : κ) : (t.get key).2 = (t.find key).map Finding.value := rfl

/-- Where records are judged a key is contained if its lookup finds a record, else if it is led to a bucket. -/
theorem contains_fresh [Ord κ] (d : Descriptor κ ν) (storage : Storage) (range : Option (κ × κ)) (key : κ) :
    ((fresh d storage range).contains key).2 =
      match d.settings.validation with
      | .equality => ((fresh d storage range).find key).map Finding.isRetrieved
      | .disabled => if (fresh d storage range).outOfRange key then .ok false else (d.bucketOf key).map Option.isSome := by
  have hacceptance : (fresh d storage range).acceptance = d.settings.acceptance := rfl
  have hdescriptor : (fresh d storage range).descriptor = d := rfl
  unfold contains
  rw [hacceptance, Settings.acceptance]
  cases d.settings.validation with
  | equality => rfl
  | disabled =>
    simp only [Option.isSome_none, Bool.false_eq_true, if_false, locate, hdescriptor]
    by_cases hout : (fresh d storage range).outOfRange key = true
    · rw [if_pos hout, if_pos hout]
      rfl
    · rw [if_neg hout, if_neg hout]
      cases d.bucketOf key <;> rfl

end Table

/-! ## Tables that were built -/

namespace Build.Made

variable [HashLibrary] [Ord κ] {settings : Settings κ ν} {entries slots : List (Entry κ ν)} {d : Descriptor κ ν}
  {records : List Bytes} {file : Option Bytes}

/-- A build does not change what is stored of an entry. -/
theorem stored_eq (h : Made settings entries d slots records file) : d.settings.stored = settings.stored := by
  rw [h.settings_eq]
  rfl

/-- A build does not change how keys are fingerprinted. -/
theorem fingerprint_eq (h : Made settings entries d slots records file) : d.settings.fingerprint = settings.fingerprint := by
  rw [h.settings_eq]
  rfl

/-- There is an entry for each bucket. -/
theorem slots_length (h : Made settings entries d slots records file) : slots.length = d.count :=
  h.arranged.count_eq

/-- The entry in a bucket has a key that leads to the bucket. -/
theorem bucketOf_slot (h : Made settings entries d slots records file) {i : Nat} (hi : i < slots.length) :
    d.bucketOf slots[i].key = .ok (some i) := by
  obtain ⟨bytes, hbytes, hslot⟩ := (h.arranged.takes i hi (h.arranged.records_length ▸ hi)).bucket
  rw [Descriptor.bucketOf_eq, Settings.fingerprint_of_keyBytes hbytes, Outcome.ok_bind]
  exact hslot

/-- The buckets of different entries are different, so no key is there twice. -/
theorem keys_nodup (h : Made settings entries d slots records file) : (slots.map (·.key)).Nodup := by
  rw [List.nodup_iff_injective_get]
  intro i j hij
  simp only [List.get_eq_getElem, List.getElem_map] at hij
  have hi := h.bucketOf_slot (i := i) (by simpa using i.isLt)
  have hj := h.bucketOf_slot (i := j) (by simpa using j.isLt)
  rw [hij, hj] at hi
  exact Fin.ext (Option.some.inj (Except.ok.inj hi)).symm

/-- A key that is led to a bucket has the signature that is kept there. -/
theorem kept_of_bucketOf (h : Made settings entries d slots records file) {key : κ} {i : Nat}
    (hkey : d.bucketOf key = .ok (some i)) :
    i < slots.length ∧ ∃ f kept, settings.fingerprint key = .ok f ∧ d.hash.signatures.get? i = some kept ∧
      kept.toNat = f.signature.toNat % 2 ^ settings.signatureWidth := by
  obtain ⟨fingerprints, -, hseparates⟩ := h.separates
  have hwidth := signatureWidth_le h.flaw_eq_none
  rw [Descriptor.bucketOf_eq, h.fingerprint_eq, Outcome.bind_eq_ok] at hkey
  obtain ⟨f, hf, hslot⟩ := hkey
  obtain ⟨hlt, hkept⟩ := hseparates.kept_of_slot hwidth hslot
  refine ⟨?_, f, _, hf, hkept, PackedArray.toNat_and_mask hwidth _⟩
  rw [h.slots_length]
  exact hlt

/-- A key with a fingerprint is led to a bucket or turned away. -/
theorem bucketOf_of_fingerprint (h : Made settings entries d slots records file) {key : κ} {f : Fingerprint}
    (hf : settings.fingerprint key = .ok f) : ∃ slot, d.bucketOf key = .ok slot := by
  obtain ⟨fingerprints, -, hseparates⟩ := h.separates
  rw [Descriptor.bucketOf_eq, h.fingerprint_eq, hf, Outcome.ok_bind]
  exact ⟨_, hseparates.slot_eq (signatureWidth_le h.flaw_eq_none) f⟩

/-- As long as the record of a bucket is as it was written, the records from the bucket on start with what is kept of the entry
in the bucket, whatever has become of the others. -/
theorem decodeRecord_intact (h : Made settings entries d slots records file) (hfaithful : settings.Faithful)
    {found : List Bytes} {i : Nat} (hi : i < slots.length) (hintact : found[i]? = records[i]?) :
    d.settings.decodeRecord (found.drop i).flatten = .ok (settings.stored slots[i]) := by
  have hi' : i < records.length := h.arranged.records_length ▸ hi
  have htakes := h.arranged.takes i hi hi'
  have hfaithful' : d.settings.Faithful := by
    rw [h.settings_eq]
    exact ⟨hfaithful.key, hfaithful.value⟩
  obtain ⟨hfound, hrecord⟩ := List.getElem?_eq_some_iff.1 (hintact.trans (List.getElem?_eq_getElem hi'))
  rw [List.drop_eq_getElem_cons hfound, List.flatten_cons, hrecord,
    Settings.decodeRecord_append hfaithful' htakes.value htakes.record, h.stored_eq]

/-- The records from a bucket on start with what is kept of the entry in the bucket. -/
theorem decodeRecord_slot (h : Made settings entries d slots records file) (hfaithful : settings.Faithful) {i : Nat}
    (hi : i < slots.length) : d.settings.decodeRecord (records.drop i).flatten = .ok (settings.stored slots[i]) :=
  h.decodeRecord_intact hfaithful hi rfl

/-- The range of the keys is read back. -/
theorem keyRange_eq (h : Made settings entries d slots records file) (hfaithful : settings.Faithful) :
    d.keyRange = .ok (settings.rangeOf entries) := by
  obtain ⟨range, hrange, hlow, hhigh⟩ := h.range
  have hcodec : d.settings.needKeyCodec = settings.needKeyCodec := by
    rw [h.settings_eq]
    rfl
  revert hrange
  generalize settings.rangeOf entries = keys
  intro hrange
  unfold Descriptor.keyRange
  cases keys with
  | none =>
    cases hrange
    rw [hlow]
    rfl
  | some keys =>
    obtain ⟨low, high⟩ := keys
    simp only [rangeBytes, Outcome.bind_eq_ok, Outcome.pure_eq_ok] at hrange
    obtain ⟨codec, hneed, lowBytes, hlowBytes, highBytes, hhighBytes, rfl⟩ := hrange
    have hread := hfaithful.key codec (Settings.needKeyCodec_eq_ok hneed)
    have hreadLow := hread low lowBytes [] hlowBytes
    have hreadHigh := hread high highBytes [] hhighBytes
    rw [List.append_nil] at hreadLow hreadHigh
    rw [hlow, hhigh]
    simp only [Option.map_some, hcodec, hneed, hreadLow, hreadHigh, Outcome.ok_bind]
    rfl

end Build.Made

/-! ## Ranges -/

namespace Table

variable [Ord κ] [Std.TransOrd κ] {settings : Settings κ ν} {entries : List (Entry κ ν)} {t : Table κ ν}

/-- The keys that a table was built from are in its range. -/
theorem outOfRange_of_mem (hrange : t.range = settings.rangeOf entries) {entry : Entry κ ν} (hentry : entry ∈ entries) :
    t.outOfRange entry.key = false := by
  unfold outOfRange
  rw [hrange, Settings.rangeOf]
  by_cases htracks : settings.tracksRange = true
  · rw [if_pos htracks]
    rcases Scan.spans_rangeOf (entries.map (·.key)) with ⟨-, hnone⟩ | ⟨low, high, hsome, hspans⟩
    · rw [hnone]
    · have hmem : entry.key ∈ entries.map (·.key) := List.mem_map_of_mem hentry
      have hlow := hspans.low_le _ hmem
      have hhigh := hspans.le_high _ hmem
      rw [Std.OrientedOrd.eq_swap] at hlow
      rw [hsome]
      dsimp only
      rw [Bool.or_eq_false_iff]
      constructor
      · cases hcompare : compare entry.key low <;> simp_all
      · cases hcompare : compare entry.key high <;> simp_all
  · rw [if_neg htracks]

/-- A key that is not out of the range of a table is between the smallest and the largest key, if these are kept. -/
theorem between_of_outOfRange (hrange : t.range = settings.rangeOf entries) (htracks : settings.tracksRange = true)
    {low high : κ} (hspans : Scan.Spans (entries.map (·.key)) low high) {key : κ} (hkey : t.outOfRange key = false) :
    (compare low key).isLE ∧ (compare key high).isLE := by
  rcases Scan.spans_rangeOf (entries.map (·.key)) with ⟨hnil, -⟩ | ⟨low', high', hsome, hspans'⟩
  · exact absurd (hnil ▸ hspans.low_mem) List.not_mem_nil
  · unfold outOfRange at hkey
    rw [hrange, Settings.rangeOf, if_pos htracks, hsome] at hkey
    dsimp only at hkey
    rw [Bool.or_eq_false_iff] at hkey
    have hlow : (compare low' key).isLE := by
      rw [Std.OrientedOrd.eq_swap]
      cases hcompare : compare key low' <;> simp_all
    have hhigh : (compare key high').isLE := by
      cases hcompare : compare key high' <;> simp_all
    exact ⟨Std.TransOrd.isLE_trans (hspans.low_le _ hspans'.low_mem) hlow,
      Std.TransOrd.isLE_trans hhigh (hspans.le_high _ hspans'.high_mem)⟩

end Table

/-! ## Lookups -/

namespace Build.Made

variable [HashLibrary] [Ord κ] [DecidableEq κ] {settings : Settings κ ν} {entries slots : List (Entry κ ν)}
  {d : Descriptor κ ν} {records : List Bytes} {file : Option Bytes} {storage : Storage}

/-- A bucket has what is stored of its entry. -/
theorem entryAt_slot (h : Made settings entries d slots records file) (hfaithful : settings.Faithful)
    (hserves : storage.Serves d records) (range : Option (κ × κ)) {i : Nat} (hi : i < slots.length) :
    (Table.fresh d storage range).entryAt i = .ok (settings.stored slots[i]) := by
  rw [Table.entryAt_fresh hserves h.records_length range (h.slots_length ▸ hi), h.decodeRecord_slot hfaithful hi]

/-- A key that is in range and led to a bucket is judged by the entry in the bucket. -/
theorem find_of_bucketOf (h : Made settings entries d slots records file) (hfaithful : settings.Faithful)
    (hserves : storage.Serves d records) {range : Option (κ × κ)} {key : κ}
    (hrange : (Table.fresh d storage range).outOfRange key = false) {i : Nat} (hkey : d.bucketOf key = .ok (some i))
    (hi : i < slots.length) :
    (Table.fresh d storage range).find key = .ok (settings.judge key (settings.stored slots[i])) := by
  have hread := Table.readBucket_fresh hserves range (h.arranged.records_length ▸ hi)
  have hjudge : d.settings.judge = settings.judge := by
    rw [h.settings_eq]
    rfl
  rw [Table.find_fresh, hrange, if_neg Bool.false_ne_true, hkey, Outcome.ok_bind]
  simp only [hread, h.decodeRecord_slot hfaithful hi, Outcome.ok_bind, hjudge]

end Build.Made

/-- What is kept of an entry is accepted for the key of the entry. -/
theorem Settings.judge_stored [DecidableEq κ] (s : Settings κ ν) (entry : Entry κ ν) :
    s.judge entry.key (s.stored entry) = .retrieved (s.stored entry).2 := by
  unfold judge acceptance stored Acceptance.sameKey
  cases s.validation with
  | disabled => rfl
  | equality =>
    by_cases hstores : s.storesKeys = true
    · simp only [if_pos hstores, if_true]
    · simp only [if_neg hstores]

/-- A lookup that finds a record answers with the value in the record. -/
theorem Settings.value_of_judge [DecidableEq κ] {s : Settings κ ν} {asked : κ} {found : Option κ × Option ν} {value : Option ν}
    (h : s.judge asked found = .retrieved value) : value = found.2 := by
  unfold judge acceptance Acceptance.sameKey at h
  revert h
  cases s.validation with
  | disabled =>
    intro h
    cases h
    rfl
  | equality =>
    intro h
    dsimp only at h
    split at h
    · rename_i accepted haccept
      cases h
      split at haccept
      · split at haccept
        · exact (Option.some.inj haccept).symm
        · exact nomatch haccept
      · exact (Option.some.inj haccept).symm
    · exact nomatch h

namespace Build.Made

variable [HashLibrary] [Ord κ] [DecidableEq κ] {settings : Settings κ ν} {entries slots : List (Entry κ ν)}
  {d : Descriptor κ ν} {records : List Bytes} {file : Option Bytes} {storage : Storage}

omit [DecidableEq κ] in
/-- Every entry is in a bucket. -/
theorem exists_slot (h : Made settings entries d slots records file) {entry : Entry κ ν} (hentry : entry ∈ entries) :
    ∃ i, ∃ hi : i < slots.length, slots[i] = entry :=
  List.getElem_of_mem (h.arranged.perm.mem_iff.2 hentry)

omit [DecidableEq κ] in
/-- Entries of a table with values have them. -/
theorem exists_value (h : Made settings entries d slots records file) (hvalues : settings.hasValues = true)
    {entry : Entry κ ν} (hentry : entry ∈ entries) : ∃ value, entry.value = some value := by
  obtain ⟨i, hi, rfl⟩ := h.exists_slot hentry
  have hneed := (h.arranged.takes i hi (h.arranged.records_length ▸ hi)).value
  have hvalues' : d.settings.hasValues = true := by
    rw [h.settings_eq]
    exact hvalues
  cases hvalue : slots[i].value with
  | some value => exact ⟨value, rfl⟩
  | none =>
    rw [Settings.needValue, hvalues', hvalue] at hneed
    cases hneed

/-- A key that the table was built from is found with its value. -/
theorem find_of_mem [Std.TransOrd κ] (h : Made settings entries d slots records file) (hfaithful : settings.Faithful)
    (hserves : storage.Serves d records) {entry : Entry κ ν} (hentry : entry ∈ entries) :
    (Table.fresh d storage (settings.rangeOf entries)).find entry.key = .ok (.retrieved (settings.stored entry).2) := by
  obtain ⟨i, hi, rfl⟩ := h.exists_slot hentry
  have hrange := Table.outOfRange_of_mem (t := Table.fresh d storage (settings.rangeOf entries)) rfl hentry
  rw [h.find_of_bucketOf hfaithful hserves hrange (h.bucketOf_slot hi) hi, Settings.judge_stored]

/-- A lookup that found a record found it in a bucket to which the key is led. -/
theorem exists_of_find (h : Made settings entries d slots records file) (hfaithful : settings.Faithful)
    (hserves : storage.Serves d records) {range : Option (κ × κ)} {key : κ} {value : Option ν}
    (hfind : (Table.fresh d storage range).find key = .ok (.retrieved value)) :
    (Table.fresh d storage range).outOfRange key = false ∧ ∃ i, ∃ hi : i < slots.length,
      d.bucketOf key = .ok (some i) ∧ settings.judge key (settings.stored slots[i]) = .retrieved value := by
  have hrange : (Table.fresh d storage range).outOfRange key = false := by
    rw [← Bool.not_eq_true]
    intro hout
    rw [Table.find_fresh, if_pos hout] at hfind
    exact nomatch hfind
  refine ⟨hrange, ?_⟩
  have hfound := hfind
  rw [Table.find_fresh, hrange, if_neg Bool.false_ne_true, Outcome.bind_eq_ok] at hfound
  obtain ⟨slot, hslot, hfound⟩ := hfound
  cases slot with
  | none => exact nomatch hfound
  | some i =>
    have hi := (h.kept_of_bucketOf hslot).1
    rw [h.find_of_bucketOf hfaithful hserves hrange hslot hi] at hfind
    exact ⟨i, hi, hslot, Except.ok.inj hfind⟩

/-- A key that the table was built from is contained. -/
theorem contains_of_mem [Std.TransOrd κ] (h : Made settings entries d slots records file) (hfaithful : settings.Faithful)
    (hserves : storage.Serves d records) {entry : Entry κ ν} (hentry : entry ∈ entries) :
    ((Table.fresh d storage (settings.rangeOf entries)).contains entry.key).2 = .ok true := by
  rw [Table.contains_fresh]
  cases d.settings.validation with
  | equality =>
    dsimp only
    rw [h.find_of_mem hfaithful hserves hentry]
    rfl
  | disabled =>
    obtain ⟨i, hi, rfl⟩ := h.exists_slot hentry
    have hrange := Table.outOfRange_of_mem (t := Table.fresh d storage (settings.rangeOf entries)) rfl hentry
    dsimp only
    rw [hrange, h.bucketOf_slot hi]
    rfl

/-- A key that is contained is in range and led to a bucket. -/
theorem exists_of_contains (h : Made settings entries d slots records file) (hfaithful : settings.Faithful)
    (hserves : storage.Serves d records) {range : Option (κ × κ)} {key : κ}
    (hcontains : ((Table.fresh d storage range).contains key).2 = .ok true) :
    (Table.fresh d storage range).outOfRange key = false ∧ ∃ i, i < slots.length ∧ d.bucketOf key = .ok (some i) := by
  rw [Table.contains_fresh] at hcontains
  cases hvalidation : d.settings.validation with
  | equality =>
    simp only [hvalidation, Outcome.map_eq_ok] at hcontains
    obtain ⟨finding, hfind, hretrieved⟩ := hcontains
    cases finding with
    | filtered | missing => exact nomatch hretrieved
    | retrieved value =>
      obtain ⟨hrange, i, hi, hkey, -⟩ := h.exists_of_find hfaithful hserves hfind
      exact ⟨hrange, i, hi, hkey⟩
  | disabled =>
    simp only [hvalidation] at hcontains
    split at hcontains
    · exact nomatch hcontains
    · rename_i hrange
      rw [Outcome.map_eq_ok] at hcontains
      obtain ⟨slot, hkey, hsome⟩ := hcontains
      obtain ⟨i, rfl⟩ := Option.isSome_iff_exists.1 hsome
      exact ⟨Bool.not_eq_true _ ▸ hrange, i, (h.kept_of_bucketOf hkey).1, hkey⟩

/-- A table that was built is opened in every way, and its range is the one of its keys. -/
theorem open_eq_ok {finder : CodecFinder κ ν} (h : Made settings entries d slots records file)
    (hcount : entries.length < 0x100000000) (hlibrary : HashLibrary.Restores) (hknown : finder.Knows settings)
    (hbounded : settings.Bounded) (hsupported : d.Supported) (hfaithful : settings.Faithful)
    {store : FileStore} {directory place : Path} (hfiled : Filed store directory place records.flatten file d.encode)
    (hpaths : d.paths = TablePaths.inDirectory directory) (opening : Opening) :
    ∃ storage : Storage, storage.Serves d records ∧
      opening.open finder store directory = .ok (.fresh d storage (settings.rangeOf entries)) := by
  obtain ⟨storage, hserves, hopen⟩ := h.open_eq hcount hlibrary hknown hbounded hsupported hfiled hpaths opening
  rw [h.keyRange_eq hfaithful] at hopen
  exact ⟨storage, hserves, hopen⟩

end Build.Made

/-- A build of entries that ended well has made a table of them, which opens in every way and finds its records. -/
theorem Build.opened_of_run [HashLibrary] [Ord κ] [DecidableEq κ] [Spelled κ] [Spelled ν] {finder : CodecFinder κ ν}
    {store store' : FileStore} {settings : Settings κ ν} {dataSize : Option Nat} {timestamp : Nat} {directory : Path}
    {entries : List (Entry κ ν)} {d : Descriptor κ ν} (hfaithful : settings.Faithful) (hcount : entries.length < 0x100000000)
    (hrun : run store settings dataSize timestamp directory (.ofEntries entries) = (store', .ok d))
    (hlibrary : HashLibrary.Restores) (hknown : finder.Knows settings) (hbounded : settings.Bounded)
    (hsupported : d.Supported) (opening : Opening) :
    ∃ slots records file storage, Made settings entries d slots records file ∧ Storage.Serves storage d records ∧
      opening.open finder store' directory = .ok (.fresh d storage (settings.rangeOf entries)) := by
  obtain ⟨place, slots, records, file, hmade, hfiled, hpaths⟩ := made_of_run hrun hcount
  obtain ⟨storage, hserves, hopen⟩ :=
    hmade.open_eq_ok hcount hlibrary hknown hbounded hsupported hfaithful hfiled hpaths opening
  exact ⟨slots, records, file, storage, hmade, hserves, hopen⟩

end FrozenTable
