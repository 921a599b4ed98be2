import FrozenTable.Msgpack.Edit
import FrozenTable.Proofs.Lemmas.Lookups

/-!
# Damage

The data of a table carries no sums by which damage could be told, and a reader looks at a record no further than its codecs
do. So bytes that were changed inside a record go unnoticed when the table is opened, and they matter only to those who are led
to this record: no other bucket is read differently, and no key of another bucket has another answer. In a descriptor a single
field can be exchanged in the same way, and all others stay.
-/

namespace FrozenTable

variable {κ ν : Type}

/-! ## Patches -/

namespace Bytes

/-- A patch that lies within the bytes does not make them longer. -/
theorem length_overlay {bytes patch : Bytes} {start : Nat} (h : start + patch.length ≤ bytes.length) :
    (overlay bytes start patch).length = bytes.length := by
  simp only [overlay, List.length_append, List.length_take, List.length_drop]
  omega

/-- A patch behind some bytes leaves these bytes alone. -/
theorem overlay_append_left (front bytes : Bytes) (start : Nat) (patch : Bytes) :
    overlay (front ++ bytes) (front.length + start) patch = front ++ overlay bytes start patch := by
  simp only [overlay, Nat.add_assoc, List.take_length_add_append, List.drop_length_add_append, List.append_assoc]

/-- A patch within some bytes leaves those behind them alone. -/
theorem overlay_append_right {bytes patch : Bytes} {start : Nat} (h : start + patch.length ≤ bytes.length) (rest : Bytes) :
    overlay (bytes ++ rest) start patch = overlay bytes start patch ++ rest := by
  have hstart : start ≤ bytes.length := Nat.le_trans (Nat.le_add_right _ _) h
  simp only [overlay, List.take_append_of_le_length hstart, List.drop_append_of_le_length h, List.append_assoc]

/-- A patch within one of several byte strings that stand one behind the other is a patch of this one. -/
theorem overlay_flatten {records : List Bytes} {j : Nat} (hj : j < records.length) {start : Nat} {patch : Bytes}
    (h : start + patch.length ≤ records[j].length) :
    overlay records.flatten (startOf (records.map List.length) j + start) patch =
      (records.set j (overlay records[j] start patch)).flatten := by
  induction records generalizing j with
  | nil => exact absurd hj (Nat.not_lt_zero j)
  | cons record records ih =>
    cases j with
    | zero =>
      have hzero : startOf ((record :: records).map List.length) 0 + start = start := Nat.zero_add start
      rw [List.getElem_cons_zero] at h ⊢
      rw [hzero, List.flatten_cons, overlay_append_right h]
      rfl
    | succ j =>
      have hsucc : startOf ((record :: records).map List.length) (j + 1) + start =
          record.length + (startOf (records.map List.length) j + start) := by
        rw [startOf, startOf, List.map_cons, List.take_succ_cons, List.sum_cons, Nat.add_assoc]
      rw [hsucc, List.flatten_cons, overlay_append_left, ih (Nat.lt_of_succ_lt_succ hj) h]
      rfl

end Bytes

/-! ## Fields -/

namespace Msgpack

/-- Texts are the same value exactly if they are the same. -/
theorem Value.sameText_text (a b : String) : (text a).sameText (text b) = decide (a = b) := by
  have hbytes : (text a).sameText (text b) = (Bytes.ofText a == Bytes.ofText b) := rfl
  rw [hbytes, Bool.eq_iff_iff, beq_iff_eq, Bytes.ofText_inj, decide_eq_true_iff]

/-- Of the fields of a record the one of a name is exchanged, if no field in front of it has one of this name in itself. -/
theorem setAmong?_fields {entry : String × Value → Value × Value}
    (hentry : ∀ name value, entry (name, value) = (.text name, value)) {fields : List (String × Value)}
    (hnames : (fields.map Prod.fst).Nodup) {i : Nat} (hi : i < fields.length) (new : Value)
    (hbefore : ∀ j (hj : j < i), Value.setField? (.text fields[i].1) new fields[j].2 = none) :
    setAmong? (.text fields[i].1) new (fields.map entry) = some ((fields.set i (fields[i].1, new)).map entry) := by
  induction fields generalizing i with
  | nil => exact absurd hi (Nat.not_lt_zero i)
  | cons field fields ih =>
    obtain ⟨name, value⟩ := field
    cases i with
    | zero =>
      rw [List.map_cons, hentry, setAmong?, List.getElem_cons_zero, Value.sameText_text, decide_eq_true rfl, if_pos rfl,
        List.set_cons_zero, List.map_cons, hentry]
    | succ i =>
      obtain ⟨hfield, hfields⟩ := List.nodup_cons.1 hnames
      have hi' : i < fields.length := Nat.lt_of_succ_lt_succ hi
      have hne : name ≠ fields[i].1 := by
        intro hname
        exact hfield (List.mem_map.2 ⟨fields[i], List.getElem_mem hi', hname.symm⟩)
      have hnested : Value.setField? (.text fields[i].1) new value = none := hbefore 0 (Nat.succ_pos i)
      have hrest := ih hfields hi' fun j hj => hbefore (j + 1) (Nat.succ_lt_succ hj)
      rw [List.map_cons, hentry, setAmong?, List.getElem_cons_succ, Value.sameText_text, decide_eq_false hne,
        if_neg Bool.false_ne_true, hnested, hrest, List.set_cons_succ, List.map_cons, hentry, Option.map_some]

/-- A record with one of its fields exchanged is the record of its fields with this one exchanged. -/
theorem setField?_record {fields : List (String × Value)} (hnames : (fields.map Prod.fst).Nodup) {i : Nat}
    (hi : i < fields.length) (new : Value)
    (hbefore : ∀ j (hj : j < i), Value.setField? (.text fields[i].1) new fields[j].2 = none) :
    Value.setField? (.text fields[i].1) new (.record fields) = some (.record (fields.set i (fields[i].1, new))) := by
  rw [Value.record, Value.setField?, setAmong?_fields (fun _ _ => rfl) hnames hi new hbefore]
  rfl

end Msgpack

/-! ## Tables -/

namespace Build.Made

variable [HashLibrary] [Ord κ] [DecidableEq κ] {settings : Settings κ ν} {entries slots : List (Entry κ ν)}
  {d : Descriptor κ ν} {records found : List Bytes} {file : Option Bytes} {storage storage' : Storage}

/-- A bucket whose record is as it was written is read as it was, by number. -/
theorem entryAt_intact (h : Made settings entries d slots records file) (hfaithful : settings.Faithful)
    (hserves : storage.Serves d records) (hserves' : storage'.Serves d found) (hlength : found.length = records.length)
    (range : Option (κ × κ)) {i : Nat} (hintact : found[i]? = records[i]?) :
    (Table.fresh d storage' range).entryAt i = (Table.fresh d storage range).entryAt i := by
  rcases Nat.lt_or_ge i slots.length with hi | hi
  · rw [h.entryAt_slot hfaithful hserves range hi,
      Table.entryAt_fresh hserves' (hlength.trans h.records_length) range (h.slots_length ▸ hi),
      h.decodeRecord_intact hfaithful hi hintact]
  · rw [h.slots_length] at hi
    rw [Table.entryAt_of_size_le _ hi, Table.entryAt_of_size_le _ hi]
    rfl

/-- A key that is not led to a record with another content is looked up as it was. -/
theorem find_intact (h : Made settings entries d slots records file) (hfaithful : settings.Faithful)
    (hserves : storage.Serves d records) (hserves' : storage'.Serves d found) (hlength : found.length = records.length)
    (range : Option (κ × κ)) {key : κ} (hintact : ∀ i, d.bucketOf key = .ok (some i) → found[i]? = records[i]?) :
    (Table.fresh d storage' range).find key = (Table.fresh d storage range).find key := by
  have hrange : (Table.fresh d storage' range).outOfRange key = (Table.fresh d storage range).outOfRange key := rfl
  rw [Table.find_fresh, Table.find_fresh, hrange]
  cases hkey : d.bucketOf key with
  | error fault => rfl
  | ok slot =>
    cases slot with
    | none => rfl
    | some i =>
      have hi := (h.kept_of_bucketOf hkey).1
      have hi' : i < records.length := h.arranged.records_length ▸ hi
      simp only [Outcome.ok_bind, Table.readBucket_fresh hserves range hi',
        Table.readBucket_fresh hserves' range (hlength ▸ hi'), h.decodeRecord_slot hfaithful hi,
        h.decodeRecord_intact hfaithful hi (hintact i hkey)]

end Build.Made

/-- Damage stays in its record. A table whose build ended well opens as before when bytes inside the record of a bucket were
changed, in every way. All other buckets have what they had, and keys that are not led to this bucket are answered as before,
those that the table was built from and all others. -/
theorem Build.damage_stays_in_record [HashLibrary] [Ord κ] [DecidableEq κ] [Spelled κ] [Spelled ν] [Std.TransOrd κ]
    {finder : CodecFinder κ ν} {store store' : FileStore} {settings : Settings κ ν} {dataSize : Option Nat}
    {timestamp : Nat} {directory : Path} {entries : List (Entry κ ν)} {d : Descriptor κ ν}
    (hfaithful : settings.Faithful) (hcount : entries.length < 0x100000000)
    (hrun : run store settings dataSize timestamp directory (.ofEntries entries) = (store', .ok d))
    (hlibrary : HashLibrary.Restores) (hknown : finder.Knows settings) (hbounded : settings.Bounded)
    (hsupported : d.Supported) :
    ∃ place slots records file, Arranged d.settings d.hash entries slots records ∧
      Filed store' directory place records.flatten file d.encode ∧
      ∀ j (hj : j < records.length) start patch, start + patch.length ≤ records[j].length → ∀ damaged : FileStore,
        Filed damaged directory place
          (Bytes.overlay records.flatten (startOf (records.map List.length) j + start) patch) file d.encode →
        ∀ opening : Opening, ∃ t t', opening.open finder store' directory = .ok t ∧
          opening.open finder damaged directory = .ok t' ∧ (∀ i, i ≠ j → t'.entryAt i = t.entryAt i) ∧
          ∀ key, d.bucketOf key ≠ .ok (some j) →
            (t'.get key).2 = (t.get key).2 ∧ (t'.contains key).2 = (t.contains key).2 := by
  obtain ⟨place, slots, records, file, hmade, hfiled, hpaths⟩ := made_of_run hrun hcount
  refine ⟨place, slots, records, file, hmade.arranged, hfiled, ?_⟩
  intro j hj start patch hpatch damaged hdamaged opening
  rw [Bytes.overlay_flatten hj hpatch] at hdamaged
  have hlengths : (records.set j (Bytes.overlay records[j] start patch)).map List.length = records.map List.length := by
    have hj' : j < (records.map List.length).length := by rwa [List.length_map]
    have hlength : records[j].length = (records.map List.length)[j] := (List.getElem_map _).symm
    rw [List.map_set, Bytes.length_overlay hpatch, hlength, List.set_getElem_self]
  obtain ⟨storage, hserves, hopen⟩ :=
    hmade.open_eq_ok hcount hlibrary hknown hbounded hsupported hfaithful hfiled hpaths opening
  obtain ⟨storage', hserves', hopen'⟩ :=
    hmade.open_of_lengths hcount hlibrary hknown hbounded hsupported hlengths hdamaged hpaths opening
  rw [hmade.keyRange_eq hfaithful] at hopen'
  have hintact (i : Nat) (hi : i ≠ j) : (records.set j (Bytes.overlay records[j] start patch))[i]? = records[i]? :=
    List.getElem?_set_ne hi.symm
  refine ⟨_, _, hopen, hopen', fun i hi => ?_, fun key hkey => ?_⟩
  · exact hmade.entryAt_intact hfaithful hserves hserves' List.length_set _ (hintact i hi)
  · have hfind := hmade.find_intact hfaithful hserves hserves' List.length_set (settings.rangeOf entries)
      fun i (hi : d.bucketOf key = .ok (some i)) => hintact i fun hij => hkey (hij ▸ hi)
    refine ⟨by rw [Table.get_snd, Table.get_snd, hfind], ?_⟩
    rw [Table.contains_fresh, Table.contains_fresh, hfind]
    rfl

end FrozenTable
