import FrozenTable.Proofs.Lemmas.Supporting

/-!
# What settings are after some changes

A change gives one field of the settings a value. After any changes each field has the last value it was given, so what matters
is the order of the changes to one field only. The line of records is kept beside the fields; the three fields that it is worked
out from refresh it, and no other does, so it is never stale in settings that were made by changes. Settings from elsewhere may
come with any line, and keep it until one of the three is changed.
-/

namespace FrozenTable.Settings

variable {κ ν : Type}

/-! ## Fields -/

/-- The fields of settings that changes give values to. -/
inductive Field where
  | keyCodec
  | valueCodec
  | validation
  | keyStorage
  | offsetStorage
  | rangeChecking
  | signatureWidth
  | maxHeap
  | maxDataHeap
  | shardSize
  | describeDuplicates
deriving DecidableEq

/-- The values of a field. -/
def Field.Value (κ ν : Type) : Field → Type
  | .keyCodec => Option (Codec κ)
  | .valueCodec => Option (Codec ν)
  | .validation => KeyValidation
  | .keyStorage => KeyStorage
  | .offsetStorage => OffsetStorage
  | .rangeChecking => RangeChecking
  | .signatureWidth | .maxHeap | .maxDataHeap | .shardSize => Nat
  | .describeDuplicates => Bool

/-- Whether the line of records is worked out from a field. -/
def Field.shapesLine : Field → Bool
  | .keyCodec | .valueCodec | .keyStorage => true
  | _ => false

/-- The value of a field. -/
def read (s : Settings κ ν) : (field : Field) → field.Value κ ν
  | .keyCodec => s.keyCodec
  | .valueCodec => s.valueCodec
  | .validation => s.validation
  | .keyStorage => s.keyStorage
  | .offsetStorage => s.offsetStorage
  | .rangeChecking => s.rangeChecking
  | .signatureWidth => s.signatureWidth
  | .maxHeap => s.maxHeap
  | .maxDataHeap => s.maxDataHeap
  | .shardSize => s.shardSize
  | .describeDuplicates => s.describeDuplicates

namespace Change

/-- The field that a change gives a value to. -/
def field : Change κ ν → Field
  | .keyCodec _ => .keyCodec
  | .valueCodec _ => .valueCodec
  | .validation _ => .validation
  | .keyStorage _ => .keyStorage
  | .offsetStorage _ => .offsetStorage
  | .rangeChecking _ => .rangeChecking
  | .signatureWidth _ => .signatureWidth
  | .maxHeap _ => .maxHeap
  | .maxDataHeap _ => .maxDataHeap
  | .shardSize _ => .shardSize
  | .describeDuplicates _ => .describeDuplicates

/-- The value that a change gives to its field. -/
def value : (change : Change κ ν) → change.field.Value κ ν
  | .keyCodec codec => some codec
  | .valueCodec codec => some codec
  | .validation choice => choice
  | .keyStorage storage => storage
  | .offsetStorage storage => storage
  | .rangeChecking checking => checking
  | .signatureWidth width => width
  | .maxHeap limit => limit
  | .maxDataHeap limit => limit
  | .shardSize size => size
  | .describeDuplicates on => on

/-- The value that a change gives to a field, if it is the field of the change. -/
def valueFor (field : Field) (change : Change κ ν) : Option (field.Value κ ν) :=
  if h : change.field = field then some (h ▸ change.value) else none

end Change

/-- The last value that a field is given by some changes. -/
def lastGiven (changes : List (Change κ ν)) (field : Field) : Option (field.Value κ ν) :=
  (changes.filterMap (Change.valueFor field)).getLast?

/-! ## One change, then all -/

variable {s t : Settings κ ν} {changes changes' : List (Change κ ν)}

/-- A change gives its field the value and leaves the other fields alone. -/
theorem read_change (s : Settings κ ν) (change : Change κ ν) (field : Field) :
    (s.change change).read field = (change.valueFor field).getD (s.read field) := by
  unfold Change.valueFor
  by_cases h : change.field = field
  · subst h
    rw [dif_pos rfl]
    cases change <;> rfl
  · rw [dif_neg h, Option.getD_none]
    cases change <;> cases field <;> first | rfl | exact absurd rfl h

theorem changed_concat (s : Settings κ ν) (changes : List (Change κ ν)) (last : Change κ ν) :
    s.changed (changes ++ [last]) = (s.changed changes).change last := by
  rw [changed, List.foldl_concat]
  rfl

/-- After some changes a field has the last value it was given, or the one it had. -/
theorem read_changed (s : Settings κ ν) (changes : List (Change κ ν)) (field : Field) :
    (s.changed changes).read field = (lastGiven changes field).getD (s.read field) := by
  induction changes using List.reverseRecOn with
  | nil => rfl
  | append_singleton changes last ih =>
    rw [changed_concat, read_change, ih, lastGiven, lastGiven, List.filterMap_append, List.getLast?_append]
    cases hlast : last.valueFor field <;> simp [hlast]

/-! ## The line of records -/

/-- The lines of keys and values follow from the fields. -/
theorem lines_of_read (h : ∀ field, s.read field = t.read field) : s.keyLine.add s.valueLine = t.keyLine.add t.valueLine := by
  have hkey : s.keyCodec = t.keyCodec := h .keyCodec
  have hvalue : s.valueCodec = t.valueCodec := h .valueCodec
  have hstorage : s.keyStorage = t.keyStorage := h .keyStorage
  rw [keyLine, keyLine, storesKeys, storesKeys, valueLine, valueLine, hkey, hvalue, hstorage]

/-- Settings are told by their fields and their line. -/
theorem eq_of_read (h : ∀ field, s.read field = t.read field) (hline : s.entryLine = t.entryLine) : s = t := by
  cases s
  cases t
  rw [mk.injEq]
  exact ⟨h .keyCodec, h .valueCodec, h .validation, h .keyStorage, h .offsetStorage, h .rangeChecking, h .signatureWidth,
    h .maxHeap, h .maxDataHeap, h .shardSize, h .describeDuplicates, hline⟩

theorem entryLine_change_of_shapesLine (s : Settings κ ν) {change : Change κ ν} (h : change.field.shapesLine = true) :
    (s.change change).entryLine = (s.change change).keyLine.add (s.change change).valueLine := by
  cases change with
  | keyCodec | valueCodec | keyStorage => exact entryLine_refreshed _
  | validation | offsetStorage | rangeChecking | signatureWidth | maxHeap | maxDataHeap | shardSize | describeDuplicates =>
    cases h

theorem entryLine_change_of_other (s : Settings κ ν) {change : Change κ ν} (h : change.field.shapesLine = false) :
    (s.change change).entryLine = s.entryLine := by
  cases change with
  | keyCodec | valueCodec | keyStorage => cases h
  | validation | offsetStorage | rangeChecking | signatureWidth | maxHeap | maxDataHeap | shardSize | describeDuplicates => rfl

/-- Once a field that shapes the line was changed, the line is that of the codecs, whatever it was before and whatever else is
changed later. -/
theorem entryLine_changed_of_exists (s : Settings κ ν) (h : ∃ change ∈ changes, change.field.shapesLine = true) :
    (s.changed changes).entryLine = (s.changed changes).keyLine.add (s.changed changes).valueLine := by
  induction changes using List.reverseRecOn with
  | nil => exact absurd h (by simp)
  | append_singleton changes last ih =>
    rw [changed_concat]
    cases hlast : last.field.shapesLine with
    | true => exact entryLine_change_of_shapesLine _ hlast
    | false =>
      obtain ⟨change, hmem, hshapes⟩ := h
      rcases List.mem_append.1 hmem with hmem | hmem
      · exact entryLine_change (ih ⟨change, hmem, hshapes⟩) last
      · rw [List.mem_singleton.1 hmem, hlast] at hshapes
        cases hshapes

/-- As long as no field that shapes the line is changed, the line stays. -/
theorem entryLine_changed_of_forall (s : Settings κ ν) (h : ∀ change ∈ changes, change.field.shapesLine = false) :
    (s.changed changes).entryLine = s.entryLine := by
  refine List.foldlRecOn (motive := fun t => t.entryLine = s.entryLine) changes change rfl ?_
  intro t ht change hmem
  rw [entryLine_change_of_other t (h change hmem), ht]

/-! ## Changes in another order -/

theorem lastGiven_congr {field : Field} (h : changes'.filter (·.field = field) = changes.filter (·.field = field)) :
    lastGiven changes' field = lastGiven changes field := by
  have hown (list : List (Change κ ν)) :
      (list.filter (·.field = field)).filterMap (Change.valueFor field) = list.filterMap (Change.valueFor field) := by
    rw [List.filterMap_filter]
    refine List.filterMap_congr fun change _ => ?_
    by_cases hfield : change.field = field
    · rw [if_pos (decide_eq_true hfield)]
    · rw [if_neg (by simp [hfield]), Change.valueFor, dif_neg hfield]
  rw [lastGiven, lastGiven, ← hown changes', ← hown changes, h]

/-- Changes may change places unless they are to one field. -/
theorem changed_eq_of_filter (s : Settings κ ν)
    (h : ∀ field, changes'.filter (·.field = field) = changes.filter (·.field = field)) :
    s.changed changes' = s.changed changes := by
  have hread (field : Field) : (s.changed changes').read field = (s.changed changes).read field := by
    rw [read_changed, read_changed, lastGiven_congr (h field)]
  have hmem (change : Change κ ν) : change ∈ changes' ↔ change ∈ changes := by
    have hiff : change ∈ changes'.filter (·.field = change.field) ↔ change ∈ changes.filter (·.field = change.field) := by
      rw [h change.field]
    simpa using hiff
  refine eq_of_read hread ?_
  by_cases hshapes : ∃ change ∈ changes, change.field.shapesLine = true
  · have hshapes' : ∃ change ∈ changes', change.field.shapesLine = true := by
      obtain ⟨change, hchange, hshape⟩ := hshapes
      exact ⟨change, (hmem change).2 hchange, hshape⟩
    rw [entryLine_changed_of_exists s hshapes', entryLine_changed_of_exists s hshapes, lines_of_read hread]
  · have hnone : ∀ change ∈ changes, change.field.shapesLine = false := by simpa using hshapes
    rw [entryLine_changed_of_forall s hnone, entryLine_changed_of_forall s fun change hchange =>
      hnone change ((hmem change).1 hchange)]

/-- Settings describe a table when nothing is wrong with any of the four things that are looked at. -/
theorem validate_eq_ok_iff (s : Settings κ ν) : s.validate = .ok () ↔
    s.keyCodec.isSome = true ∧ (s.offsetStorage = .fixed → s.entryLine.isConstant = true) ∧
      (s.keyStorage = .implicit → s.signatureWidth ≠ 0) ∧ s.signatureWidth ≤ 64 := by
  have hvalidate : s.validate = .ok () ↔ s.flaw = none := by
    unfold validate
    cases s.flaw <;> simp
  rw [hvalidate, flaw]
  split_ifs <;> simp_all [Option.isSome_iff_ne_none]

/-- Settings after any changes. Each field has the last value that it was given, or else the one it had at the start. Where the
start was that of `initial`, the line of records is that of the keys and the values, and the settings describe a table exactly
when there is a codec for keys, fixed offsets come with a flat line, dropped keys with a signature, and the signature has at
most 64 bits. Changes to each field in the same order, however those to different fields are mingled, lead to the same settings.
From any settings, such as were read from an image and hold any line at all, a change of a codec or of the key storage makes the
line that of the keys and the values for good, and without one the line stays. -/
theorem changed_keeps_last_and_line (changes : List (Change κ ν)) :
    (∀ (s : Settings κ ν) field, (s.changed changes).read field = (lastGiven changes field).getD (s.read field)) ∧
    (initial.changed changes : Settings κ ν).entryLine =
      (initial.changed changes : Settings κ ν).keyLine.add (initial.changed changes : Settings κ ν).valueLine ∧
    (∀ (s : Settings κ ν) changes', (∀ field, changes'.filter (·.field = field) = changes.filter (·.field = field)) →
      s.changed changes' = s.changed changes) ∧
    ((initial.changed changes : Settings κ ν).validate = .ok () ↔
      (initial.changed changes : Settings κ ν).keyCodec.isSome = true ∧
      ((initial.changed changes : Settings κ ν).offsetStorage = .fixed →
        ((initial.changed changes : Settings κ ν).keyLine.add (initial.changed changes : Settings κ ν).valueLine).isConstant =
          true) ∧
      ((initial.changed changes : Settings κ ν).keyStorage = .implicit →
        (initial.changed changes : Settings κ ν).signatureWidth ≠ 0) ∧
      (initial.changed changes : Settings κ ν).signatureWidth ≤ 64) ∧
    ∀ s : Settings κ ν,
      ((∃ change ∈ changes, change.field.shapesLine = true) →
        (s.changed changes).entryLine = (s.changed changes).keyLine.add (s.changed changes).valueLine) ∧
      ((∀ change ∈ changes, change.field.shapesLine = false) → (s.changed changes).entryLine = s.entryLine) := by
  refine ⟨fun s field => read_changed s changes field, entryLine_changed changes, fun s _ => changed_eq_of_filter s, ?_,
    fun s => ⟨entryLine_changed_of_exists s, entryLine_changed_of_forall s⟩⟩
  rw [← entryLine_changed changes]
  exact validate_eq_ok_iff _

/-- Five changes in two orders, two of them to the offset storage, and settings that were read from an image whose line is
not that of their codecs: another signature width leaves that line, and the codec of the values that they have already
replaces it. -/
theorem changed_in_two_orders :
    (initial.changed [.keyCodec .long, .offsetStorage .fixed, .signatureWidth 7, .offsetStorage .selected, .valueCodec .varLong] :
        Settings Int64 Int64) =
      initial.changed [.valueCodec .varLong, .offsetStorage .fixed, .keyCodec .long, .offsetStorage .selected,
        .signatureWidth 7] ∧
    (initial.changed [.valueCodec .varLong, .offsetStorage .fixed, .keyCodec .long, .offsetStorage .selected,
        .signatureWidth 7] : Settings Int64 Int64).read .offsetStorage = .selected ∧
    (initial.changed [.valueCodec .varLong, .offsetStorage .fixed, .keyCodec .long, .offsetStorage .selected,
        .signatureWidth 7] : Settings Int64 Int64).validate = .ok () ∧
    ∃ s, decode CodecFinder.longs (encode { longs .explicit .fixed with entryLine := ⟨3, 5⟩ }) = some s ∧
      s.entryLine ≠ s.keyLine.add s.valueLine ∧ (s.changed [.signatureWidth 9]).entryLine = ⟨3, 5⟩ ∧
      (s.changed [.valueCodec .long, .signatureWidth 9]).entryLine = ⟨0, 16⟩ := by
  obtain ⟨hread, -, horder, hvalid, -⟩ := changed_keeps_last_and_line (κ := Int64) (ν := Int64)
    [.valueCodec .varLong, .offsetStorage .fixed, .keyCodec .long, .offsetStorage .selected, .signatureWidth 7]
  obtain ⟨-, -, -, -, hstale⟩ := changed_keeps_last_and_line (κ := Int64) (ν := Int64) [.signatureWidth 9]
  obtain ⟨-, -, -, -, hfresh⟩ := changed_keeps_last_and_line (κ := Int64) (ν := Int64) [.valueCodec .long, .signatureWidth 9]
  refine ⟨horder initial _ ?_, hread initial .offsetStorage, hvalid.2 (by decide),
    { longs .explicit .fixed with entryLine := ⟨3, 5⟩ }, ?_, by decide, (hstale _).2 (by simp [Change.field, Field.shapesLine]),
    ((hfresh _).1 ⟨.valueCodec .long, by simp, rfl⟩).trans (by decide)⟩
  · intro field
    cases field <;> rfl
  · have hbounded : Bounded { longs .explicit .fixed with entryLine := ⟨3, 5⟩ } :=
      (formed_longs .explicit .fixed).bounded.lined (by decide) (by decide)
    have hknown := CodecFinder.knows_longs .explicit .fixed
    refine decode_encode ⟨hknown.key, hknown.value⟩ hbounded (regular_form hbounded ?_ ?_)
    all_goals
      intro codec hcodec
      cases hcodec
      exact Msgpack.regular_array (by decide) nofun

end FrozenTable.Settings
