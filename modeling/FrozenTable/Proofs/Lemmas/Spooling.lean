import FrozenTable.Build.Spool
import FrozenTable.Proofs.Lemmas.Refusing

/-!
# What is read back from a temporary file

A temporary file has the keys and values of entries, one after the other. With codecs that read back what they wrote the
entries are read back one by one, but for values that no table would keep and for entries that took no bytes: these leave no
trace (`Build.unspool_flatten`). What a build plans does not depend on values that are not kept, nor on who has added up the
sizes.
-/

namespace FrozenTable

variable {κ ν : Type}

/-! ## Values that are not kept -/

namespace Settings

/-- An entry without what records do not keep of it. -/
def trimmed (s : Settings κ ν) (entry : Entry κ ν) : Entry κ ν :=
  ⟨entry.key, if s.hasValues then entry.value else none⟩

/-- A trimmed entry passes like the whole one. -/
theorem needValue_trimmed (s : Settings κ ν) (entry : Entry κ ν) : s.needValue (s.trimmed entry) = s.needValue entry := by
  unfold needValue trimmed
  by_cases hvalues : s.hasValues = true
  · rw [hvalues]
    rfl
  · simp [hvalues]

/-- A trimmed entry has the same bytes of a value. -/
theorem valuePart_trimmed (s : Settings κ ν) (entry : Entry κ ν) :
    s.valuePart (s.trimmed entry).value = s.valuePart entry.value := by
  unfold valuePart trimmed hasValues
  cases s.valueCodec <;> rfl

/-- The value of a trimmed entry is as long. -/
theorem valueSize_trimmed (s : Settings κ ν) (entry : Entry κ ν) :
    s.valueSize (s.trimmed entry).value = s.valueSize entry.value := by
  unfold valueSize trimmed hasValues
  cases s.valueCodec <;> rfl

/-- A trimmed entry has the same record. -/
theorem record_trimmed (s : Settings κ ν) (entry : Entry κ ν) : s.record (s.trimmed entry) = s.record entry := by
  rw [record_eq, record_eq, valuePart_trimmed]
  rfl

/-- The record of a trimmed entry is as long. -/
theorem recordSize_trimmed (s : Settings κ ν) (entry : Entry κ ν) : s.recordSize (s.trimmed entry) = s.recordSize entry := by
  rw [recordSize_eq, recordSize_eq, valueSize_trimmed]
  rfl

end Settings

namespace Build

section

variable [Ord κ] {settings : Settings κ ν} {entries : List (Entry κ ν)}

/-- A first pass finds the same without values that are not kept. -/
theorem scan_trimmed (sized : Bool) : Scan.run settings sized ((entries.map settings.trimmed).map .ok) =
    Scan.run settings sized (entries.map .ok) := by
  rw [Scan.run, Scan.run, List.map_map, List.foldlM_map, List.foldlM_map]
  congr 1
  funext scan entry
  have hcounted : Scan.counted settings sized (settings.trimmed entry) = Scan.counted settings sized entry := by
    rw [Scan.counted, Scan.counted, settings.recordSize_trimmed]
  simp only [Function.comp_apply, Outcome.ok_bind, Scan.step_eq, settings.needValue_trimmed, hcounted]
  rfl

omit [Ord κ] in
/-- So does a second pass. -/
theorem arrange_trimmed [Spelled κ] (storage : OffsetStorage) (hash : PerfectHash) (dataSize : Nat) :
    arrange { settings with offsetStorage := storage } hash dataSize ((entries.map settings.trimmed).map .ok) =
      arrange { settings with offsetStorage := storage } hash dataSize (entries.map .ok) := by
  have hrun (p : ShardPlan) :
      Spread.run { settings with offsetStorage := storage } hash p ((entries.map settings.trimmed).map .ok) =
        Spread.run { settings with offsetStorage := storage } hash p (entries.map .ok) := by
    rw [Spread.run, Spread.run, List.map_map, List.foldlM_map, List.foldlM_map]
    congr 1
    funext s entry
    have hneed := { settings with offsetStorage := storage }.needValue_trimmed entry
    have hrecord := { settings with offsetStorage := storage }.record_trimmed entry
    have htrimmed : { settings with offsetStorage := storage }.trimmed entry = settings.trimmed entry := rfl
    rw [htrimmed] at hneed hrecord
    simp only [Function.comp_apply, Outcome.ok_bind, Spread.step, hneed, hrecord]
    rfl
  simp only [arrange, hrun]

variable [HashLibrary] [Spelled κ] [Spelled ν] {timestamp : Nat} {directory : Path} {p : BuildPlan κ ν}

/-- Plans do not depend on values that are not kept. -/
theorem plan_trimmed {dataSize : Option Nat} :
    plan settings dataSize timestamp directory (.ofEntries (entries.map settings.trimmed)) = .ok p ↔
      plan settings dataSize timestamp directory (.ofEntries entries) = .ok p := by
  have hhashed (scan : Scan κ) (hash : PerfectHash) :
      Hashed settings dataSize (.ofEntries (entries.map settings.trimmed)) scan hash ↔
        Hashed settings dataSize (.ofEntries entries) scan hash := by
    constructor
    · exact fun h => ⟨h.flaw_eq_none, (scan_trimmed _).symm.trans h.scanned, h.built⟩
    · exact fun h => ⟨h.flaw_eq_none, (scan_trimmed _).trans h.scanned, h.built⟩
  rw [plan_eq_ok, plan_eq_ok]
  simp only [hhashed]
  refine exists_congr fun scan => exists_congr fun hash => and_congr_right fun h => ?_
  cases hresolved : settings.resolved scan.fingerprints.length (dataSize.getD scan.dataSize) with
  | error fault => rfl
  | ok settings' =>
    obtain ⟨storage, rfl⟩ : ∃ storage, settings' = { settings with offsetStorage := storage } :=
      ⟨_, (resolved_eq_ok h.flaw_eq_none hresolved).1⟩
    simp only [Source.ofEntries, planWriting, arrange_trimmed]

/-- Plans do not depend on who has added up the sizes that the codecs tell. -/
theorem plan_sized {sizes : List Nat} (hsizes : entries.mapM settings.recordSize = .ok sizes) :
    plan settings (some sizes.sum) timestamp directory (.ofEntries entries) = .ok p ↔
      plan settings none timestamp directory (.ofEntries entries) = .ok p := by
  have hzero : entries.mapM (Scan.counted settings true) = .ok (entries.map fun _ => 0) := Outcome.mapM_ok fun _ _ => rfl
  rw [plan_eq_ok, plan_eq_ok]
  constructor
  · rintro ⟨scan, hash, hhashed, rfl⟩
    obtain ⟨hcovers, -⟩ := Scan.run_eq_ok_iff.1 hhashed.scanned
    have hscanned : Scan.run settings false (entries.map .ok) = .ok { scan with dataSize := sizes.sum } :=
      Scan.run_eq_ok_iff.2 ⟨⟨hcovers.value, hcovers.fingerprints, hcovers.range_eq⟩, sizes, hsizes, rfl⟩
    exact ⟨_, hash, ⟨hhashed.flaw_eq_none, hscanned, hhashed.built⟩, rfl⟩
  · rintro ⟨scan, hash, hhashed, rfl⟩
    obtain ⟨hcovers, sizes', hsizes', hsum⟩ := Scan.run_eq_ok_iff.1 hhashed.scanned
    cases hsizes.symm.trans hsizes'
    have hscanned : Scan.run settings true (entries.map .ok) = .ok { scan with dataSize := 0 } :=
      Scan.run_eq_ok_iff.2 ⟨⟨hcovers.value, hcovers.fingerprints, hcovers.range_eq⟩, _, hzero, by simp⟩
    refine ⟨_, hash, ⟨hhashed.flaw_eq_none, hscanned, hhashed.built⟩, ?_⟩
    simp only [Option.getD_none, Option.getD_some, hsum]

/-- Builds with the same plans end well alike. -/
theorem run_eq_ok_of_plan {dataSize dataSize' : Option Nat} {source source' : Source κ ν}
    (h : ∀ p, plan settings dataSize timestamp directory source = .ok p ↔
      plan settings dataSize' timestamp directory source' = .ok p) {store store' : FileStore} {d : Descriptor κ ν} :
    run store settings dataSize timestamp directory source = (store', .ok d) ↔
      run store settings dataSize' timestamp directory source' = (store', .ok d) := by
  unfold run
  cases hplan : plan settings dataSize timestamp directory source with
  | ok p => rw [(h p).1 hplan]
  | error fault =>
    cases hplan' : plan settings dataSize' timestamp directory source' with
    | ok p => exact nomatch hplan.symm.trans ((h p).2 hplan')
    | error fault' => simp

end

/-! ## Writing and reading back -/

section

variable {settings : Settings κ ν}

/-- The spool has the key and then the value, whatever records have. -/
theorem spoolEntry_eq (settings : Settings κ ν) (entry : Entry κ ν) :
    spoolEntry settings entry =
      settings.keyBytes entry.key >>= fun key => (settings.valuePart entry.value).map (key ++ ·) := by
  simp only [Settings.map_valuePart]
  unfold spoolEntry
  cases settings.valueCodec <;> cases entry.value <;> rfl

/-- Whether an entry takes any bytes in a temporary file. -/
def takesBytes (settings : Settings κ ν) (entry : Entry κ ν) : Bool :=
  match spoolEntry settings entry with
  | .ok [] => false
  | _ => true

/-- An entry that can be written to a temporary file. -/
structure Spoolable (settings : Settings κ ν) (entry : Entry κ ν) : Prop where
  value : settings.needValue entry = .ok ()
  written : ∃ bytes, spoolEntry settings entry = .ok bytes

/-- What a temporary file has when all entries are written. -/
theorem spoolAll_eq_ok {pieces : List Bytes} {dataSize : Nat} {entries : List (Entry κ ν)} {spool : Spool} :
    spoolAll settings pieces dataSize entries = .ok spool ↔
      ∃ written sizes, (∀ entry ∈ entries, settings.needValue entry = .ok ()) ∧
        entries.mapM (spoolEntry settings) = .ok written ∧ entries.mapM settings.recordSize = .ok sizes ∧
        spool = ⟨pieces.reverse.flatten ++ written.flatten, dataSize + sizes.sum⟩ := by
  induction entries generalizing pieces dataSize with
  | nil =>
    rw [spoolAll, Except.ok.injEq]
    constructor
    · rintro rfl
      exact ⟨[], [], by simp, rfl, rfl, by simp⟩
    · rintro ⟨written, sizes, -, hwritten, hsizes, rfl⟩
      cases hwritten
      cases hsizes
      simp
  | cons entry entries ih =>
    simp only [spoolAll, Outcome.bind_eq_ok, ih]
    constructor
    · rintro ⟨_, hvalue, piece, hpiece, size, hsize, written, sizes, hvalues, hwritten, hsizes, rfl⟩
      refine ⟨piece :: written, size :: sizes, ?_, ?_, ?_, ?_⟩
      · rw [List.forall_mem_cons]
        exact ⟨hvalue, hvalues⟩
      · rw [Outcome.mapM_eq_ok, List.map_cons, hpiece, Outcome.mapM_eq_ok.1 hwritten, List.map_cons]
      · rw [Outcome.mapM_eq_ok, List.map_cons, hsize, Outcome.mapM_eq_ok.1 hsizes, List.map_cons]
      · simp [Nat.add_assoc]
    · rintro ⟨written, sizes, hvalues, hwritten, hsizes, rfl⟩
      rw [Outcome.mapM_eq_ok, List.map_cons, eq_comm, List.map_eq_cons_iff] at hwritten hsizes
      obtain ⟨piece, written, rfl, hpiece, hwritten⟩ := hwritten
      obtain ⟨size, sizes, rfl, hsize, hsizes⟩ := hsizes
      obtain ⟨hvalue, hvalues⟩ := List.forall_mem_cons.1 hvalues
      refine ⟨(), hvalue, piece, hpiece.symm, size, hsize.symm, written, sizes, hvalues, ?_, ?_, ?_⟩
      · rw [Outcome.mapM_eq_ok, hwritten]
      · rw [Outcome.mapM_eq_ok, hsizes]
      · simp [Nat.add_assoc]

/-- An entry is read back as it was written, but for a value that is not kept, and what stood behind it is left. -/
theorem unspoolEntry_append (hfaithful : settings.Faithful) {entry : Entry κ ν} (hvalue : settings.needValue entry = .ok ())
    {bytes : Bytes} (h : spoolEntry settings entry = .ok bytes) (rest : Bytes) :
    unspoolEntry settings (bytes ++ rest) = .ok (settings.trimmed entry, rest) := by
  simp only [spoolEntry_eq, Outcome.bind_eq_ok, Outcome.map_eq_ok] at h
  obtain ⟨key, hkey, value, hpart, rfl⟩ := h
  obtain ⟨codec, hcodec, hwrite⟩ := Outcome.bind_eq_ok.1 hkey
  have hread := hfaithful.key codec (Settings.needKeyCodec_eq_ok hcodec) entry.key key (value ++ rest) hwrite
  simp only [unspoolEntry, hcodec, Outcome.ok_bind, List.append_assoc, hread,
    Settings.readValue_append hfaithful hvalue hpart]
  rfl

/-- The entries that took bytes are read back, in order. -/
theorem unspool_flatten (hfaithful : settings.Faithful) {entries : List (Entry κ ν)} {written : List Bytes}
    (hvalues : ∀ entry ∈ entries, settings.needValue entry = .ok ())
    (hwritten : entries.mapM (spoolEntry settings) = .ok written) {limit : Nat} (hlimit : written.flatten.length ≤ limit) :
    unspool settings limit written.flatten =
      ((entries.filter (takesBytes settings)).map settings.trimmed).map .ok := by
  rw [Outcome.mapM_eq_ok] at hwritten
  induction entries generalizing written limit with
  | nil =>
    cases List.map_eq_nil_iff.1 hwritten.symm
    unfold unspool
    rfl
  | cons entry entries ih =>
    rw [List.map_cons, eq_comm, List.map_eq_cons_iff] at hwritten
    obtain ⟨piece, written, rfl, hpiece, hrest⟩ := hwritten
    obtain ⟨hvalue, hvalues⟩ := List.forall_mem_cons.1 hvalues
    rw [List.flatten_cons] at hlimit ⊢
    cases piece with
    | nil =>
      -- nothing was written, and nothing tells the reader that there was an entry
      have hnone : takesBytes settings entry = false := by
        unfold takesBytes
        rw [← hpiece]
      rw [List.filter_cons_of_neg (by simp [hnone])]
      exact ih hvalues hrest.symm hlimit
    | cons byte piece =>
      have hsome : takesBytes settings entry = true := by
        unfold takesBytes
        rw [← hpiece]
      have hread := unspoolEntry_append hfaithful hvalue hpiece.symm written.flatten
      rw [List.length_append, List.length_cons] at hlimit
      obtain ⟨limit, rfl⟩ : ∃ rest, limit = rest + 1 := ⟨limit - 1, by omega⟩
      have hread' := ih hvalues hrest.symm (show written.flatten.length ≤ limit by omega)
      rw [List.filter_cons_of_pos hsome, List.map_cons, List.map_cons, ← hread']
      rw [List.cons_append] at hread ⊢
      rw [unspool, hread]
      exact List.cons_ne_nil _ _

end

/-- Building from entries that can be passed over only once is building from their temporary file. -/
theorem runOnce_eq_ok [HashLibrary] [Ord κ] [Spelled κ] [Spelled ν] {store store' : FileStore} {settings : Settings κ ν}
    {timestamp : Nat} {temporary directory : Path} {entries : List (Entry κ ν)} {d : Descriptor κ ν} :
    runOnce store settings timestamp temporary directory entries = (store', .ok d) ↔
      ∃ written, spool store settings temporary entries = .ok written ∧
        run store settings (some written.dataSize) timestamp directory (written.source settings) = (store', .ok d) := by
  unfold runOnce
  cases spool store settings temporary entries with
  | error fault =>
    constructor
    · intro h
      cases h
    · rintro ⟨_, hspool, -⟩
      cases hspool
  | ok written =>
    constructor
    · intro h
      exact ⟨written, rfl, h⟩
    · rintro ⟨_, hspool, h⟩
      cases hspool
      exact h

end Build

end FrozenTable
