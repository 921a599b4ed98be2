import FrozenTable.Proofs.Lemmas.Interrupting
import FrozenTable.Proofs.Lemmas.Supporting

/-!
# An interrupted build leaves no half of a table

A build may stop anywhere: between two of its operations, while it writes into a file, or at an operation that fails. What is
then found in its directory is what stood there before, or no descriptor, or all of the new table. No descriptor is ever found
beside files that are not its own, whatever stood in the directory and however the new table keeps its offsets.
-/

namespace FrozenTable.Build

variable {κ ν : Type}

/-- What a build that was stopped has left of the tables that can be read, where the whole build would have ended with
`whole`. -/
inductive Remains [HashLibrary] [DecidableEq κ] (finder : CodecFinder κ ν) (store left : FileStore) (directory : Path)
    (whole : FileStore × Except Fault (Descriptor κ ν)) : Prop where
  /-- Every file is as it was, nothing has come but directories on the way of the path, and what opened before opens alike. -/
  | before (hgrows : store.Grows left directory)
    (hreads : ∀ path bytes, store.read path = .ok bytes → left.read path = .ok bytes)
    (hopens : ∀ path options t, Table.openAt finder store path options = .ok t → Table.openAt finder left path options = .ok t)
  /-- There is no descriptor, and nothing opens. -/
  | between (hread : left.read (directory.child TablePaths.descriptorName) = .error .notFound)
    (hopens : ∀ options, Table.openAt finder left directory options = .error (.file .notFound))
  /-- The whole build ends well, its table is there with data, descriptor, and offsets if it needs them, and every file reads
  and opens as in the end. -/
  | after (final : FileStore) (d : Descriptor κ ν) (data : Bytes) (offsets : Option Bytes) (hwhole : whole = (final, .ok d))
    (hdescriptor : left.read (directory.child TablePaths.descriptorName) = .ok d.encode)
    (hdata : left.read (directory.child TablePaths.dataName) = .ok data)
    (hoffsets : ∀ bytes, left.read (directory.child TablePaths.offsetsName) = .ok bytes ↔ offsets = some bytes)
    (hneeds : offsets.isSome = d.needsOffsetsFile)
    (hreads : ∀ path bytes, left.read path = .ok bytes ↔ final.read path = .ok bytes)
    (hopens : ∀ path options t,
      Table.openAt finder left path options = .ok t ↔ Table.openAt finder final path options = .ok t)

section

variable [HashLibrary] [DecidableEq κ] {finder : CodecFinder κ ν} {store left : FileStore} {directory place : Path}
  {whole : FileStore × Except Fault (Descriptor κ ν)}

theorem remains_of_grows (h : store.Grows left directory) : Remains finder store left directory whole :=
  .before h (fun _ _ hread => h.retains.read_eq hread) fun _ _ _ hopen => h.retains.openAt_eq hopen

theorem remains_of_bare (h : left.Bare directory place) : Remains finder store left directory whole :=
  .between h.read_eq fun options => h.openAt_eq finder options

theorem remains_of_retains {final : FileStore} {d : Descriptor κ ν} {data : Bytes} {offsets : Option Bytes}
    (hwhole : whole = (final, .ok d)) (hfinal : store.Left final directory place (some data) offsets (some d.encode))
    (hneeds : offsets.isSome = d.needsOffsetsFile) (hretains : left.Retains final) (hretains' : final.Retains left) :
    Remains finder store left directory whole := by
  have hreads : ∀ path bytes, left.read path = .ok bytes ↔ final.read path = .ok bytes :=
    fun path bytes => ⟨hretains.read_eq, hretains'.read_eq⟩
  refine .after final d data offsets hwhole ?_ ?_ (fun bytes => ?_) hneeds hreads
    fun path options t => ⟨hretains.openAt_eq, hretains'.openAt_eq⟩
  · exact (hreads _ _).2 (hfinal.leads.read_child plain_descriptorName hfinal.descriptor)
  · exact (hreads _ _).2 (hfinal.leads.read_child plain_dataName hfinal.data)
  · rw [hreads, hfinal.leads.read_child_eq plain_offsetsName hfinal.offsets]
    cases offsets <;> simp

/-- Up to the data and the offsets. -/
theorem remains_of_filling {data offsets : Option Bytes} {started : List FileOperation}
    (h : Interrupted (FileStore.filling directory data offsets) started) :
    Remains finder store (store.performAll started).1 directory whole := by
  rcases FileStore.grows_or_bare_of_interrupted store h with hgrows | ⟨place, hbare⟩
  · exact remains_of_grows hgrows
  · exact remains_of_bare hbare

/-- From there to the name of the descriptor. -/
theorem remains_of_storing {draft : BuildDraft κ ν} (hcomplete : draft.Complete) {timestamp : Nat} {d : Descriptor κ ν}
    (houtcome : draft.outcome = .ok d) {filled : FileStore}
    (hfill : store.performAll (FileStore.filling directory draft.data draft.offsets) = (filled, .ok ()))
    {started : List FileOperation} (h : Interrupted (d.placed timestamp directory).storing started) :
    Remains finder store (filled.performAll started).1 directory (carryOut store (draft.placed timestamp directory)) := by
  obtain ⟨place, hleft⟩ := FileStore.left_of_performAll_filling hfill
  have hbare : filled.Bare directory place := ⟨hleft.leads, hleft.descriptor⟩
  rcases hbare.interrupted_storing rfl h with hbare | ⟨final, hstore, hretains, hretains'⟩
  · exact remains_of_bare hbare
  have hperform : store.performAll (draft.placed timestamp directory).operations = (final, .ok ()) := by
    rw [BuildDraft.placed, houtcome]
    exact FileStore.performAll_append.2 ⟨filled, hfill, hstore⟩
  obtain ⟨hwhole, place, hfinal⟩ := left_of_carryOut hperform
  obtain ⟨hdata, hneeds⟩ := hcomplete d houtcome
  obtain ⟨data, hdata⟩ := Option.isSome_iff_exists.1 hdata
  rw [houtcome] at hwhole
  rw [houtcome, hdata] at hfinal
  exact remains_of_retains hwhole hfinal hneeds hretains hretains'

end

/-- Wherever a build stops, it leaves what was there before, or no descriptor, or its whole table. The operations are those of
any build, also of one that would fail, or that is made from entries which were written to a temporary file first. -/
theorem interrupted_leaves_no_half [HashLibrary] [Ord κ] [DecidableEq κ] [Spelled κ] [Spelled ν] (finder : CodecFinder κ ν)
    (store : FileStore) {settings : Settings κ ν} {dataSize : Option Nat} {timestamp : Nat} {directory : Path}
    {source : Source κ ν} {p : BuildPlan κ ν} (hplan : plan settings dataSize timestamp directory source = .ok p)
    {started : List FileOperation} (h : Interrupted p.operations started) :
    Remains finder store (store.performAll started).1 directory
      (run store settings dataSize timestamp directory source) := by
  obtain ⟨scan, hash, hhashed, -⟩ := plan_eq_ok.1 hplan
  obtain ⟨draft, hcomplete, hdraft⟩ := exists_draft hhashed
  cases hplan.symm.trans (hdraft timestamp directory)
  have hrun : run store settings dataSize timestamp directory source = carryOut store (draft.placed timestamp directory) := by
    rw [run, hplan]
  rw [hrun]
  rw [BuildDraft.placed] at h
  rcases h.split with hfirst | ⟨more, rfl, hmore⟩
  · exact remains_of_filling hfirst
  rw [FileStore.performAll_append_eq]
  have hfilled : Remains finder store (store.performAll (FileStore.filling directory draft.data draft.offsets)).1 directory
      (carryOut store (draft.placed timestamp directory)) := remains_of_filling (interrupted_refl _)
  cases hfill : store.performAll (FileStore.filling directory draft.data draft.offsets) with
  | mk filled result =>
    rw [hfill] at hfilled
    cases result with
    | error fault => exact hfilled
    | ok =>
      cases houtcome : draft.outcome with
      | error fault =>
        rw [houtcome] at hmore
        cases hmore
        exact hfilled
      | ok d =>
        rw [houtcome] at hmore
        exact remains_of_storing hcomplete houtcome hfill hmore

/-- A table with plain offsets in a file makes way for one without: whenever this stops, no table is there by halves. The old
descriptor is still there after the first operation, none after the second, and the new one before the last. -/
theorem interrupted_single : ∃ p, @plan _ _ .single _ _ _ (.longs .explicit .fixed) none 0 ["work", "table"]
      (.ofEntries [⟨7, some 5⟩]) = .ok p ∧ p.operations.length = 11 ∧
    (∀ count, @Remains _ _ .single _ .longs (single .explicit .indexed).1
      ((single .explicit .indexed).1.performAll (p.operations.take count)).1 ["work", "table"]
      (@run _ _ .single _ _ _ (single .explicit .indexed).1 (.longs .explicit .fixed) none 0 ["work", "table"]
        (.ofEntries [⟨7, some 5⟩]))) ∧
    [0, 1, 2, 9, 10, 11].map (fun count => (((single .explicit .indexed).1.performAll (p.operations.take count)).1.read
      ["work", "table", TablePaths.descriptorName]).toOption.isSome) = [true, true, false, false, true, true] := by
  let _ : HashLibrary := .single
  have hplanned : (plan (.longs .explicit .fixed) none 0 ["work", "table"] (.ofEntries [⟨7, some 5⟩])).toOption.any
      (fun p => decide (p.operations.length = 11 ∧
        [0, 1, 2, 9, 10, 11].map (fun count => (((single .explicit .indexed).1.performAll (p.operations.take count)).1.read
          ["work", "table", TablePaths.descriptorName]).toOption.isSome) = [true, true, false, false, true, true])) = true := by
    decide +kernel
  cases hplan : plan (.longs .explicit .fixed) none 0 ["work", "table"] (.ofEntries [⟨7, some 5⟩]) with
  | error fault =>
    rw [hplan] at hplanned
    exact nomatch hplanned
  | ok p =>
    rw [hplan] at hplanned
    obtain ⟨hlength, hread⟩ := of_decide_eq_true hplanned
    exact ⟨p, rfl, hlength, fun count => interrupted_leaves_no_half .longs _ hplan (interrupted_take count p.operations), hread⟩

end FrozenTable.Build
