import FrozenTable.Proofs.Lemmas.Building
import FrozenTable.Proofs.Lemmas.Clearing

/-!
# A build is drafted without regard to its place

What a build writes follows from its settings and its entries. Where and when it is carried out shows in the paths of its
operations and in two fields of the descriptor only, so one draft tells the plans for all places (`Build.exists_draft`). The
draft also says how far the build comes: whether the data and the offsets are written, and whether a descriptor is made.
-/

namespace FrozenTable

variable {κ ν : Type}

/-- A descriptor for a directory and a time. -/
def Descriptor.placed (d : Descriptor κ ν) (timestamp : Nat) (directory : Path) : Descriptor κ ν :=
  { d with timestamp, paths := .inDirectory directory }

/-- What a build writes, wherever it is carried out: the data and the content of the offsets file as far as it comes to them,
and the descriptor, or the fault that ends it. -/
structure BuildDraft (κ ν : Type) where
  data : Option Bytes
  offsets : Option Bytes
  outcome : Except Fault (Descriptor κ ν)

namespace BuildDraft

/-- The plan for a directory and a time. -/
def placed (b : BuildDraft κ ν) (timestamp : Nat) (directory : Path) : BuildPlan κ ν where
  operations := FileStore.filling directory b.data b.offsets ++
    match b.outcome with
    | .ok d => (d.placed timestamp directory).storing
    | .error _ => []
  outcome := b.outcome.map (·.placed timestamp directory)

/-- A draft with a descriptor has data, and an offsets file if the descriptor asks for one. -/
def Complete (b : BuildDraft κ ν) : Prop :=
  ∀ d, b.outcome = .ok d → b.data.isSome ∧ b.offsets.isSome = d.needsOffsetsFile

/-- A draft that fails is complete without any files. -/
theorem complete_error (data offsets : Option Bytes) (fault : Fault) :
    (⟨data, offsets, .error fault⟩ : BuildDraft κ ν).Complete := by
  intro d hd
  cases hd

end BuildDraft

namespace Build

section

variable [Spelled κ]

/-- What comes after the first pass does not depend on the place. -/
theorem exists_draft_of_planWriting (settings : Settings κ ν) (hash : PerfectHash) (dataSize : Nat) (range : Option (κ × κ))
    (entries : List (Except Fault (Entry κ ν))) :
    ∃ draft : BuildDraft κ ν, draft.Complete ∧
      ∀ timestamp directory, planWriting settings hash dataSize range timestamp directory entries =
        draft.placed timestamp directory := by
  cases harrange : arrange settings hash dataSize entries with
  | error fault =>
    refine ⟨⟨none, none, .error fault⟩, BuildDraft.complete_error _ _ _, fun timestamp directory => ?_⟩
    simp only [planWriting, harrange, BuildDraft.placed, FileStore.filling]
    simp [Except.map]
  | ok arranged =>
    obtain ⟨data, sizes⟩ := arranged
    cases hoffsets : planOffsets settings dataSize sizes with
    | error fault =>
      refine ⟨⟨some data, none, .error fault⟩, BuildDraft.complete_error _ _ _, fun timestamp directory => ?_⟩
      simp only [planWriting, harrange, hoffsets, BuildDraft.placed, FileStore.filling]
      simp [Except.map]
    | ok offsets =>
      cases hrange : rangeBytes settings range with
      | error fault =>
        refine ⟨⟨some data, offsets.file, .error fault⟩, BuildDraft.complete_error _ _ _, fun timestamp directory => ?_⟩
        simp only [planWriting, harrange, hoffsets, hrange, BuildDraft.placed, FileStore.filling]
        simp [Except.map]
      | ok keys =>
        refine ⟨⟨some data, offsets.file, .ok (.new settings hash offsets.select dataSize keys 0 (.inDirectory []))⟩, ?_,
          fun timestamp directory => ?_⟩
        · rintro d ⟨⟩
          exact ⟨rfl, isSome_of_planOffsets hoffsets⟩
        · simp only [planWriting, harrange, hoffsets, hrange, BuildDraft.placed, FileStore.filling]
          rfl

end

variable [HashLibrary] [Ord κ] [Spelled κ] [Spelled ν]

/-- A build that comes to write does so by one draft, whatever the place. -/
theorem exists_draft {settings : Settings κ ν} {dataSize : Option Nat} {source : Source κ ν} {scan : Scan κ}
    {hash : PerfectHash} (h : Hashed settings dataSize source scan hash) :
    ∃ draft : BuildDraft κ ν, draft.Complete ∧
      ∀ timestamp directory, plan settings dataSize timestamp directory source = .ok (draft.placed timestamp directory) := by
  cases hresolved : settings.resolved scan.fingerprints.length (dataSize.getD scan.dataSize) with
  | error fault =>
    refine ⟨⟨none, none, .error fault⟩, BuildDraft.complete_error _ _ _,
      fun timestamp directory => plan_eq_ok.2 ⟨scan, hash, h, ?_⟩⟩
    rw [hresolved, BuildDraft.placed, FileStore.filling]
    simp [Except.map]
  | ok settings' =>
    obtain ⟨draft, hcomplete, hdraft⟩ := exists_draft_of_planWriting settings' hash (dataSize.getD scan.dataSize) scan.range
      source.later
    refine ⟨draft, hcomplete, fun timestamp directory => plan_eq_ok.2 ⟨scan, hash, h, ?_⟩⟩
    rw [hresolved]
    exact (hdraft timestamp directory).symm

/-! ## Carrying out -/

omit [HashLibrary] [Ord κ] [Spelled κ] [Spelled ν] in
/-- A draft that was carried out without a failing operation has left the files it came to, and ends as it says. -/
theorem left_of_carryOut {draft : BuildDraft κ ν} {timestamp : Nat} {directory : Path} {store store' : FileStore}
    (h : store.performAll (draft.placed timestamp directory).operations = (store', .ok ())) :
    carryOut store (draft.placed timestamp directory) = (store', draft.outcome.map (·.placed timestamp directory)) ∧
      ∃ place, store.Left store' directory place draft.data draft.offsets
        (draft.outcome.toOption.map fun d => (d.placed timestamp directory).encode) := by
  refine ⟨by rw [carryOut, h]; rfl, ?_⟩
  unfold BuildDraft.placed at h
  cases houtcome : draft.outcome with
  | error fault =>
    rw [houtcome] at h
    dsimp only at h
    rw [List.append_nil] at h
    exact FileStore.left_of_performAll_filling h
  | ok d =>
    rw [houtcome] at h
    exact FileStore.left_of_performAll rfl h

omit [HashLibrary] [Ord κ] [Spelled κ] [Spelled ν] in
/-- In a directory that accepts a table a draft can be carried out. -/
theorem performAll_of_accepts {store : FileStore} {directory : Path} (h : store.Accepts directory) (draft : BuildDraft κ ν)
    (timestamp : Nat) : ∃ store', store.performAll (draft.placed timestamp directory).operations = (store', .ok ()) := by
  obtain ⟨place, filled, hfill, hleft, hfree⟩ := h.exists_filling draft.data draft.offsets
  unfold BuildDraft.placed
  cases draft.outcome with
  | error fault => exact ⟨filled, FileStore.performAll_append.2 ⟨filled, hfill, rfl⟩⟩
  | ok d =>
    obtain ⟨store', hstore, -⟩ := hleft.performAll_storing_eq (d := d.placed timestamp directory) rfl hfree
    exact ⟨store', FileStore.performAll_append.2 ⟨filled, hfill, hstore⟩⟩

/-- A build that ended well does so in every directory that accepts a table. -/
theorem run_of_accepts {settings : Settings κ ν} {dataSize : Option Nat} {source : Source κ ν} {store store' other : FileStore}
    {timestamp : Nat} {directory directory' : Path} {d : Descriptor κ ν}
    (h : run store settings dataSize timestamp directory source = (store', .ok d)) (haccepts : other.Accepts directory')
    (timestamp' : Nat) : ∃ other', run other settings dataSize timestamp' directory' source =
      (other', .ok (d.placed timestamp' directory')) := by
  obtain ⟨scan, hash, -, -, hhashed, -⟩ := exists_arrange_of_run h
  obtain ⟨draft, -, hdraft⟩ := exists_draft hhashed
  obtain ⟨other', hperform⟩ := performAll_of_accepts haccepts draft timestamp'
  simp only [run, hdraft] at h ⊢
  obtain ⟨f, hf, rfl⟩ := Outcome.map_eq_ok.1 (carryOut_eq_ok h).2
  exact ⟨other', by rw [(left_of_carryOut hperform).1, hf]; rfl⟩

/-- No operation of a build fails. -/
def Unhindered (store : FileStore) (settings : Settings κ ν) (dataSize : Option Nat) (timestamp : Nat) (directory : Path)
    (source : Source κ ν) : Prop :=
  ∀ p, plan settings dataSize timestamp directory source = .ok p → ∃ store', store.performAll p.operations = (store', .ok ())

/-- Nothing hinders a build in a store that accepts its directory. -/
theorem unhindered_of_accepts {store : FileStore} {directory : Path} (h : store.Accepts directory) (settings : Settings κ ν)
    (dataSize : Option Nat) (timestamp : Nat) (source : Source κ ν) :
    Unhindered store settings dataSize timestamp directory source := by
  intro p hplan
  obtain ⟨scan, hash, hhashed, -⟩ := plan_eq_ok.1 hplan
  obtain ⟨draft, -, hdraft⟩ := exists_draft hhashed
  cases hplan.symm.trans (hdraft timestamp directory)
  exact performAll_of_accepts h draft timestamp

/-- Builds from the same source that ended well have left the same files, wherever they were carried out, and their descriptors
differ in time and place only. -/
theorem left_of_runs {settings : Settings κ ν} {dataSize : Option Nat} {source : Source κ ν}
    {store store' other other' : FileStore} {timestamp timestamp' : Nat} {directory directory' : Path} {d e : Descriptor κ ν}
    (h : run store settings dataSize timestamp directory source = (store', .ok d))
    (h' : run other settings dataSize timestamp' directory' source = (other', .ok e)) :
    e = d.placed timestamp' directory' ∧ ∃ place place' data offsets,
      store.Left store' directory place (some data) offsets (some d.encode) ∧
      other.Left other' directory' place' (some data) offsets (some e.encode) := by
  obtain ⟨scan, hash, -, -, hhashed, -⟩ := exists_arrange_of_run h
  obtain ⟨draft, hcomplete, hdraft⟩ := exists_draft hhashed
  simp only [run, hdraft] at h h'
  obtain ⟨hperform, houtcome⟩ := carryOut_eq_ok h
  obtain ⟨hperform', houtcome'⟩ := carryOut_eq_ok h'
  obtain ⟨-, place, hleft⟩ := left_of_carryOut hperform
  obtain ⟨-, place', hleft'⟩ := left_of_carryOut hperform'
  obtain ⟨f, hf, rfl⟩ := Outcome.map_eq_ok.1 houtcome
  obtain ⟨f', hf', rfl⟩ := Outcome.map_eq_ok.1 houtcome'
  cases hf.symm.trans hf'
  obtain ⟨data, hdata⟩ := Option.isSome_iff_exists.1 (hcomplete f hf).1
  rw [hdata, hf] at hleft hleft'
  exact ⟨rfl, place, place', data, draft.offsets, hleft, hleft'⟩

end Build

end FrozenTable
