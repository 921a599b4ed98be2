import FrozenTable.Build.Spool
import FrozenTable.Proofs.Lemmas.Interrupting
import FrozenTable.Proofs.Lemmas.Supporting

/-!
# A build replaces a table as a whole or not at all

A build that is refused for its settings, its values or its keys has not touched the directory, whatever stands there. From the
moment it does, no descriptor is there until all else is written, so a build that fails after that leaves nothing that opens. A
build that ends well leaves the same files whatever stood in the directory before. Nothing beside the files of a table changes.
-/

namespace FrozenTable.Build

section

variable {κ ν : Type}

/-- What keeps a build from being begun: its settings, an entry without the value that is asked for, a key that cannot be
written, or two keys with one fingerprint. -/
inductive Unfit (settings : Settings κ ν) (source : Source κ ν) : Prop where
  | flaw (h : settings.flaw ≠ none)
  | value (entry : Entry κ ν) (hentry : .ok entry ∈ source.first) (hvalues : settings.hasValues = true)
      (hnone : entry.value = none)
  | key (entry : Entry κ ν) (hentry : .ok entry ∈ source.first) (fault : Fault)
      (hfault : settings.keyBytes entry.key = .error fault)
  | duplicate (i j : Nat) (entry entry' : Entry κ ν) (hij : i < j) (hi : source.first[i]? = some (.ok entry))
      (hj : source.first[j]? = some (.ok entry')) (hsame : settings.fingerprint entry.key = settings.fingerprint entry'.key)

variable [HashLibrary] [Ord κ] [Spelled κ] [Spelled ν]

omit [Spelled κ] [Spelled ν] in
/-- A build that comes to write was fit for it. -/
theorem Hashed.not_unfit {settings : Settings κ ν} {dataSize : Option Nat} {source : Source κ ν} {scan : Scan κ}
    {hash : PerfectHash} (h : Hashed settings dataSize source scan hash) : ¬ Unfit settings source := by
  obtain ⟨entries, hentries⟩ := Scan.exists_entries_of_run h.scanned
  have hcovers : Scan.Covers settings entries scan := Scan.covers_of_run (hentries ▸ h.scanned)
  have hmem (entry : Entry κ ν) (hentry : .ok entry ∈ source.first) : entry ∈ entries := by
    rw [hentries] at hentry
    obtain ⟨found, hfound, hsame⟩ := List.mem_map.1 hentry
    cases hsame
    exact hfound
  have hget (i : Nat) (entry : Entry κ ν) (hi : source.first[i]? = some (.ok entry)) : entries[i]? = some entry := by
    rw [hentries, List.getElem?_map, Option.map_eq_some_iff] at hi
    obtain ⟨found, hfound, hsame⟩ := hi
    cases hsame
    exact hfound
  intro hunfit
  cases hunfit with
  | flaw hflaw => exact hflaw h.flaw_eq_none
  | value entry hentry hvalues hnone =>
    have hvalue := hcovers.value entry (hmem entry hentry)
    rw [Settings.needValue, hvalues, hnone] at hvalue
    cases hvalue
  | key entry hentry fault hfault =>
    obtain ⟨i, hi⟩ := List.mem_iff_getElem?.1 (hmem entry hentry)
    obtain ⟨hi', hprint⟩ := hcovers.fingerprint_getElem hi
    rw [Settings.fingerprint, hfault] at hprint
    cases hprint
  | duplicate i j entry entry' hij hi hj hsame =>
    obtain ⟨hi, hprint⟩ := hcovers.fingerprint_getElem (hget i entry hi)
    obtain ⟨hj, hprint'⟩ := hcovers.fingerprint_getElem (hget j entry' hj)
    rw [hprint, hprint', Except.ok.injEq] at hsame
    have hwidth := signatureWidth_le h.flaw_eq_none
    have hnodup := (PerfectHash.separates_of_build h.built hwidth).fingerprints_nodup
    exact Nat.ne_of_lt hij ((List.nodup_reverse.2 hnodup).getElem_inj_iff.1 hsame)

/-- A build that does not come to write has not touched the store. -/
theorem run_of_not_hashed {settings : Settings κ ν} {dataSize : Option Nat} {source : Source κ ν}
    (h : ∀ scan hash, ¬ Hashed settings dataSize source scan hash) (store : FileStore) (timestamp : Nat) (directory : Path) :
    ∃ fault, run store settings dataSize timestamp directory source = (store, .error fault) := by
  unfold run
  cases hplan : plan settings dataSize timestamp directory source with
  | error fault => exact ⟨fault, rfl⟩
  | ok p =>
    obtain ⟨scan, hash, hhashed, -⟩ := plan_eq_ok.1 hplan
    exact absurd hhashed (h scan hash)

/-- What an unhindered build that comes to write leaves, and how it ends. -/
theorem Hashed.run_eq {settings : Settings κ ν} {dataSize : Option Nat} {source : Source κ ν} {scan : Scan κ}
    {hash : PerfectHash} (h : Hashed settings dataSize source scan hash) :
    ∃ draft : BuildDraft κ ν, draft.Complete ∧ ∀ store timestamp directory,
      Unhindered store settings dataSize timestamp directory source →
      ∃ store' place, run store settings dataSize timestamp directory source =
          (store', draft.outcome.map (·.placed timestamp directory)) ∧
        store.Left store' directory place draft.data draft.offsets
          (draft.outcome.toOption.map fun d => (d.placed timestamp directory).encode) := by
  obtain ⟨draft, hcomplete, hdraft⟩ := exists_draft h
  refine ⟨draft, hcomplete, fun store timestamp directory hos => ?_⟩
  obtain ⟨store', hperform⟩ := hos _ (hdraft timestamp directory)
  obtain ⟨hcarried, place, hleft⟩ := left_of_carryOut hperform
  refine ⟨store', place, ?_, hleft⟩
  rw [run, hdraft]
  exact hcarried

omit [Ord κ] [Spelled κ] [Spelled ν] in
/-- Where there is no descriptor, nothing opens. -/
theorem open_of_left [DecidableEq κ] (finder : CodecFinder κ ν) {store store' : FileStore} {directory place : Path}
    {data offsets : Option Bytes} (h : store.Left store' directory place data offsets none) (opening : Opening) :
    opening.open finder store' directory = .error (.file .notFound) := by
  have hbare : store'.Bare directory place := ⟨h.leads, h.descriptor⟩
  cases opening with
  | reader maxHeap maxDataHeap resident => exact hbare.openAt_eq finder _
  | map =>
    rw [Opening.open, ResidentMap.load, hbare.openAt_eq]
    rfl

/-- Whatever stands in a directory, a build replaces the table there as a whole or not at all.

A build that is not fit to be begun leaves the store as it is. So does every other failing build that has not come to write;
one that has leaves no descriptor, and nothing opens. A build that ends well leaves data, offsets where the descriptor asks for
them, and the descriptor, each locked, and the same build in any other place leaves the same but for its time and its paths. In
all cases nothing changes outside of the names of the table but for directories on the way to it (`FileStore.Left`). A build
from entries that can be passed over only once has not touched the store either before it becomes such a build. -/
theorem replaces_as_whole_or_not [DecidableEq κ] (finder : CodecFinder κ ν) {store : FileStore} {settings : Settings κ ν}
    {dataSize : Option Nat} {timestamp : Nat} {directory : Path} {source : Source κ ν}
    (hos : Unhindered store settings dataSize timestamp directory source) :
    (Unfit settings source → ∃ fault, run store settings dataSize timestamp directory source = (store, .error fault)) ∧
    (∀ store' fault, run store settings dataSize timestamp directory source = (store', .error fault) →
      (store' = store ∧ ∀ scan hash, ¬ Hashed settings dataSize source scan hash) ∨
      (∃ place data offsets, store.Left store' directory place data offsets none) ∧
        ∀ opening : Opening, opening.open finder store' directory = .error (.file .notFound)) ∧
    (∀ store' d, run store settings dataSize timestamp directory source = (store', .ok d) →
      ∃ place data offsets, store.Left store' directory place (some data) offsets (some d.encode) ∧
        offsets.isSome = d.needsOffsetsFile ∧
        ∀ other timestamp' directory', Unhindered other settings dataSize timestamp' directory' source →
          ∃ other' place', run other settings dataSize timestamp' directory' source =
              (other', .ok (d.placed timestamp' directory')) ∧
            FileStore.Left other other' directory' place' (some data) offsets
              (some { d with timestamp := timestamp' }.encode)) ∧
    ∀ temporary entries,
      (∃ fault, runOnce store settings timestamp temporary directory entries = (store, .error fault)) ∨
      ∃ spool, Build.spool store settings temporary entries = .ok spool ∧
        runOnce store settings timestamp temporary directory entries =
          run store settings (some spool.dataSize) timestamp directory (spool.source settings) := by
  refine ⟨fun hunfit => ?_, fun store' fault hrun => ?_, fun store' d hrun => ?_, fun temporary entries => ?_⟩
  · exact run_of_not_hashed (fun scan hash hhashed => hhashed.not_unfit hunfit) store timestamp directory
  · by_cases hhashed : ∃ scan hash, Hashed settings dataSize source scan hash
    · obtain ⟨scan, hash, hhashed⟩ := hhashed
      obtain ⟨draft, -, hdraft⟩ := hhashed.run_eq
      obtain ⟨left, place, hleft, hfiles⟩ := hdraft store timestamp directory hos
      rw [hleft, Prod.mk.injEq] at hrun
      obtain ⟨rfl, houtcome⟩ := hrun
      cases hfault : draft.outcome with
      | ok d =>
        rw [hfault] at houtcome
        exact nomatch houtcome
      | error fault' =>
        rw [hfault] at hfiles
        exact .inr ⟨⟨place, draft.data, draft.offsets, hfiles⟩, open_of_left finder hfiles⟩
    · simp only [not_exists] at hhashed
      obtain ⟨fault', hrefused⟩ := run_of_not_hashed hhashed store timestamp directory
      rw [hrefused, Prod.mk.injEq] at hrun
      exact .inl ⟨hrun.1.symm, hhashed⟩
  · obtain ⟨scan, hash, hhashed⟩ : ∃ scan hash, Hashed settings dataSize source scan hash := by
      by_contra hnone
      simp only [not_exists] at hnone
      obtain ⟨fault, hrefused⟩ := run_of_not_hashed hnone store timestamp directory
      rw [hrefused, Prod.mk.injEq] at hrun
      exact nomatch hrun.2
    obtain ⟨draft, hcomplete, hdraft⟩ := hhashed.run_eq
    obtain ⟨left, place, hleft, hfiles⟩ := hdraft store timestamp directory hos
    rw [hleft, Prod.mk.injEq] at hrun
    obtain ⟨rfl, houtcome⟩ := hrun
    obtain ⟨e, he, rfl⟩ := Outcome.map_eq_ok.1 houtcome
    obtain ⟨hdata, hoffsets⟩ := hcomplete e he
    obtain ⟨data, hdata⟩ := Option.isSome_iff_exists.1 hdata
    rw [he, hdata] at hfiles
    refine ⟨place, data, draft.offsets, hfiles, hoffsets, fun other timestamp' directory' hos' => ?_⟩
    obtain ⟨other', place', hrun', hfiles'⟩ := hdraft other timestamp' directory' hos'
    rw [he, hdata] at hfiles'
    rw [he] at hrun'
    exact ⟨other', place', hrun', hfiles'⟩
  · unfold runOnce
    cases hspool : Build.spool store settings temporary entries with
    | error fault => exact .inl ⟨fault, rfl⟩
    | ok spool => exact .inr ⟨spool, rfl, rfl⟩

end

/-- A table of one entry with plain offsets in a file makes way for one that needs no such file: the old file is gone, and the
new files are those that stand where there was no table. -/
theorem replaces_single : ∃ before after fresh d e, single .explicit .indexed = (before, .ok d) ∧
    single .explicit .fixed = (fresh, .ok e) ∧
    @run _ _ .single _ _ _ before (.longs .explicit .fixed) none 0 ["work", "table"] (.ofEntries [⟨7, some 5⟩]) =
      (after, .ok e) ∧
    (before.find? ["work", "table", TablePaths.offsetsName]).isSome = true ∧
    after.find? ["work", "table", TablePaths.offsetsName] = none ∧
    ∀ name ∈ TablePaths.names, after.find? ["work", "table", name] = fresh.find? ["work", "table", name] := by
  let _ : HashLibrary := .single
  obtain ⟨before, d, hbefore, -⟩ := single_eq_ok .explicit .indexed
  obtain ⟨fresh, e, hfresh, -⟩ := single_eq_ok .explicit .fixed
  have haccepts : (FileStore.rooted ["work"]).Accepts ["work", "table"] := by decide +kernel
  have haccepts' : before.Accepts ["work", "table"] := by
    have hagain : (single .explicit .indexed).1.Accepts ["work", "table"] := by decide +kernel
    rwa [hbefore] at hagain
  have hplain : ∀ name ∈ ["work", "table"], FileStore.Plain name := by
    unfold FileStore.Plain
    decide
  have hplace {store : FileStore} {place : Path} (hleads : store.Leads ["work", "table"] place) : place = ["work", "table"] :=
    FileStore.walk_plain hplain hleads.locate
  have hunhindered := unhindered_of_accepts haccepts (.longs .explicit .fixed) none 0 (.ofEntries [⟨7, some 5⟩])
  obtain ⟨-, -, hreplaces, -⟩ := replaces_as_whole_or_not .longs hunhindered
  obtain ⟨place, data, offsets, hleft, hoffsets, hagain⟩ := hreplaces fresh e hfresh
  obtain ⟨after, place', hafter, hleft'⟩ := hagain before 0 ["work", "table"] (unhindered_of_accepts haccepts' _ _ _ _)
  obtain ⟨same, _, hsame, -⟩ := hagain (.rooted ["work"]) 0 ["work", "table"] hunhindered
  have hplaced : e.placed 0 ["work", "table"] = e :=
    Except.ok.inj (Prod.mk.inj (hsame.symm.trans hfresh)).2
  have htime : { e with timestamp := 0 }.encode = e.encode := by
    have hencode : { e with timestamp := 0 }.encode = (e.placed 0 ["work", "table"]).encode := rfl
    rw [hencode, hplaced]
  have hneeds : e.needsOffsetsFile = false := by
    have hall : (single .explicit .fixed).2.toOption.all (·.needsOffsetsFile == false) = true := by decide +kernel
    rw [hfresh] at hall
    exact beq_iff_eq.1 hall
  have hold : (before.find? ["work", "table", TablePaths.offsetsName]).isSome = true := by
    have hall : ((single .explicit .indexed).1.find? ["work", "table", TablePaths.offsetsName]).isSome = true := by
      decide +kernel
    rwa [hbefore] at hall
  rw [hneeds, Option.isSome_eq_false_iff, Option.isNone_iff_eq_none] at hoffsets
  subst hoffsets
  cases hplace hleft.leads
  cases hplace hleft'.leads
  rw [hplaced] at hafter
  rw [htime] at hleft'
  refine ⟨before, after, fresh, d, e, hbefore, hfresh, hafter, hold, hleft'.offsets, ?_⟩
  simp only [TablePaths.names, List.forall_mem_cons, List.not_mem_nil, false_implies, implies_true, and_true]
  exact ⟨hleft'.descriptor.trans hleft.descriptor.symm, hleft'.data.trans hleft.data.symm,
    hleft'.offsets.trans hleft.offsets.symm⟩

end FrozenTable.Build
