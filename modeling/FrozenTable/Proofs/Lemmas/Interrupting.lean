import FrozenTable.Proofs.Lemmas.Drafting
import FrozenTable.Proofs.Lemmas.Opening

/-!
# Builds that stop midway

A build stops between two of its operations, or while it puts bytes into a file (`Interrupted`). Before it takes the old
descriptor away it has made directories only, and what opened before opens alike (`FileStore.Retains`). From then until the new
descriptor gets its name all its operations are about other files of the directory (`FileOperation.Beside`), and the directory
has no descriptor (`FileStore.Bare`), whichever of them have been performed and whether one of them has failed.
-/

namespace FrozenTable

/-! ## What of some operations has been performed -/

/-- What of some operations has been performed when they are stopped: the first few, and part of the bytes of the next one, if
it puts bytes into a file. -/
inductive Interrupted : List FileOperation → List FileOperation → Prop where
  | here (operations : List FileOperation) : Interrupted operations []
  | within (path : Path) (bytes : Bytes) (count : Nat) (operations : List FileOperation) :
    Interrupted (.append path bytes :: operations) [.append path (bytes.take count)]
  | later (operation : FileOperation) {operations started : List FileOperation} (h : Interrupted operations started) :
    Interrupted (operation :: operations) (operation :: started)

/-- Operations may be stopped behind any number of them. -/
theorem interrupted_take (count : Nat) (operations : List FileOperation) : Interrupted operations (operations.take count) := by
  induction operations generalizing count with
  | nil =>
    rw [List.take_nil]
    exact .here []
  | cons operation operations ih =>
    cases count with
    | zero => exact .here _
    | succ count => exact .later operation (ih count)

/-- Operations that come to an end are a case of it. -/
theorem interrupted_refl (operations : List FileOperation) : Interrupted operations operations := by
  have htake := interrupted_take operations.length operations
  rwa [List.take_length] at htake

/-- Operations are stopped among the first of them or among those behind. -/
theorem Interrupted.split {first second started : List FileOperation} (h : Interrupted (first ++ second) started) :
    Interrupted first started ∨ ∃ more, started = first ++ more ∧ Interrupted second more := by
  induction first generalizing started with
  | nil => exact .inr ⟨started, rfl, h⟩
  | cons operation first ih =>
    cases h with
    | here => exact .inl (.here _)
    | within path bytes count => exact .inl (.within path bytes count first)
    | later _ hrest =>
      rcases ih hrest with hfirst | ⟨more, hstarted, hsecond⟩
      · exact .inl (.later operation hfirst)
      · exact .inr ⟨more, by rw [hstarted]; rfl, hsecond⟩

namespace FileStore

variable {store store' : FileStore} {directory place : Path}

/-- Operations behind others are performed where those have ended well. -/
theorem performAll_append_eq (store : FileStore) (first second : List FileOperation) :
    store.performAll (first ++ second) =
      match store.performAll first with
      | (between, .ok ()) => between.performAll second
      | failed => failed := by
  induction first generalizing store with
  | nil => rfl
  | cons operation first ih =>
    rw [List.cons_append, performAll, performAll]
    cases store.perform operation with
    | ok next => exact ih next
    | error fault => rfl

/-! ## Stores that show the same -/

end FileStore

/-- What stands at a place, whether it is locked or not. -/
def FileNode.unlocked : FileNode → FileNode
  | .directory => .directory
  | .file bytes _ => .file bytes false

namespace FileStore

variable {store store' : FileStore} {directory place : Path}

/-- Whatever a path leads to in one store, it leads to the same in the other, which may be locked there and not here. -/
def Retains (store store' : FileStore) : Prop :=
  ∀ path place node, store.resolve path = .ok (place, node) →
    ∃ node', store'.resolve path = .ok (place, node') ∧ node'.unlocked = node.unlocked

/-- A store retains what it has. -/
theorem retains_refl (store : FileStore) : store.Retains store :=
  fun _ _ node hresolve => ⟨node, hresolve, rfl⟩

/-- What a path leads to is what stands at its place. -/
theorem resolve_eq_ok {path : Path} {node : FileNode} :
    store.resolve path = .ok (place, node) ↔ store.locate path = .ok place ∧ store.find? place = some node := by
  simp only [resolve, Outcome.bind_eq_ok]
  constructor
  · rintro ⟨located, hlocate, hnode⟩
    split at hnode
    · rename_i hfind
      cases hnode
      exact ⟨hlocate, hfind⟩
    · cases hnode
  · rintro ⟨hlocate, hfind⟩
    refine ⟨place, hlocate, ?_⟩
    rw [hfind]
    rfl

/-- The path of a directory leads to one. -/
theorem isDirectory_iff {path : Path} :
    store.isDirectory path = true ↔ ∃ place, store.resolve path = .ok (place, .directory) := by
  unfold isDirectory
  constructor
  · intro h
    split at h
    · rename_i place hresolve
      exact ⟨place, hresolve⟩
    · cases h
  · rintro ⟨place, hresolve⟩
    rw [hresolve]

/-- A store retains what stands in another one if it stands in the same places. -/
theorem retains_of_find (h : ∀ p node, store.find? p = some node →
    ∃ node', store'.find? p = some node' ∧ node'.unlocked = node.unlocked) : store.Retains store' := by
  have hkeeps : store.Keeps store' := by
    intro p hopen
    obtain ⟨node', hfind, hsame⟩ := h p _ (hopen p (List.prefix_refl _))
    cases node' with
    | directory => exact hfind
    | file bytes locked => exact nomatch hsame
  intro path place node hresolve
  obtain ⟨hlocate, hfind⟩ := resolve_eq_ok.1 hresolve
  obtain ⟨node', hfind', hsame⟩ := h place node hfind
  exact ⟨node', resolve_eq_ok.2 ⟨locate_of_keeps hkeeps hlocate, hfind'⟩, hsame⟩

/-- What stood in a store is retained when directories are added. -/
theorem Grows.retains {path : Path} (h : store.Grows store' path) : store.Retains store' := by
  refine retains_of_find fun p node hfind => ⟨node, ?_, rfl⟩
  rcases h p with hsame | hnew
  · rw [hsame, hfind]
  · exact nomatch hfind.symm.trans hnew.before

/-- Locking a file changes nothing that is shown. -/
theorem retains_of_lock {path : Path} (h : store.perform (.lock path) = .ok store') :
    store.Retains store' ∧ store'.Retains store := by
  simp only [perform, lift, Outcome.mapError_eq_ok, lock, Outcome.bind_eq_ok] at h
  obtain ⟨⟨target, node⟩, hresolve, h⟩ := h
  obtain ⟨-, hfind⟩ := resolve_eq_ok.1 hresolve
  cases node with
  | directory =>
    cases h
    exact ⟨retains_refl store, retains_refl store⟩
  | file bytes locked =>
    cases h
    have htarget : target ≠ [] := by
      rintro rfl
      cases hfind
    have hput := store.find?_put (.file bytes true) htarget
    refine ⟨retains_of_find fun p node hnode => ?_, retains_of_find fun p node hnode => ?_⟩
    · by_cases hp : p = target
      · subst hp
        rw [hfind, Option.some.injEq] at hnode
        exact ⟨_, hput, by rw [← hnode]; rfl⟩
      · exact ⟨node, (store.find?_put_of_ne _ hp).trans hnode, rfl⟩
    · by_cases hp : p = target
      · subst hp
        rw [hput, Option.some.injEq] at hnode
        exact ⟨_, hfind, by rw [← hnode]; rfl⟩
      · exact ⟨node, (store.find?_put_of_ne _ hp).symm.trans hnode, rfl⟩

namespace Retains

/-- A file is read as before where everything is retained. -/
theorem read_eq (h : store.Retains store') {path : Path} {bytes : Bytes} (hread : store.read path = .ok bytes) :
    store'.read path = .ok bytes := by
  simp only [read, Outcome.bind_eq_ok] at hread ⊢
  obtain ⟨⟨place, node⟩, hresolve, hbytes⟩ := hread
  obtain ⟨node', hresolve', hsame⟩ := h _ _ _ hresolve
  refine ⟨(place, node'), hresolve', ?_⟩
  cases node with
  | directory => cases hbytes
  | file content locked =>
    cases node' with
    | directory => cases hsame
    | file content' locked' =>
      cases hsame
      exact hbytes

/-- A file is as large as before where everything is retained. -/
theorem sizeAt_eq (h : store.Retains store') {path : Path} {size : Nat} (hsize : store.sizeAt path = .ok size) :
    store'.sizeAt path = .ok size := by
  simp only [sizeAt, Outcome.bind_eq_ok] at hsize ⊢
  obtain ⟨⟨place, node⟩, hresolve, hsize⟩ := hsize
  obtain ⟨node', hresolve', hsame⟩ := h _ _ _ hresolve
  refine ⟨(place, node'), hresolve', ?_⟩
  cases node <;> cases node' <;> cases hsame <;> exact hsize

/-- A file is opened as before where everything is retained. -/
theorem openFile_eq (h : store.Retains store') {path : Path} {heap : Bool} {region : Region}
    (hopen : Region.openFile store path heap = .ok region) : Region.openFile store' path heap = .ok region := by
  simp only [Region.openFile, Outcome.bind_eq_ok] at hopen ⊢
  obtain ⟨⟨place, node⟩, hresolve, hopen⟩ := hopen
  obtain ⟨node', hresolve', hsame⟩ := h _ _ _ hresolve
  refine ⟨(place, node'), hresolve', ?_⟩
  cases node <;> cases node' <;> cases hsame <;> exact hopen

/-- The files of a table whose descriptor is there are named alike. -/
theorem locate_eq (h : store.Retains store') {path : Path} {offsets data : Option Path} {bytes : Bytes}
    (hread : store.read (TablePaths.locate store path offsets data).descriptor = .ok bytes) :
    TablePaths.locate store' path offsets data = TablePaths.locate store path offsets data := by
  have hsame : store'.isDirectory path = store.isDirectory path := by
    cases hdir : store.isDirectory path with
    | true =>
      obtain ⟨place, hresolve⟩ := isDirectory_iff.1 hdir
      obtain ⟨node', hresolve', hnode⟩ := h _ _ _ hresolve
      cases node' with
      | directory => exact isDirectory_iff.2 ⟨place, hresolve'⟩
      | file bytes locked => cases hnode
    | false =>
      -- the path is that of the descriptor itself
      have hfile : store.read path = .ok bytes := by
        rwa [TablePaths.locate, hdir] at hread
      rw [Bool.eq_false_iff]
      intro hdir'
      obtain ⟨place, hresolve⟩ := isDirectory_iff.1 hdir'
      have hread' := h.read_eq hfile
      rw [read, hresolve] at hread'
      cases hread'
  rw [TablePaths.locate, TablePaths.locate, hsame]

variable {κ ν : Type} [HashLibrary] {finder : CodecFinder κ ν}

/-- A descriptor is loaded as before where everything is retained. -/
theorem load_eq (h : store.Retains store') {path : Path} {offsets data : Option Path} {d : Descriptor κ ν}
    (hload : Descriptor.load finder store path offsets data = .ok d) :
    Descriptor.load finder store' path offsets data = .ok d := by
  simp only [Descriptor.load, Outcome.bind_eq_ok, lift, Outcome.mapError_eq_ok] at hload ⊢
  obtain ⟨bytes, hread, hdecode⟩ := hload
  rw [h.locate_eq hread]
  exact ⟨bytes, h.read_eq hread, hdecode⟩

/-- What opens in a store opens alike in one that retains what stands there. -/
theorem openAt_eq [DecidableEq κ] (h : store.Retains store') {path : Path} {options : OpenOptions κ ν} {t : Table κ ν}
    (hopen : Table.openAt finder store path options = .ok t) : Table.openAt finder store' path options = .ok t := by
  have hlift {α : Type} {x : Except FileFault α} {a : α} : lift x = .ok a ↔ x = .ok a := Outcome.mapError_eq_ok
  simp only [Table.openAt, Outcome.bind_eq_ok] at hopen ⊢
  obtain ⟨d, hload, hopen⟩ := hopen
  refine ⟨d, h.load_eq hload, ?_⟩
  by_cases hneeds : d.needsOffsetsFile = true
  · simp only [hneeds, if_true, Outcome.bind_eq_ok, hlift] at hopen ⊢
    obtain ⟨length, hlength, offsets, hoffsets, kept, hkept, size, hsize, data, hdata, hassemble⟩ := hopen
    exact ⟨length, h.sizeAt_eq hlength, offsets, h.openFile_eq hoffsets, kept, hkept, size, h.sizeAt_eq hsize, data,
      h.openFile_eq hdata, hassemble⟩
  · simp only [hneeds, Bool.false_eq_true, if_false, Outcome.bind_eq_ok, hlift] at hopen ⊢
    obtain ⟨kept, hkept, size, hsize, data, hdata, hassemble⟩ := hopen
    exact ⟨kept, hkept, size, h.sizeAt_eq hsize, data, h.openFile_eq hdata, hassemble⟩

end Retains

end FileStore

/-! ## Directories without a descriptor -/

/-- An operation on a file in a directory, which is not the descriptor there. -/
inductive FileOperation.Beside (directory : Path) : FileOperation → Prop where
  | discard {name : String} (hname : FileStore.Plain name) (hne : name ≠ TablePaths.descriptorName) :
    Beside directory (.discard (directory.child name))
  | create {name : String} (hname : FileStore.Plain name) (hne : name ≠ TablePaths.descriptorName) :
    Beside directory (.create (directory.child name))
  | append {name : String} (hname : FileStore.Plain name) (hne : name ≠ TablePaths.descriptorName) (bytes : Bytes) :
    Beside directory (.append (directory.child name) bytes)
  | lock {name : String} (hname : FileStore.Plain name) (hne : name ≠ TablePaths.descriptorName) :
    Beside directory (.lock (directory.child name))

namespace FileStore

variable {store store' : FileStore} {directory place : Path}

/-- A directory in which no descriptor stands. -/
structure Bare (store : FileStore) (directory place : Path) : Prop where
  leads : store.Leads directory place
  descriptor : store.find? (place ++ [TablePaths.descriptorName]) = none

namespace Bare

/-- Other files may be written where no descriptor stands. -/
theorem of_writes (h : store.Bare directory place) {name : String} (hne : name ≠ TablePaths.descriptorName) {bytes : Bytes}
    (hwrites : Writes store store' (place ++ [name]) bytes) : store'.Bare directory place :=
  ⟨h.leads.keeps hwrites.keeps, (hwrites.others _ (concat_ne hne.symm)).trans h.descriptor⟩

/-- What is done to the other files of a directory brings no descriptor. -/
theorem perform (h : store.Bare directory place) {operation : FileOperation} (hbeside : operation.Beside directory)
    (hperform : store.perform operation = .ok store') : store'.Bare directory place := by
  have hfile {name : String} (hname : Plain name) {target : Path} {node : FileNode}
      (hresolve : store.resolve (directory.child name) = .ok (target, node)) :
      target = place ++ [name] ∧ store.find? (place ++ [name]) = some node := by
    obtain ⟨hlocate, hfind⟩ := resolve_eq_ok.1 hresolve
    cases hlocate.symm.trans (h.leads.locate_child hname)
    exact ⟨rfl, hfind⟩
  cases hbeside with
  | discard hname hne =>
    have hdiscards := discard_child hname h.leads hperform
    exact ⟨h.leads.keeps hdiscards.keeps, (hdiscards.others _ (concat_ne hne.symm)).trans h.descriptor⟩
  | create hname hne =>
    rw [FileStore.perform, lift, Outcome.mapError_eq_ok] at hperform
    obtain ⟨place', hleads, hwrites⟩ := create_child hname hperform
    cases FilingAux.leads_unique h.leads hleads
    exact h.of_writes hne hwrites
  | append hname hne bytes =>
    rw [FileStore.perform, lift, Outcome.mapError_eq_ok] at hperform
    obtain ⟨⟨target, node⟩, hresolve, happend⟩ := Outcome.bind_eq_ok.1 hperform
    obtain ⟨rfl, hfind⟩ := hfile hname hresolve
    cases node with
    | directory => cases happend
    | file old locked => exact h.of_writes hne (append_child hname h.leads ⟨locked, hfind⟩ hperform)
  | lock hname hne =>
    rw [FileStore.perform, lift, Outcome.mapError_eq_ok] at hperform
    obtain ⟨⟨target, node⟩, hresolve, hlock⟩ := Outcome.bind_eq_ok.1 hperform
    obtain ⟨rfl, hfind⟩ := hfile hname hresolve
    cases node with
    | directory =>
      cases hlock
      exact h
    | file bytes locked => exact h.of_writes hne (lock_child hname h.leads ⟨locked, hfind⟩ hperform)

/-- Nor does any number of such operations, even if one of them fails. -/
theorem performAll {operations : List FileOperation} (h : store.Bare directory place)
    (hbeside : ∀ operation ∈ operations, operation.Beside directory) :
    (store.performAll operations).1.Bare directory place := by
  induction operations generalizing store with
  | nil => exact h
  | cons operation operations ih =>
    rw [FileStore.performAll]
    cases hperform : store.perform operation with
    | error fault => exact h
    | ok next =>
      exact ih (h.perform (hbeside _ List.mem_cons_self) hperform) fun other hother =>
        hbeside other (List.mem_cons_of_mem _ hother)

/-- Without a descriptor none is read. -/
theorem read_eq (h : store.Bare directory place) : store.read (directory.child TablePaths.descriptorName) = .error .notFound := by
  have hnone : store.find? (place ++ [TablePaths.descriptorName]) = (none : Option Bytes).map (.file · false) :=
    h.descriptor
  exact h.leads.read_child_eq plain_descriptorName hnone

/-- Nothing opens where there is no descriptor. -/
theorem openAt_eq {κ ν : Type} [HashLibrary] [DecidableEq κ] (h : store.Bare directory place) (finder : CodecFinder κ ν)
    (options : OpenOptions κ ν) : Table.openAt finder store directory options = .error (.file .notFound) := by
  have hpath : (TablePaths.locate store directory options.offsets options.data).descriptor =
      directory.child TablePaths.descriptorName := by
    rw [TablePaths.locate, h.leads.isDirectory_eq]
    rfl
  have hload : Descriptor.load finder store directory options.offsets options.data = .error (.file .notFound) := by
    simp only [Descriptor.load, hpath, h.read_eq]
    rfl
  rw [Table.openAt, hload]
  rfl

end Bare

end FileStore

/-- A part of operations on the other files of a directory consists of such operations. -/
theorem Interrupted.beside {directory : Path} {operations started : List FileOperation} (h : Interrupted operations started)
    (hbeside : ∀ operation ∈ operations, operation.Beside directory) : ∀ operation ∈ started, operation.Beside directory := by
  induction h with
  | here => exact nofun
  | within path bytes count operations =>
    rw [List.forall_mem_singleton]
    have happend := hbeside _ List.mem_cons_self
    generalize hoperation : FileOperation.append path bytes = operation at happend
    cases happend with
    | append hname hne bytes' =>
      cases hoperation
      exact .append hname hne _
    | discard | create | lock => cases hoperation
  | later operation _ ih =>
    rw [List.forall_mem_cons] at hbeside ⊢
    exact ⟨hbeside.1, ih hbeside.2⟩

/-! ## The operations of a build -/

namespace FileStore

variable {directory : Path}

/-- Writing another file of the table is beside its descriptor. -/
theorem beside_writing {name : String} (hname : Plain name) (hne : name ≠ TablePaths.descriptorName) (bytes : Option Bytes) :
    ∀ operation ∈ (bytes.map (Build.writing (directory.child name))).getD [], operation.Beside directory := by
  cases bytes with
  | none => exact nofun
  | some bytes =>
    simp only [Option.map_some, Option.getD_some, Build.writing, List.forall_mem_cons, List.not_mem_nil, false_implies,
      implies_true, and_true]
    exact ⟨.create hname hne, .append hname hne bytes, .lock hname hne⟩

/-- Up to the new descriptor, what comes after the old one has gone is about other files. -/
theorem exists_beside_filling (directory : Path) (data offsets : Option Bytes) :
    ∃ beside, filling directory data offsets =
      .ensureDirectory directory :: .discard (directory.child TablePaths.descriptorName) :: beside ∧
      ∀ operation ∈ beside, operation.Beside directory := by
  refine ⟨.discard (directory.child TablePaths.dataName) :: .discard (directory.child TablePaths.offsetsName) ::
    ((data.map (Build.writing (directory.child TablePaths.dataName))).getD [] ++
      (offsets.map (Build.writing (directory.child TablePaths.offsetsName))).getD []), ?_, ?_⟩
  · rw [filling, List.append_assoc]
    rfl
  · rw [List.forall_mem_cons, List.forall_mem_cons, List.forall_mem_append]
    exact ⟨.discard plain_dataName (by decide), .discard plain_offsetsName (by decide),
      beside_writing plain_dataName (by decide) data, beside_writing plain_offsetsName (by decide) offsets⟩

/-- A build that stops before it comes to its descriptor has made directories only, or left none. -/
theorem grows_or_bare_of_interrupted (store : FileStore) {data offsets : Option Bytes} {started : List FileOperation}
    (h : Interrupted (filling directory data offsets) started) :
    store.Grows (store.performAll started).1 directory ∨ ∃ place, (store.performAll started).1.Bare directory place := by
  obtain ⟨beside, hfilling, hbeside⟩ := exists_beside_filling directory data offsets
  rw [hfilling] at h
  cases h with
  | here => exact .inl (grows_refl store directory)
  | later _ h =>
    rw [performAll]
    cases hensure : store.perform (.ensureDirectory directory) with
    | error fault => exact .inl (grows_refl store directory)
    | ok made =>
      obtain ⟨hgrows, place, hleads⟩ := ensure_eq_ok hensure
      cases h with
      | here => exact .inl hgrows
      | later _ h =>
        dsimp only
        rw [performAll]
        cases hdiscard : made.perform (.discard (directory.child TablePaths.descriptorName)) with
        | error fault => exact .inl hgrows
        | ok cleared =>
          have hdiscards := discard_child plain_descriptorName hleads hdiscard
          have hbare : cleared.Bare directory place := ⟨hleads.keeps hdiscards.keeps, hdiscards.after⟩
          exact .inr ⟨place, hbare.performAll (h.beside hbeside)⟩

/-- Storing a descriptor, wherever it stops, has brought none, or the one that is there in the end. -/
theorem Bare.interrupted_storing {κ ν : Type} {store : FileStore} {place : Path} (h : store.Bare directory place)
    {d : Descriptor κ ν} (hpath : d.paths.descriptor = directory.child TablePaths.descriptorName) {started : List FileOperation}
    (hstarted : Interrupted d.storing started) :
    (store.performAll started).1.Bare directory place ∨
      ∃ final, store.performAll d.storing = (final, .ok ()) ∧ (store.performAll started).1.Retains final ∧
        final.Retains (store.performAll started).1 := by
  have hstoring : d.storing = [.create (directory.child stagedName), .append (directory.child stagedName) d.encode] ++
      [.rename (directory.child stagedName) (directory.child TablePaths.descriptorName),
        .lock (directory.child TablePaths.descriptorName)] := by
    rw [Descriptor.storing, hpath, staged_child]
    rfl
  rw [hstoring] at hstarted ⊢
  have hbeside : ∀ operation ∈ ([.create (directory.child stagedName), .append (directory.child stagedName) d.encode] :
      List FileOperation), operation.Beside directory := by
    simp only [List.forall_mem_cons, List.not_mem_nil, false_implies, implies_true, and_true]
    exact ⟨.create plain_stagedName (by decide), .append plain_stagedName (by decide) _⟩
  rcases hstarted.split with hfront | ⟨more, rfl, hmore⟩
  · exact .inl (h.performAll (hfront.beside hbeside))
  have hbare := h.performAll hbeside
  rw [performAll_append_eq, performAll_append_eq]
  cases hwritten : store.performAll [.create (directory.child stagedName), .append (directory.child stagedName) d.encode] with
  | mk written result =>
    rw [hwritten] at hbare
    cases result with
    | error fault => exact .inl hbare
    | ok =>
      dsimp only
      cases hmore with
      | here => exact .inl hbare
      | later _ hmore =>
        rw [FileStore.performAll, FileStore.performAll]
        cases hrename : written.perform
            (.rename (directory.child stagedName) (directory.child TablePaths.descriptorName)) with
        | error fault => exact .inl hbare
        | ok renamed =>
          right
          obtain ⟨place', between, hleads', hwrites, hdone⟩ := performAll_creating plain_stagedName hwritten
          cases hdone
          rw [FileStore.perform, lift, Outcome.mapError_eq_ok] at hrename
          obtain ⟨hkeeps, ⟨locked, hfile⟩, -⟩ := rename_child plain_stagedName plain_descriptorName (by decide)
            (hleads'.keeps hwrites.keeps) hwrites.after hrename
          obtain ⟨final, hlock, -⟩ :=
            perform_lock_eq plain_descriptorName ((hleads'.keeps hwrites.keeps).keeps hkeeps) hfile
          obtain ⟨hretains, hretains'⟩ := retains_of_lock hlock
          refine ⟨final, performAll_cons_ok hlock, ?_⟩
          dsimp only
          cases hmore with
          | here => exact ⟨hretains, hretains'⟩
          | later _ hmore =>
            cases hmore
            rw [performAll_cons_ok hlock]
            exact ⟨retains_refl final, retains_refl final⟩

end FileStore

end FrozenTable
