import FrozenTable.Proofs.Lemmas.Filing

/-!
# A directory is cleared, then filled

What a build does to the outside world, place by place. Making the directory ready adds directories on the way to it and takes
the files of an earlier table away (`FileStore.Cleared`); nothing stands in the way of the new files then, so writing them
cannot fail. Whatever part of its operations a build comes to, `FileStore.Left` says what stands at the names of the table
afterwards and that everything outside of these names is as it was.
-/

namespace FrozenTable

namespace Path

/-- A path without names at its end is a front of the path. -/
theorem front_dropEnd (drop : String → Bool) (path : Path) : dropEnd drop path <+: path := by
  rw [dropEnd, ← List.reverse_suffix, List.reverse_reverse]
  exact List.dropWhile_suffix drop

/-- The directory around a path is on the path. -/
theorem front_outer (path : Path) : outer path <+: path := by
  have hdropped := (List.dropLast_prefix (dropEnd stays path)).trans (front_dropEnd stays path)
  exact (front_dropEnd stays _).trans hdropped

/-- The paths around a path are its fronts. -/
theorem prefix_of_mem_ancestors {path front : Path} (h : front ∈ ancestors path) : front <+: path := by
  suffices key : ∀ (count : Nat) (path : Path), ∀ front ∈ outward count path, front <+: path by
    exact key path.length path front h
  intro count
  induction count with
  | zero =>
    intro path front hfront
    exact nomatch hfront
  | succ count ih =>
    intro path front hfront
    rw [outward] at hfront
    split at hfront
    · exact nomatch hfront
    rcases List.mem_cons.1 hfront with rfl | hfront
    · exact List.prefix_refl _
    · exact (ih _ _ hfront).trans (front_outer path)

/-- A path is a front of it and names that pass the test. -/
theorem exists_dropEnd_append (drop : String → Bool) (path : Path) :
    ∃ tail, path = dropEnd drop path ++ tail ∧ ∀ name ∈ tail, drop name = true := by
  refine ⟨(path.reverse.takeWhile drop).reverse, ?_, ?_⟩
  · rw [dropEnd, ← List.reverse_append, List.takeWhile_append_dropWhile, List.reverse_reverse]
  · intro name hname
    exact List.mem_takeWhile_imp (List.mem_reverse.1 hname)

end Path

namespace FileStore

variable {store store' store'' : FileStore} {directory : Path}

/-! ## Directories on the way -/

/-- A directory that is new in a store and lies on the way of a path. -/
structure NewDirectory (store store' : FileStore) (path place : Path) : Prop where
  before : store.find? place = none
  after : store'.find? place = some .directory
  onWay : ∃ front, front <+: path ∧ store'.locate front = .ok place

/-- Nothing has changed but for new directories on the way of a path. -/
def Grows (store store' : FileStore) (path : Path) : Prop :=
  ∀ p, store'.find? p = store.find? p ∨ NewDirectory store store' path p

/-- A store that stays as it is has grown by nothing. -/
theorem grows_refl (store : FileStore) (path : Path) : store.Grows store path :=
  fun _ => .inl rfl

/-- New directories leave all others. -/
theorem Grows.keeps {path : Path} (h : store.Grows store' path) : store.Keeps store' := by
  intro place hopen
  have hdir := hopen place (List.prefix_refl _)
  rcases h place with hsame | hnew
  · rw [hsame, hdir]
  · exact hnew.after

/-- A path still leads where it led when directories are added. -/
theorem locate_of_keeps {path place : Path} (hkeeps : store.Keeps store') (h : store.locate path = .ok place) :
    store'.locate path = .ok place :=
  (walk_of_keeps hkeeps store.reached_nil h).2

/-- A new directory is one as long as directories are kept. -/
theorem NewDirectory.of_keeps {path place : Path} (h : NewDirectory store store' path place) (hkeeps : store'.Keeps store'')
    (hafter : store''.find? place = some .directory) : NewDirectory store store'' path place := by
  obtain ⟨front, hfront, hlocate⟩ := h.onWay
  exact ⟨h.before, hafter, front, hfront, locate_of_keeps hkeeps hlocate⟩

/-- Growing twice is growing. -/
theorem Grows.trans {path : Path} (h : store.Grows store' path) (h' : store'.Grows store'' path) :
    store.Grows store'' path := by
  intro p
  rcases h p with hsame | hnew <;> rcases h' p with hsame' | hnew'
  · exact .inl (hsame'.trans hsame)
  · exact .inr ⟨hsame ▸ hnew'.before, hnew'.after, hnew'.onWay⟩
  · exact .inr (hnew.of_keeps h'.keeps (hsame'.trans hnew.after))
  · exact nomatch hnew.after.symm.trans hnew'.before

/-- Names that stay in a directory lead nowhere else. -/
theorem walk_stays {place names : Path} (hdir : store.find? place = some .directory)
    (h : ∀ name ∈ names, Path.stays name = true) : store.walk place names = .ok place := by
  induction names with
  | nil => rfl
  | cons name names ih =>
    have hfollow : Path.follow place name = place := by rw [Path.follow, if_pos (h name List.mem_cons_self)]
    rw [walk, hdir]
    simp only [hfollow]
    exact ih fun name' hname' => h name' (List.mem_cons_of_mem _ hname')

/-- Plain names are followed one by one. -/
theorem walk_plain {place target names : Path} (hplain : ∀ name ∈ names, Plain name)
    (h : store.walk place names = .ok target) : target = place ++ names := by
  induction names generalizing place with
  | nil =>
    cases h
    rw [List.append_nil]
  | cons name names ih =>
    unfold walk at h
    split at h
    · rw [follow_of_plain (hplain name List.mem_cons_self)] at h
      rw [ih (fun other hother => hplain other (List.mem_cons_of_mem _ hother)) h, List.append_assoc]
      rfl
    · exact nomatch h
    · exact nomatch h

/-- A path at which there is a directory leads to it. -/
theorem leads_of_locate {path place : Path} (hlocate : store.locate path = .ok place)
    (hdir : store.find? place = some .directory) : store.Leads path place := by
  refine ⟨?_, hdir⟩
  unfold stem
  split
  · rename_i hslash
    rw [Path.endsInSlash, beq_iff_eq, List.getLast?_eq_some_iff] at hslash
    obtain ⟨names, rfl⟩ := hslash
    unfold locate at hlocate ⊢
    rw [walk_append, Outcome.bind_eq_ok] at hlocate
    obtain ⟨inner, hinner, hlast⟩ := hlocate
    rw [List.dropLast_concat, hinner]
    unfold walk at hlast
    split at hlast
    · exact hlast
    · cases hlast
    · cases hlast
  · exact hlocate

/-- The path of a directory leads to it. -/
theorem exists_leads_of_isDirectory {path : Path} (h : store.isDirectory path = true) : ∃ place, store.Leads path place := by
  unfold isDirectory at h
  split at h
  · rename_i place hresolve
    simp only [resolve, Outcome.bind_eq_ok] at hresolve
    obtain ⟨located, hlocate, hnode⟩ := hresolve
    split at hnode
    · rename_i node hfound
      cases hnode
      exact ⟨place, leads_of_locate hlocate hfound⟩
    · cases hnode
  · cases h

/-- Making a directory adds it, and its path leads to it. -/
theorem makeDirectory_eq_ok {path whole : Path} (hwhole : path <+: whole) (h : store.makeDirectory path = .ok store') :
    store.Grows store' whole ∧ ∃ place, store'.Leads path place := by
  simp only [makeDirectory, Outcome.bind_eq_ok] at h
  obtain ⟨place, hlocate, hput⟩ := h
  split at hput
  · exact nomatch hput
  rename_i hfree
  have hnone : store.find? place = none := by
    rwa [Bool.not_eq_true, Option.isSome_eq_false_iff, Option.isNone_iff_eq_none] at hfree
  have hplace : place ≠ [] := by
    rintro rfl
    exact nomatch hnone
  rw [Outcome.pure_eq_ok] at hput
  subst hput
  have hdir := store.find?_put .directory hplace
  have hothers : ∀ p, p ≠ place → (store.put place .directory).find? p = store.find? p :=
    fun p hp => store.find?_put_of_ne _ hp
  have hkeeps : store.Keeps (store.put place .directory) := by
    intro p hopen
    by_cases hp : p = place
    · rw [hp, hdir]
    · rw [hothers p hp]
      exact hopen p (List.prefix_refl _)
  have hlocated := locate_of_keeps hkeeps hlocate
  refine ⟨fun p => ?_, place, ?_⟩
  · by_cases hp : p = place
    · subst hp
      exact .inr ⟨hnone, hdir, _, (Path.front_dropEnd _ path).trans hwhole, hlocated⟩
    · exact .inl (hothers p hp)
  · obtain ⟨tail, htail, hslashes⟩ := Path.exists_dropEnd_append (· == "") path
    refine leads_of_locate ?_ hdir
    unfold locate at hlocated ⊢
    rw [htail, walk_append, hlocated]
    refine walk_stays hdir ?_
    intro name hname
    rw [beq_iff_eq.1 (hslashes name hname)]
    rfl

/-- A directory that is made sure of is there, and nothing but directories on its path is new. -/
theorem ensureDirectory_eq_ok {path whole : Path} (hwhole : path <+: whole) (h : store.ensureDirectory path = .ok store') :
    store.Grows store' whole ∧ ∃ place, store'.Leads path place := by
  unfold ensureDirectory at h
  split at h
  · split at h
    · rename_i hdir
      cases h
      exact ⟨grows_refl _ _, exists_leads_of_isDirectory hdir⟩
    · exact nomatch h
  · exact makeDirectory_eq_ok hwhole h

/-- Making directories from the inside out, and those around as far as this takes. -/
theorem makeNested_eq_ok {paths : List Path} {whole : Path} (hwhole : ∀ path ∈ paths, path <+: whole)
    (h : store.makeNested paths = .ok store') :
    store.Grows store' whole ∧ ∀ path ∈ paths.head?, ∃ place, store'.Leads path place := by
  induction paths generalizing store' with
  | nil =>
    cases h
    exact ⟨grows_refl _ _, nofun⟩
  | cons path outer ih =>
    have hpath := hwhole path List.mem_cons_self
    suffices hpair : store.Grows store' whole ∧ ∃ place, store'.Leads path place by
      refine ⟨hpair.1, ?_⟩
      rintro _ ⟨⟩
      exact hpair.2
    rw [makeNested] at h
    split at h
    · obtain ⟨between, houter, hensure⟩ := Outcome.bind_eq_ok.1 h
      have hgrows := (ih (fun p hp => hwhole p (List.mem_cons_of_mem _ hp)) houter).1
      obtain ⟨hgrows', hleads⟩ := ensureDirectory_eq_ok hpath hensure
      exact ⟨hgrows.trans hgrows', hleads⟩
    · exact ensureDirectory_eq_ok hpath h

/-- A path that is made leads to a directory, and nothing but directories on it is new. -/
theorem makeDirectories_eq_ok (h : store.makeDirectories directory = .ok store') :
    store.Grows store' directory ∧ ∃ place, store'.Leads directory place := by
  obtain ⟨hgrows, hleads⟩ := makeNested_eq_ok (fun _ => Path.prefix_of_mem_ancestors) h
  refine ⟨hgrows, ?_⟩
  cases directory with
  | nil => exact ⟨[], rfl, rfl⟩
  | cons name names => exact hleads _ rfl

/-- Making sure of a directory adds directories, and its path leads to it. -/
theorem ensure_eq_ok (h : store.perform (.ensureDirectory directory) = .ok store') :
    store.Grows store' directory ∧ ∃ place, store'.Leads directory place := by
  unfold perform at h
  dsimp only at h
  split at h
  · exact nomatch h
  · rw [lift, Outcome.mapError_eq_ok] at h
    exact makeDirectories_eq_ok h

/-! ## Clearing -/

/-- A name that is taken out of a list is not in it any more. -/
theorem lookup_filter_self {place : Path} (nodes : List (Path × FileNode)) :
    (nodes.filter fun entry => entry.1 != place).lookup place = none := by
  rw [List.lookup_eq_none_iff]
  intro entry hentry
  have hne := (List.mem_filter.1 hentry).2
  rw [bne_iff_ne] at hne
  exact bne_iff_ne.2 hne.symm

/-- What is erased is not there any more. -/
theorem find?_erase_self (store : FileStore) {place : Path} (h : place ≠ []) : (store.erase place).find? place = none := by
  rw [find?, if_neg h]
  exact lookup_filter_self store.nodes

/-- A file that stood at a place has gone, if there was one, and nothing else has changed. -/
structure Discards (store store' : FileStore) (place : Path) : Prop where
  before : store.find? place ≠ some .directory
  after : store'.find? place = none
  others : ∀ p, p ≠ place → store'.find? p = store.find? p

/-- Discarding a file leaves all directories. -/
theorem Discards.keeps {place : Path} (h : Discards store store' place) : store.Keeps store' := by
  intro p hopen
  have hdir := hopen p (List.prefix_refl _)
  rw [h.others p, hdir]
  rintro rfl
  exact h.before hdir

/-- Discarding a file in a directory. -/
theorem discard_child {place : Path} {name : String} (hname : Plain name) (hleads : store.Leads directory place)
    (h : store.perform (.discard (directory.child name)) = .ok store') : Discards store store' (place ++ [name]) := by
  have hplace : place ++ [name] ≠ [] := by simp
  cases hnode : store.find? (place ++ [name]) with
  | none =>
    have hremove : store.remove (directory.child name) = .error .notFound := by
      simp only [remove, resolve, hleads.locate_child hname, Outcome.ok_bind, hnode]
      rfl
    simp only [perform, hremove, Except.ok.injEq] at h
    subst h
    exact ⟨by rw [hnode]; rintro ⟨⟩, hnode, fun _ _ => rfl⟩
  | some node =>
    have hresolve := hleads.resolve_child hname hnode
    cases node with
    | directory =>
      have hremove : store.remove (directory.child name) = .error .isADirectory := by
        simp only [remove, hresolve, Outcome.ok_bind]
        rfl
      simp only [perform, hremove] at h
      cases h
    | file bytes locked =>
      have hremove : store.remove (directory.child name) = .ok (store.erase (place ++ [name])) := by
        simp only [remove, hresolve, Outcome.ok_bind]
        rfl
      simp only [perform, hremove, lift, Outcome.mapError_eq_ok, Except.ok.injEq] at h
      subst h
      exact ⟨by rw [hnode]; rintro ⟨⟩, find?_erase_self store hplace, fun _ hp => store.find?_erase_of_ne hp⟩

end FileStore

/-- The names of the files of a table. -/
def TablePaths.names : List String :=
  [descriptorName, dataName, offsetsName]

namespace FileStore

variable {store store' : FileStore} {directory place : Path}

/-- A directory that is ready for a table: none of the files of a table stands in it, and outside of these nothing has changed
but for directories on the way to it. -/
structure Cleared (store store' : FileStore) (directory place : Path) : Prop where
  leads : store'.Leads directory place
  vacant : ∀ name ∈ TablePaths.names, store'.find? (place ++ [name]) = none
  others : ∀ p, (∀ name ∈ TablePaths.names, p ≠ place ++ [name]) →
    store'.find? p = store.find? p ∨ NewDirectory store store' directory p

/-- Two names in a directory stand at two places. -/
theorem concat_ne {name other : String} (h : name ≠ other) : place ++ [name] ≠ place ++ [other] := by
  intro heq
  exact h (List.singleton_inj.1 (List.append_cancel_left heq))

/-- What makes a directory ready has cleared it. -/
theorem cleared_of_performAll (h : store.performAll (Build.preparing directory) = (store', .ok ())) :
    ∃ place, Cleared store store' directory place := by
  have hdescriptor : (TablePaths.inDirectory directory).descriptor = directory.child TablePaths.descriptorName := rfl
  have hdata : (TablePaths.inDirectory directory).data = directory.child TablePaths.dataName := rfl
  have hoffsets : (TablePaths.inDirectory directory).offsets = directory.child TablePaths.offsetsName := rfl
  simp only [Build.preparing, performAll_cons, hdescriptor, hdata, hoffsets] at h
  obtain ⟨made, hmake, first, hfirst, second, hsecond, third, hthird, hdone⟩ := h
  cases hdone
  obtain ⟨hgrows, place, hleads⟩ := ensure_eq_ok hmake
  have hfirst := discard_child plain_descriptorName hleads hfirst
  have hleads' := hleads.keeps hfirst.keeps
  have hsecond := discard_child plain_dataName hleads' hsecond
  have hleads'' := hleads'.keeps hsecond.keeps
  have hthird := discard_child plain_offsetsName hleads'' hthird
  have hkeeps := (hfirst.keeps.trans hsecond.keeps).trans hthird.keeps
  refine ⟨place, hleads''.keeps hthird.keeps, ?_, ?_⟩
  · simp only [TablePaths.names, List.forall_mem_cons, List.not_mem_nil, false_implies, implies_true, and_true]
    refine ⟨?_, ?_, hthird.after⟩
    · rw [hthird.others _ (concat_ne (by decide)), hsecond.others _ (concat_ne (by decide)), hfirst.after]
    · rw [hthird.others _ (concat_ne (by decide)), hsecond.after]
  · intro p hp
    simp only [TablePaths.names, List.forall_mem_cons, List.not_mem_nil, false_implies, implies_true, and_true] at hp
    have hsame : store'.find? p = made.find? p := by
      rw [hthird.others p hp.2.2, hsecond.others p hp.2.1, hfirst.others p hp.1]
    rw [hsame]
    rcases hgrows p with hgrown | hnew
    · exact .inl hgrown
    · exact .inr (hnew.of_keeps hkeeps (hsame.trans hnew.after))

/-! ## Filling -/

/-- Behind an operation that ends well go the others. -/
theorem performAll_cons_ok {operation : FileOperation} {operations : List FileOperation}
    (h : store.perform operation = .ok store') : store.performAll (operation :: operations) = store'.performAll operations := by
  rw [performAll, h]

/-- A file stands at a place, and elsewhere nothing has changed. -/
structure Places (store store' : FileStore) (place : Path) (node : Option FileNode) : Prop where
  keeps : store.Keeps store'
  after : store'.find? place = node
  others : ∀ p, p ≠ place → store'.find? p = store.find? p

/-- What is put at a place last is there in the end. -/
theorem Places.trans {store'' : FileStore} {node node' : Option FileNode} (h : Places store store' place node)
    (h' : Places store' store'' place node') : Places store store'' place node' :=
  ⟨h.keeps.trans h'.keeps, h'.after, fun p hp => (h'.others p hp).trans (h.others p hp)⟩

/-- Putting a file where no directory stands places it there. -/
theorem places_put {bytes : Bytes} {locked : Bool} (hplace : place ≠ []) (hfree : store.find? place ≠ some .directory) :
    Places store (store.put place (.file bytes locked)) place (some (.file bytes locked)) :=
  ⟨(writes_put bytes locked hplace hfree).keeps, store.find?_put _ hplace, fun _ hp => store.find?_put_of_ne _ hp⟩

/-- Where no directory is in the way, a file can be created and filled. -/
theorem performAll_creating_eq {name : String} (hname : Plain name) (hleads : store.Leads directory place)
    (hfree : store.find? (place ++ [name]) ≠ some .directory) (bytes : Bytes) (more : List FileOperation) :
    ∃ store' locked, store.performAll (.create (directory.child name) :: .append (directory.child name) bytes :: more) =
      store'.performAll more ∧ Places store store' (place ++ [name]) (some (.file bytes locked)) := by
  obtain ⟨locked, hcreate⟩ : ∃ locked, store.create (directory.child name) =
      .ok (store.put (place ++ [name]) (.file [] locked)) := by
    simp only [create, endsInSlash_child directory hname, Bool.false_eq_true, if_false, hleads.locate_child hname,
      Outcome.ok_bind]
    rcases hnode : store.find? (place ++ [name]) with _ | _ | ⟨_, locked⟩
    · exact ⟨false, rfl⟩
    · exact absurd hnode hfree
    · exact ⟨locked, rfl⟩
  have hcreated : Places store _ (place ++ [name]) (some (.file [] locked)) := places_put (by simp) hfree
  generalize store.put (place ++ [name]) (.file [] locked) = created at *
  have happend : created.append (directory.child name) bytes = .ok (created.put (place ++ [name]) (.file bytes locked)) := by
    simp only [FileStore.append, (hleads.keeps hcreated.keeps).resolve_child hname hcreated.after, Outcome.ok_bind,
      List.nil_append]
    rfl
  have happended : Places created _ (place ++ [name]) (some (.file bytes locked)) :=
    places_put (by simp) (by rw [hcreated.after]; rintro ⟨⟩)
  have hfirst : store.perform (.create (directory.child name)) = .ok created := by
    rw [perform, hcreate, lift, Except.mapError]
  have hsecond : created.perform (.append (directory.child name) bytes) =
      .ok (created.put (place ++ [name]) (.file bytes locked)) := by
    rw [perform, happend, lift, Except.mapError]
  refine ⟨_, locked, ?_, hcreated.trans happended⟩
  rw [performAll_cons_ok hfirst, performAll_cons_ok hsecond]

/-- A file can be locked. -/
theorem perform_lock_eq {name : String} (hname : Plain name) (hleads : store.Leads directory place) {bytes : Bytes}
    {locked : Bool} (hfile : store.find? (place ++ [name]) = some (.file bytes locked)) :
    ∃ store', store.perform (.lock (directory.child name)) = .ok store' ∧
      Places store store' (place ++ [name]) (some (.file bytes true)) := by
  refine ⟨_, ?_, places_put (by simp) (by rw [hfile]; exact nofun)⟩
  simp only [perform, lock, hleads.resolve_child hname hfile, Outcome.ok_bind]
  rfl

/-- Where there is no file, one can be written and locked, or none. -/
theorem performAll_writing_eq {name : String} (hname : Plain name) (hleads : store.Leads directory place)
    (hnone : store.find? (place ++ [name]) = none) (bytes : Option Bytes) :
    ∃ store', store.performAll ((bytes.map (Build.writing (directory.child name))).getD []) = (store', .ok ()) ∧
      Places store store' (place ++ [name]) (bytes.map (.file · true)) := by
  cases bytes with
  | none => exact ⟨store, rfl, store.keeps_refl, hnone, fun _ _ => rfl⟩
  | some bytes =>
    obtain ⟨written, locked, hwrite, hwritten⟩ :=
      performAll_creating_eq hname hleads (by rw [hnone]; exact nofun) bytes [.lock (directory.child name)]
    obtain ⟨store', hlock, hlocked⟩ := perform_lock_eq hname (hleads.keeps hwritten.keeps) hwritten.after
    refine ⟨store', ?_, hwritten.trans hlocked⟩
    rw [Option.map_some, Option.getD_some, Build.writing, hwrite, performAll_cons_ok hlock]
    rfl

/-- A place that is no name of a file in a directory, and not inside of such a file. -/
def Outside (place : Path) (names : List String) (p : Path) : Prop :=
  ∀ name ∈ names, ¬ place ++ [name] <+: p

/-- What is outside of some names in a directory is none of them. -/
theorem Outside.ne {names : List String} {p : Path} (h : Outside place names p) {name : String} (hname : name ∈ names) :
    p ≠ place ++ [name] := by
  rintro rfl
  exact h name hname (List.prefix_refl _)

/-- A descriptor can be stored where there is none, unless a directory has the name under which it is written first. -/
theorem performAll_storing_eq {κ ν : Type} {d : Descriptor κ ν}
    (hpath : d.paths.descriptor = directory.child TablePaths.descriptorName) (hleads : store.Leads directory place)
    (hnone : store.find? (place ++ [TablePaths.descriptorName]) = none)
    (hfree : store.find? (place ++ [stagedName]) ≠ some .directory) :
    ∃ store', store.performAll d.storing = (store', .ok ()) ∧ store.Keeps store' ∧
      store'.find? (place ++ [TablePaths.descriptorName]) = some (.file d.encode true) ∧
      ∀ p, Outside place [stagedName, TablePaths.descriptorName] p → store'.find? p = store.find? p := by
  have hne : stagedName ≠ TablePaths.descriptorName := by decide
  obtain ⟨written, locked, hwrite, hwritten⟩ := performAll_creating_eq plain_stagedName hleads hfree d.encode
    [.rename (directory.child stagedName) (directory.child TablePaths.descriptorName),
      .lock (directory.child TablePaths.descriptorName)]
  have hleads' := hleads.keeps hwritten.keeps
  have hvacant : written.find? (place ++ [TablePaths.descriptorName]) ≠ some .directory := by
    rw [hwritten.others _ (concat_ne (Ne.symm hne)), hnone]
    exact nofun
  have hrename := rename_child_eq plain_stagedName plain_descriptorName hne hleads' hwritten.after
  rw [if_neg hvacant] at hrename
  have hkeeps := keeps_move hwritten.after hvacant
  have hmoved := (find?_move_target written (not_prefix_concat hne) (by simp) (by simp)).trans hwritten.after
  have houtside : ∀ p, Outside place [stagedName, TablePaths.descriptorName] p → (written.move (place ++ [stagedName])
      (place ++ [TablePaths.descriptorName])).find? p = written.find? p := by
    intro p hp
    exact find?_move_of_outside _ (hp _ (by simp)) (hp _ (by simp))
  generalize written.move (place ++ [stagedName]) (place ++ [TablePaths.descriptorName]) = moved at *
  obtain ⟨store', hlock, hlocked⟩ := perform_lock_eq plain_descriptorName (hleads'.keeps hkeeps) hmoved
  have hperform : written.perform (.rename (directory.child stagedName) (directory.child TablePaths.descriptorName)) =
      .ok moved := by
    rw [perform, hrename, lift, Except.mapError]
  refine ⟨store', ?_, (hwritten.keeps.trans hkeeps).trans hlocked.keeps, hlocked.after, ?_⟩
  · rw [Descriptor.storing, hpath, staged_child, hwrite, performAll_cons_ok hperform, performAll_cons_ok hlock]
    rfl
  · intro p hp
    rw [hlocked.others p (hp.ne (by simp)), houtside p hp, hwritten.others p (hp.ne (by simp))]

/-- To store a descriptor, no directory may have the name under which it is written first. -/
theorem free_of_performAll_storing {κ ν : Type} {d : Descriptor κ ν}
    (hpath : d.paths.descriptor = directory.child TablePaths.descriptorName) (hleads : store.Leads directory place)
    (h : store.performAll d.storing = (store', .ok ())) : store.find? (place ++ [stagedName]) ≠ some .directory := by
  rw [Descriptor.storing, hpath, staged_child] at h
  obtain ⟨place', between, hleads', hwrites, -⟩ := performAll_creating plain_stagedName h
  cases FilingAux.leads_unique hleads hleads'
  exact hwrites.before

/-! ## What a build leaves -/

/-- What a build has left of the files of a table, each of which it may have come to or not; those that are there are locked.
Nothing outside of the names of a table has changed but for directories on the way to it. -/
structure Left (store store' : FileStore) (directory place : Path) (data offsets descriptor : Option Bytes) : Prop where
  leads : store'.Leads directory place
  data : store'.find? (place ++ [TablePaths.dataName]) = data.map (.file · true)
  offsets : store'.find? (place ++ [TablePaths.offsetsName]) = offsets.map (.file · true)
  descriptor : store'.find? (place ++ [TablePaths.descriptorName]) = descriptor.map (.file · true)
  others : ∀ p, Outside place (stagedName :: TablePaths.names) p →
    store'.find? p = store.find? p ∨ NewDirectory store store' directory p

/-- The operations of a build up to the descriptor: the directory is made ready, and files are written as far as the build has
come to them. -/
def filling (directory : Path) (data offsets : Option Bytes) : List FileOperation :=
  Build.preparing directory ++ (data.map (Build.writing (TablePaths.inDirectory directory).data)).getD [] ++
    (offsets.map (Build.writing (TablePaths.inDirectory directory).offsets)).getD []

/-- What is outside of the names that an operation is about stays as the build has left it so far. -/
theorem Left.others_of_keeps {store'' : FileStore} {data offsets descriptor : Option Bytes}
    (h : Left store store' directory place data offsets descriptor) (hkeeps : store'.Keeps store'')
    (hothers : ∀ p, Outside place (stagedName :: TablePaths.names) p → store''.find? p = store'.find? p) (p : Path)
    (hp : Outside place (stagedName :: TablePaths.names) p) :
    store''.find? p = store.find? p ∨ NewDirectory store store'' directory p := by
  rw [hothers p hp]
  rcases h.others p hp with hold | hnew
  · exact .inl hold
  · exact .inr (hnew.of_keeps hkeeps ((hothers p hp).trans hnew.after))

/-- A directory that was cleared has no files of a table left. -/
theorem Cleared.left (h : Cleared store store' directory place) : Left store store' directory place none none none where
  leads := h.leads
  data := h.vacant TablePaths.dataName (by decide)
  offsets := h.vacant TablePaths.offsetsName (by decide)
  descriptor := h.vacant TablePaths.descriptorName (by decide)
  others p hp := h.others p fun _ hname => hp.ne (List.mem_cons_of_mem _ hname)

/-- In a directory that is ready for a table, all files before the descriptor can be written. -/
theorem Cleared.performAll_filling_eq (hcleared : Cleared store store' directory place)
    (h : store.performAll (Build.preparing directory) = (store', .ok ())) (data offsets : Option Bytes) :
    ∃ filled, store.performAll (filling directory data offsets) = (filled, .ok ()) ∧
      Left store filled directory place data offsets none ∧
      filled.find? (place ++ [stagedName]) = store'.find? (place ++ [stagedName]) := by
  have hleft := hcleared.left
  obtain ⟨first, hfirst, hplaces⟩ := performAll_writing_eq plain_dataName hleft.leads hleft.data data
  have hnone : first.find? (place ++ [TablePaths.offsetsName]) = none := by
    rw [hplaces.others _ (concat_ne (by decide)), hleft.offsets]
    rfl
  obtain ⟨filled, hfilled, hplaces'⟩ :=
    performAll_writing_eq plain_offsetsName (hleft.leads.keeps hplaces.keeps) hnone offsets
  have hkeeps := hplaces.keeps.trans hplaces'.keeps
  refine ⟨filled, ?_, ⟨hleft.leads.keeps hkeeps, ?_, hplaces'.after, ?_, ?_⟩, ?_⟩
  · rw [filling, performAll_append]
    refine ⟨first, ?_, hfilled⟩
    rw [performAll_append]
    exact ⟨store', h, hfirst⟩
  · rw [hplaces'.others _ (concat_ne (by decide)), hplaces.after]
  · rw [hplaces'.others _ (concat_ne (by decide)), hplaces.others _ (concat_ne (by decide)), hleft.descriptor]
  · refine hleft.others_of_keeps hkeeps fun p hp => ?_
    rw [hplaces'.others p (hp.ne (by decide)), hplaces.others p (hp.ne (by decide))]
  · rw [hplaces'.others _ (concat_ne (by decide)), hplaces.others _ (concat_ne (by decide))]

/-- A descriptor is stored beside the files that were written before. -/
theorem Left.performAll_storing_eq {κ ν : Type} {d : Descriptor κ ν} {data offsets : Option Bytes}
    (h : Left store store' directory place data offsets none)
    (hpath : d.paths.descriptor = directory.child TablePaths.descriptorName)
    (hfree : store'.find? (place ++ [stagedName]) ≠ some .directory) :
    ∃ store'', store'.performAll d.storing = (store'', .ok ()) ∧
      Left store store'' directory place data offsets (some d.encode) := by
  obtain ⟨store'', hstore, hkeeps, hdescriptor, hothers⟩ := FileStore.performAll_storing_eq hpath h.leads h.descriptor hfree
  have houtside {name : String} (hstaged : stagedName ≠ name) (hne : TablePaths.descriptorName ≠ name) :
      Outside place [stagedName, TablePaths.descriptorName] (place ++ [name]) := by
    intro other hother
    simp only [List.mem_cons, List.not_mem_nil, or_false] at hother
    rcases hother with rfl | rfl
    · exact not_prefix_concat hstaged
    · exact not_prefix_concat hne
  refine ⟨store'', hstore, h.leads.keeps hkeeps, ?_, ?_, hdescriptor, ?_⟩
  · rw [hothers _ (houtside (by decide) (by decide)), h.data]
  · rw [hothers _ (houtside (by decide) (by decide)), h.offsets]
  · refine h.others_of_keeps hkeeps fun p hp => hothers p fun name hname => hp name ?_
    simp only [List.mem_cons, List.not_mem_nil, or_false] at hname
    rcases hname with rfl | rfl <;> decide

/-- Up to the descriptor, a build whose operations did not fail has left the files it came to. -/
theorem left_of_performAll_filling {data offsets : Option Bytes}
    (h : store.performAll (filling directory data offsets) = (store', .ok ())) :
    ∃ place, Left store store' directory place data offsets none := by
  obtain ⟨prepared, hprepare⟩ : ∃ prepared, store.performAll (Build.preparing directory) = (prepared, .ok ()) := by
    simp only [filling, performAll_append] at h
    obtain ⟨_, ⟨prepared, hprepare, -⟩, -⟩ := h
    exact ⟨prepared, hprepare⟩
  obtain ⟨place, hcleared⟩ := cleared_of_performAll hprepare
  obtain ⟨filled, hfill, hleft, -⟩ := hcleared.performAll_filling_eq hprepare data offsets
  cases hfill.symm.trans h
  exact ⟨place, hleft⟩

/-- A build whose operations did not fail has left all its files. -/
theorem left_of_performAll {κ ν : Type} {d : Descriptor κ ν} {data offsets : Option Bytes}
    (hpath : d.paths.descriptor = directory.child TablePaths.descriptorName)
    (h : store.performAll (filling directory data offsets ++ d.storing) = (store', .ok ())) :
    ∃ place, Left store store' directory place data offsets (some d.encode) := by
  rw [performAll_append] at h
  obtain ⟨filled, hfill, hstore⟩ := h
  obtain ⟨place, hleft⟩ := left_of_performAll_filling hfill
  obtain ⟨stored, hstore', hleft'⟩ := hleft.performAll_storing_eq hpath (free_of_performAll_storing hpath hleft.leads hstore)
  cases hstore'.symm.trans hstore
  exact ⟨place, hleft'⟩

/-! ## Directories that take a table -/

/-- A directory that can be made ready for a table, and in which no other directory has the name under which a descriptor is
written first. -/
def Accepts (store : FileStore) (directory : Path) : Prop :=
  ∃ prepared, store.performAll (Build.preparing directory) = (prepared, .ok ()) ∧
    prepared.isDirectory (directory.child stagedName) = false

instance (store : FileStore) (directory : Path) : Decidable (store.Accepts directory) :=
  decidable_of_iff ((store.performAll (Build.preparing directory)).2 = .ok () ∧
      (store.performAll (Build.preparing directory)).1.isDirectory (directory.child stagedName) = false) <| by
    constructor
    · rintro ⟨hok, hstaged⟩
      exact ⟨_, Prod.ext rfl hok, hstaged⟩
    · rintro ⟨prepared, hprepare, hstaged⟩
      rw [hprepare]
      exact ⟨rfl, hstaged⟩

/-- In such a directory a build does not fail for the operations it has planned. -/
theorem Accepts.exists_filling (h : store.Accepts directory) (data offsets : Option Bytes) :
    ∃ place filled, store.performAll (filling directory data offsets) = (filled, .ok ()) ∧
      Left store filled directory place data offsets none ∧
      filled.find? (place ++ [stagedName]) ≠ some .directory := by
  obtain ⟨prepared, hprepare, hstaged⟩ := h
  obtain ⟨place, hcleared⟩ := cleared_of_performAll hprepare
  obtain ⟨filled, hfill, hleft, hsame⟩ := hcleared.performAll_filling_eq hprepare data offsets
  refine ⟨place, filled, hfill, hleft, ?_⟩
  rw [hsame]
  intro hdir
  have hresolve := hcleared.leads.resolve_child plain_stagedName hdir
  rw [isDirectory, hresolve] at hstaged
  cases hstaged

end FileStore

end FrozenTable
