import FrozenTable.Files.Operation
import FrozenTable.Descriptor.Image
import FrozenTable.Build.Plan
import FrozenTable.Proofs.Lemmas.Outcome

/-!
# Files stay where they are put

The operations of a build touch single files inside one directory. None of them changes what a directory is, so every path that
led somewhere through directories still leads there (`Keeps`), and a file that was written is found by its path afterwards, also
when other files are written or renamed beside it. The store is any store and the directory is given by any path.
-/

namespace FrozenTable

namespace FileStore

/-! ## What stands at a place -/

/-- Taking one name out of a list leaves the entries of the others. -/
theorem lookup_filter_ne {p place : Path} (nodes : List (Path × FileNode)) (h : p ≠ place) :
    (nodes.filter fun entry => entry.1 != place).lookup p = nodes.lookup p := by
  induction nodes with
  | nil => rfl
  | cons entry nodes ih =>
    by_cases hentry : entry.1 = place
    · have hne : (p == entry.1) = false := by
        rw [beq_eq_false_iff_ne, hentry]
        exact h
      rw [List.filter_cons_of_neg (by simpa using hentry), ih, List.lookup_cons, hne]
    · rw [List.filter_cons_of_pos (by simpa using hentry), List.lookup_cons, List.lookup_cons, ih]

/-- What is erased is missing at its own place only. -/
theorem find?_erase_of_ne {p place : Path} (store : FileStore) (h : p ≠ place) :
    (store.erase place).find? p = store.find? p := by
  unfold find? erase
  rw [lookup_filter_ne _ h]

/-- Putting a file somewhere leaves all other places alone. -/
theorem find?_put_of_ne {p place : Path} (store : FileStore) (node : FileNode) (h : p ≠ place) :
    (store.put place node).find? p = store.find? p := by
  have hne : (p == place) = false := beq_eq_false_iff_ne.2 h
  have herase := store.find?_erase_of_ne h
  unfold find? at herase ⊢
  unfold put
  rw [List.lookup_cons, hne]
  exact herase

/-- A move leaves alone what is neither at its source nor at its target nor inside of them. -/
theorem lookup_map_moved {source target p : Path} (nodes : List (Path × FileNode)) (hsource : ¬ source <+: p)
    (htarget : ¬ target <+: p) :
    (nodes.map fun entry => (moved source target entry.1, entry.2)).lookup p = nodes.lookup p := by
  induction nodes with
  | nil => rfl
  | cons entry nodes ih =>
    have hsame : (p == moved source target entry.1) = (p == entry.1) := by
      unfold moved
      split
      · rename_i hprefix
        rw [List.isPrefixOf_iff_prefix] at hprefix
        rw [beq_eq_false_iff_ne.2, beq_eq_false_iff_ne.2]
        · rintro rfl
          exact hsource hprefix
        · rintro rfl
          exact htarget (List.prefix_append _ _)
      · rfl
    rw [List.map_cons, List.lookup_cons, List.lookup_cons, hsame, ih]

/-- Moving something leaves alone what is neither in the old place nor in the new one. -/
theorem find?_move_of_outside {source target p : Path} (store : FileStore) (hsource : ¬ source <+: p)
    (htarget : ¬ target <+: p) : (store.move source target).find? p = store.find? p := by
  have hne : p ≠ target := by
    rintro rfl
    exact htarget (List.prefix_refl _)
  have herase := store.find?_erase_of_ne hne
  unfold find? at herase ⊢
  unfold move
  rw [lookup_map_moved _ hsource htarget]
  exact herase

/-- After a move the target has what the source had. -/
theorem lookup_map_moved_target {source target : Path} (nodes : List (Path × FileNode)) (h : ¬ source <+: target)
    (hnodes : ∀ entry ∈ nodes, entry.1 ≠ target) :
    (nodes.map fun entry => (moved source target entry.1, entry.2)).lookup target = nodes.lookup source := by
  induction nodes with
  | nil => rfl
  | cons entry nodes ih =>
    have hsame : (target == moved source target entry.1) = (source == entry.1) := by
      unfold moved
      split
      · rename_i hprefix
        rw [List.isPrefixOf_iff_prefix] at hprefix
        rw [Bool.eq_iff_iff, beq_iff_eq, beq_iff_eq, List.self_eq_append_right, List.drop_eq_nil_iff]
        constructor
        · intro hle
          exact hprefix.eq_of_length_le hle
        · rintro rfl
          exact Nat.le_refl _
      · rename_i hprefix
        rw [beq_eq_false_iff_ne.2 (Ne.symm (hnodes entry List.mem_cons_self)), beq_eq_false_iff_ne.2]
        rintro rfl
        exact hprefix (List.isPrefixOf_iff_prefix.2 (List.prefix_refl _))
    rw [List.map_cons, List.lookup_cons, List.lookup_cons, hsame,
      ih fun entry hentry => hnodes entry (List.mem_cons_of_mem _ hentry)]

/-- What was moved stands in the new place. -/
theorem find?_move_target {source target : Path} (store : FileStore) (h : ¬ source <+: target) (hsource : source ≠ [])
    (htarget : target ≠ []) : (store.move source target).find? target = store.find? source := by
  have hne : source ≠ target := by
    rintro rfl
    exact h (List.prefix_refl _)
  have herase := store.find?_erase_of_ne hne
  unfold find? at herase ⊢
  unfold move
  rw [if_neg htarget, if_neg hsource, lookup_map_moved_target _ h]
  · rwa [if_neg hsource, if_neg hsource] at herase
  · intro entry hentry
    simpa using (List.mem_filter.1 hentry).2

/-! ## Where paths lead -/

/-- A place with directories all the way to it. -/
def Open (store : FileStore) (place : Path) : Prop :=
  ∀ p, p <+: place → store.find? p = some .directory

/-- A place with directories around it. -/
def Reached (store : FileStore) (place : Path) : Prop :=
  ∀ p, p <+: place → p ≠ place → store.find? p = some .directory

/-- Every directory that can be reached in a store is one in another store as well. -/
def Keeps (store store' : FileStore) : Prop :=
  ∀ place, store.Open place → store'.find? place = some .directory

/-- From an open place every name leads to a place with directories around it. -/
theorem Open.follow {store : FileStore} {place : Path} (h : store.Open place) (name : String) :
    store.Reached (Path.follow place name) := by
  unfold Path.follow
  split
  · exact fun p hp _ => h p hp
  split
  · exact fun p hp _ => h p (hp.trans (List.dropLast_prefix place))
  · intro p hp hne
    rcases List.prefix_concat_iff.1 hp with heq | hp
    · exact absurd heq hne
    · exact h p hp

/-- A directory with directories around it is open. -/
theorem Reached.open {store : FileStore} {place : Path} (h : store.Reached place)
    (hdir : store.find? place = some .directory) : store.Open place := by
  intro p hp
  by_cases heq : p = place
  · rw [heq]
    exact hdir
  · exact h p hp heq

/-- The outermost place has nothing around it. -/
theorem reached_nil (store : FileStore) : store.Reached [] := by
  intro p hp hne
  exact absurd (List.prefix_nil.1 hp) hne

/-- A walk through directories ends at a place with directories around it, and it ends there in every store that keeps the
directories. -/
theorem walk_of_keeps {store store' : FileStore} (hkeeps : store.Keeps store') {place target : Path} {names : Path}
    (hplace : store.Reached place) (h : store.walk place names = .ok target) :
    store.Reached target ∧ store'.walk place names = .ok target := by
  induction names generalizing place with
  | nil =>
    cases h
    exact ⟨hplace, rfl⟩
  | cons name names ih =>
    unfold walk at h
    split at h
    · rename_i hdir
      have hopen := hplace.open hdir
      obtain ⟨hreached, hwalk⟩ := ih (hopen.follow name) h
      refine ⟨hreached, ?_⟩
      rw [walk, hkeeps place hopen]
      exact hwalk
    · exact nomatch h
    · exact nomatch h

/-- A store keeps its own directories. -/
theorem keeps_refl (store : FileStore) : store.Keeps store :=
  fun place h => h place (List.prefix_refl _)

/-- An open place stays open where directories are kept. -/
theorem Open.keeps {store store' : FileStore} {place : Path} (hkeeps : store.Keeps store') (h : store.Open place) :
    store'.Open place := by
  intro p hp
  exact hkeeps p fun q hq => h q (hq.trans hp)

/-- What is kept twice is kept. -/
theorem Keeps.trans {store store' store'' : FileStore} (h : store.Keeps store') (h' : store'.Keeps store'') :
    store.Keeps store'' := by
  intro place hopen
  exact h' place (hopen.keeps h)

/-- Names are followed one after the other. -/
theorem walk_append (store : FileStore) (place : Path) (names more : Path) :
    store.walk place (names ++ more) = (store.walk place names) >>= fun p => store.walk p more := by
  induction names generalizing place with
  | nil => rfl
  | cons name names ih =>
    rw [List.cons_append, walk, walk]
    cases store.find? place with
    | none => rfl
    | some node =>
      cases node with
      | directory => exact ih _
      | file bytes locked => rfl

/-! ## Files inside a directory -/

/-- A directory's path without the slash at its end. -/
def stem (directory : Path) : Path :=
  if Path.endsInSlash directory then directory.dropLast else directory

theorem child_eq (directory : Path) (name : String) : directory.child name = stem directory ++ [name] := rfl

/-- A path leads to a directory at a place. -/
structure Leads (store : FileStore) (directory place : Path) : Prop where
  locate : store.locate (stem directory) = .ok place
  isDirectory : store.find? place = some .directory

/-- A name that leads into a directory. -/
def Plain (name : String) : Prop :=
  Path.stays name = false ∧ name ≠ ".."

/-- A plain name leads into the directory. -/
theorem follow_of_plain {name : String} (h : Plain name) (place : Path) : Path.follow place name = place ++ [name] := by
  rw [Path.follow, h.1, if_neg Bool.false_ne_true, if_neg]
  rw [beq_iff_eq]
  exact h.2

theorem Plain.ne_empty {name : String} (h : Plain name) : name ≠ "" := by
  rintro rfl
  exact nomatch h.1

namespace Leads

variable {store store' : FileStore} {directory place : Path}

/-- The place to which a path leads is open. -/
theorem «open» (h : store.Leads directory place) : store.Open place :=
  ((walk_of_keeps store.keeps_refl store.reached_nil h.locate).1).open h.isDirectory

/-- Paths lead where they did as long as directories are kept. -/
theorem keeps (h : store.Leads directory place) (hkeeps : store.Keeps store') : store'.Leads directory place :=
  ⟨(walk_of_keeps hkeeps store.reached_nil h.locate).2, hkeeps place h.open⟩

/-- A plain name in a directory is found at the place of the directory. -/
theorem locate_child (h : store.Leads directory place) {name : String} (hname : Plain name) :
    store.locate (directory.child name) = .ok (place ++ [name]) := by
  have hlocate := h.locate
  unfold FileStore.locate at hlocate ⊢
  rw [child_eq, walk_append, hlocate, Outcome.ok_bind, walk, h.isDirectory]
  exact congrArg _ (follow_of_plain hname place)

/-- A file that can be located inside a directory stands in it. -/
theorem of_locate_child {name : String} (hname : Plain name) {target : Path}
    (h : store.locate (directory.child name) = .ok target) :
    ∃ place, store.Leads directory place ∧ target = place ++ [name] := by
  unfold FileStore.locate at h
  rw [child_eq, walk_append, Outcome.bind_eq_ok] at h
  obtain ⟨place, hplace, h⟩ := h
  unfold walk at h
  split at h
  · rename_i hdir
    cases h
    exact ⟨place, ⟨hplace, hdir⟩, follow_of_plain hname place⟩
  · exact nomatch h
  · exact nomatch h

/-- A path that leads to a directory is one of a directory. -/
theorem isDirectory_eq (h : store.Leads directory place) : store.isDirectory directory = true := by
  have hlocate : store.locate directory = .ok place := by
    have hstem := h.locate
    unfold stem at hstem
    split at hstem
    · rename_i hslash
      have hsplit : directory = directory.dropLast ++ [""] := by
        rw [Path.endsInSlash, beq_iff_eq, List.getLast?_eq_some_iff] at hslash
        obtain ⟨names, hnames⟩ := hslash
        rw [hnames, List.dropLast_concat]
      unfold FileStore.locate at hstem ⊢
      rw [hsplit, walk_append, hstem, Outcome.ok_bind, walk, h.isDirectory]
      rfl
    · exact hstem
  simp only [FileStore.isDirectory, resolve, hlocate, Outcome.ok_bind, h.isDirectory]
  rfl

/-- What stands in a directory under a plain name is found by the path of the name. -/
theorem resolve_child (h : store.Leads directory place) {name : String} (hname : Plain name) {node : FileNode}
    (hnode : store.find? (place ++ [name]) = some node) :
    store.resolve (directory.child name) = .ok (place ++ [name], node) := by
  simp only [resolve, h.locate_child hname, Outcome.ok_bind, hnode]
  rfl

/-- A file in a directory is read by its path. -/
theorem read_child (h : store.Leads directory place) {name : String} (hname : Plain name) {bytes : Bytes} {locked : Bool}
    (hfile : store.find? (place ++ [name]) = some (.file bytes locked)) : store.read (directory.child name) = .ok bytes := by
  simp only [read, h.resolve_child hname hfile, Outcome.ok_bind]
  rfl

/-- What is read under a name in a directory that may have no file of that name. -/
theorem read_child_eq (h : store.Leads directory place) {name : String} (hname : Plain name) {content : Option Bytes}
    {locked : Bool} (hfile : store.find? (place ++ [name]) = content.map (.file · locked)) :
    store.read (directory.child name) = content.elim (.error .notFound) .ok := by
  cases content with
  | some bytes => exact h.read_child hname hfile
  | none =>
    rw [Option.map_none] at hfile
    simp only [read, resolve, h.locate_child hname, Outcome.ok_bind, hfile]
    rfl

/-- The size of a file in a directory is told by its path. -/
theorem sizeAt_child (h : store.Leads directory place) {name : String} (hname : Plain name) {bytes : Bytes} {locked : Bool}
    (hfile : store.find? (place ++ [name]) = some (.file bytes locked)) :
    store.sizeAt (directory.child name) = .ok bytes.length := by
  simp only [sizeAt, h.resolve_child hname hfile, Outcome.ok_bind]
  rfl

/-- A file in a directory can be opened either way, and its bytes are seen. -/
theorem openFile_child (h : store.Leads directory place) {name : String} (hname : Plain name) {bytes : Bytes} {locked : Bool}
    (hfile : store.find? (place ++ [name]) = some (.file bytes locked)) (heap : Bool) :
    ∃ r, Region.openFile store (directory.child name) heap = .ok r ∧ r.bytes = bytes := by
  simp only [Region.openFile, h.resolve_child hname hfile, Outcome.ok_bind]
  exact ⟨_, rfl, rfl⟩

end Leads

/-! ## Writing -/

/-- A file with some bytes has come to stand at a place, where no directory stood; the other places are as before. -/
structure Writes (store store' : FileStore) (place : Path) (bytes : Bytes) : Prop where
  before : store.find? place ≠ some .directory
  after : ∃ locked, store'.find? place = some (.file bytes locked)
  others : ∀ p, p ≠ place → store'.find? p = store.find? p

/-- Writing a file keeps all directories, as none stood in its place. -/
theorem Writes.keeps {store store' : FileStore} {place : Path} {bytes : Bytes} (h : Writes store store' place bytes) :
    store.Keeps store' := by
  intro p hopen
  have hdir := hopen p (List.prefix_refl _)
  rw [h.others p, hdir]
  rintro rfl
  exact h.before hdir

/-- A file that is written again has the bytes that were written last. -/
theorem Writes.trans {store store' store'' : FileStore} {place : Path} {bytes bytes' : Bytes}
    (h : Writes store store' place bytes) (h' : Writes store' store'' place bytes') : Writes store store'' place bytes' :=
  ⟨h.before, h'.after, fun p hp => (h'.others p hp).trans (h.others p hp)⟩

/-- Putting a file where no directory stands is writing it. -/
theorem writes_put {store : FileStore} {place : Path} (bytes : Bytes) (locked : Bool) (hplace : place ≠ [])
    (h : store.find? place ≠ some .directory) : Writes store (store.put place (.file bytes locked)) place bytes :=
  ⟨h, ⟨locked, find?_put store _ hplace⟩, fun _ hp => find?_put_of_ne store _ hp⟩

/-- Operations end well when those in front do and then those behind. -/
theorem performAll_append {store store' : FileStore} {first second : List FileOperation} :
    store.performAll (first ++ second) = (store', .ok ()) ↔
      ∃ between, store.performAll first = (between, .ok ()) ∧ between.performAll second = (store', .ok ()) := by
  induction first generalizing store with
  | nil =>
    constructor
    · intro h
      exact ⟨store, rfl, h⟩
    · rintro ⟨between, h, h'⟩
      cases h
      exact h'
  | cons operation first ih =>
    rw [List.cons_append, performAll, performAll]
    cases store.perform operation with
    | ok next => exact ih
    | error fault => simp

/-- Operations end well when the first one does and then the others. -/
theorem performAll_cons {store store' : FileStore} {operation : FileOperation} {operations : List FileOperation} :
    store.performAll (operation :: operations) = (store', .ok ()) ↔
      ∃ between, store.perform operation = .ok between ∧ between.performAll operations = (store', .ok ()) := by
  rw [performAll]
  cases store.perform operation with
  | ok next => simp
  | error fault => simp

/-- The path of a plain name does not end in a slash. -/
theorem endsInSlash_child (directory : Path) {name : String} (hname : Plain name) :
    Path.endsInSlash (directory.child name) = false := by
  rw [child_eq, Path.endsInSlash, List.getLast?_concat, beq_eq_false_iff_ne]
  intro h
  exact hname.ne_empty (Option.some.inj h)

variable {store store' : FileStore} {directory : Path} {name : String}

/-- Creating a file in a directory. -/
theorem create_child (hname : Plain name) (h : store.create (directory.child name) = .ok store') :
    ∃ place, store.Leads directory place ∧ Writes store store' (place ++ [name]) [] := by
  simp only [create, endsInSlash_child directory hname, Bool.false_eq_true, if_false, Outcome.bind_eq_ok] at h
  obtain ⟨target, htarget, h⟩ := h
  obtain ⟨place, hleads, rfl⟩ := Leads.of_locate_child hname htarget
  refine ⟨place, hleads, ?_⟩
  split at h
  · rename_i bytes locked hnode
    cases h
    exact writes_put [] locked (by simp) (by rw [hnode]; exact nofun)
  · exact nomatch h
  · rename_i hnode
    cases h
    exact writes_put [] false (by simp) (by rw [hnode]; exact nofun)

/-- Appending to a file in a directory. -/
theorem append_child (hname : Plain name) {place : Path} (hleads : store.Leads directory place) {bytes more : Bytes}
    (hfile : ∃ locked, store.find? (place ++ [name]) = some (.file bytes locked))
    (h : store.append (directory.child name) more = .ok store') : Writes store store' (place ++ [name]) (bytes ++ more) := by
  obtain ⟨locked, hfile⟩ := hfile
  simp only [FileStore.append, hleads.resolve_child hname hfile, Outcome.ok_bind, Outcome.pure_eq_ok] at h
  rw [← h]
  exact writes_put _ locked (by simp) (by rw [hfile]; exact nofun)

/-- Locking a file in a directory. -/
theorem lock_child (hname : Plain name) {place : Path} (hleads : store.Leads directory place) {bytes : Bytes}
    (hfile : ∃ locked, store.find? (place ++ [name]) = some (.file bytes locked))
    (h : store.lock (directory.child name) = .ok store') : Writes store store' (place ++ [name]) bytes := by
  obtain ⟨locked, hfile⟩ := hfile
  simp only [lock, hleads.resolve_child hname hfile, Outcome.ok_bind, Outcome.pure_eq_ok] at h
  rw [← h]
  exact writes_put _ true (by simp) (by rw [hfile]; exact nofun)

/-- A file that was created and appended to. -/
theorem performAll_creating (hname : Plain name) {bytes : Bytes} {more : List FileOperation}
    (h : store.performAll (.create (directory.child name) :: .append (directory.child name) bytes :: more) = (store', .ok ())) :
    ∃ place between, store.Leads directory place ∧ Writes store between (place ++ [name]) bytes ∧
      between.performAll more = (store', .ok ()) := by
  simp only [performAll_cons, perform, lift, Outcome.mapError_eq_ok] at h
  obtain ⟨created, hcreate, appended, happend, hmore⟩ := h
  obtain ⟨place, hleads, hcreated⟩ := create_child hname hcreate
  have happended := append_child hname (hleads.keeps hcreated.keeps) hcreated.after happend
  exact ⟨place, appended, hleads, hcreated.trans happended, hmore⟩

/-- A file that was written and locked. -/
theorem performAll_writing (hname : Plain name) {bytes : Bytes}
    (h : store.performAll (Build.writing (directory.child name) bytes) = (store', .ok ())) :
    ∃ place, store.Leads directory place ∧ Writes store store' (place ++ [name]) bytes := by
  obtain ⟨place, between, hleads, hwrites, hlock⟩ := performAll_creating hname h
  rw [performAll_cons] at hlock
  obtain ⟨locked, hlock, hdone⟩ := hlock
  rw [perform, lift, Outcome.mapError_eq_ok] at hlock
  cases hdone
  exact ⟨place, hleads, hwrites.trans (lock_child hname (hleads.keeps hwrites.keeps) hwrites.after hlock)⟩

/-- Of two names in a directory neither stands inside of the other. -/
theorem not_prefix_concat {place : Path} {other : String} (h : name ≠ other) : ¬ place ++ [name] <+: place ++ [other] := by
  intro hprefix
  have heq := hprefix.eq_of_length (by simp)
  exact h (List.singleton_inj.1 (List.append_cancel_left heq))

/-- Moving a file to where no directory stands keeps the directories. -/
theorem keeps_move {source target : Path} {bytes : Bytes} {locked : Bool}
    (hfile : store.find? source = some (.file bytes locked)) (hfree : store.find? target ≠ some .directory) :
    store.Keeps (store.move source target) := by
  intro p hopen
  rw [find?_move_of_outside]
  · exact hopen p (List.prefix_refl _)
  · intro hprefix
    have := hopen _ hprefix
    rw [hfile] at this
    exact nomatch this
  · intro hprefix
    exact hfree (hopen _ hprefix)

/-- Renaming a file inside a directory moves it, unless a directory stands under the new name. -/
theorem rename_child_eq {target : String} (hname : Plain name) (htarget : Plain target) (hne : name ≠ target) {place : Path}
    (hleads : store.Leads directory place) {bytes : Bytes} {locked : Bool}
    (hfile : store.find? (place ++ [name]) = some (.file bytes locked)) :
    store.rename (directory.child name) (directory.child target) =
      if store.find? (place ++ [target]) = some .directory then .error .isADirectory
      else .ok (store.move (place ++ [name]) (place ++ [target])) := by
  have hsource : Path.dropEnd (· == "") (directory.child name) = directory.child name := by
    rw [child_eq, Path.dropEnd, List.reverse_concat, List.dropWhile_cons_of_neg (by simpa using hname.ne_empty),
      ← List.reverse_concat, List.reverse_reverse]
  have hgoal : Path.dropEnd (· == "") (directory.child target) = directory.child target := by
    rw [child_eq, Path.dropEnd, List.reverse_concat, List.dropWhile_cons_of_neg (by simpa using htarget.ne_empty),
      ← List.reverse_concat, List.reverse_reverse]
  have hdiff : place ++ [name] ≠ place ++ [target] := by
    intro heq
    exact hne (List.singleton_inj.1 (List.append_cancel_left heq))
  have hold : ¬ (place ++ [name]).isPrefixOf (place ++ [target]) = true := by
    rw [List.isPrefixOf_iff_prefix]
    exact not_prefix_concat hne
  have hnew : ¬ (place ++ [target]).isPrefixOf (place ++ [name]) = true := by
    rw [List.isPrefixOf_iff_prefix]
    exact not_prefix_concat (Ne.symm hne)
  simp only [rename, hsource, hgoal, hleads.locate_child hname, hleads.locate_child htarget, hleads.resolve_child hname hfile,
    Outcome.ok_bind, endsInSlash_child directory htarget, Bool.false_eq_true, and_false, if_false, hdiff, hold, hnew]
  rcases store.find? (place ++ [target]) with _ | _ | _ <;> rfl

/-- Renaming a file inside a directory: it stands under the new name, the directories are kept, and so are the files beside. -/
theorem rename_child {target : String} (hname : Plain name) (htarget : Plain target) (hne : name ≠ target) {place : Path}
    (hleads : store.Leads directory place) {bytes : Bytes}
    (hfile : ∃ locked, store.find? (place ++ [name]) = some (.file bytes locked))
    (h : store.rename (directory.child name) (directory.child target) = .ok store') :
    store.Keeps store' ∧ (∃ locked, store'.find? (place ++ [target]) = some (.file bytes locked)) ∧
      ∀ other, other ≠ name → other ≠ target → store'.find? (place ++ [other]) = store.find? (place ++ [other]) := by
  obtain ⟨locked, hfile⟩ := hfile
  rw [rename_child_eq hname htarget hne hleads hfile] at h
  split at h
  · exact nomatch h
  rename_i hfree
  cases h
  refine ⟨keeps_move hfile hfree, ⟨locked, ?_⟩, fun other hother hother' => ?_⟩
  · rw [find?_move_target _ (not_prefix_concat hne) (by simp) (by simp), hfile]
  · exact find?_move_of_outside _ (not_prefix_concat (Ne.symm hother)) (not_prefix_concat (Ne.symm hother'))

end FileStore

/-! ## The files of a table -/

theorem plain_descriptorName : FileStore.Plain TablePaths.descriptorName := by
  unfold FileStore.Plain
  decide

theorem plain_dataName : FileStore.Plain TablePaths.dataName := by
  unfold FileStore.Plain
  decide

theorem plain_offsetsName : FileStore.Plain TablePaths.offsetsName := by
  unfold FileStore.Plain
  decide

/-- The name under which a descriptor is written first. -/
def stagedName : String := TablePaths.descriptorName ++ ".tmp"

theorem plain_stagedName : FileStore.Plain stagedName := by
  unfold FileStore.Plain
  decide

/-- The descriptor is staged beside the place where it will stand. -/
theorem staged_child (directory : Path) :
    Descriptor.staged (directory.child TablePaths.descriptorName) = directory.child stagedName := by
  rw [Descriptor.staged, FileStore.child_eq, FileStore.child_eq, List.dropLast_concat, List.getLastD_concat]
  rfl

/-- The files of a table stand in a directory at a place. -/
structure Filed (store : FileStore) (directory place : Path) (data : Bytes) (offsets : Option Bytes) (descriptor : Bytes) :
    Prop where
  leads : store.Leads directory place
  data : ∃ locked, store.find? (place ++ [TablePaths.dataName]) = some (.file data locked)
  offsets : ∀ bytes, offsets = some bytes →
    ∃ locked, store.find? (place ++ [TablePaths.offsetsName]) = some (.file bytes locked)
  descriptor : ∃ locked, store.find? (place ++ [TablePaths.descriptorName]) = some (.file descriptor locked)

namespace FilingAux

open FileStore

variable {κ ν : Type} {store store' : FileStore} {directory : Path}

/-- A path leads to one place. -/
theorem leads_unique {place place' : Path} (h : store.Leads directory place) (h' : store.Leads directory place') :
    place = place' :=
  Except.ok.inj (h.locate.symm.trans h'.locate)

/-- Where the offsets file is written, if it is, the files beside it stay. -/
theorem performAll_offsets {place : Path} (hleads : store.Leads directory place) {offsets : Option Bytes}
    (h : store.performAll ((offsets.map (Build.writing (directory.child TablePaths.offsetsName))).getD []) = (store', .ok ())) :
    store.Keeps store' ∧
      (∀ bytes, offsets = some bytes →
        ∃ locked, store'.find? (place ++ [TablePaths.offsetsName]) = some (.file bytes locked)) ∧
      ∀ name, name ≠ TablePaths.offsetsName → store'.find? (place ++ [name]) = store.find? (place ++ [name]) := by
  cases offsets with
  | none =>
    cases h
    exact ⟨keeps_refl store, nofun, fun _ _ => rfl⟩
  | some bytes =>
    obtain ⟨place', hleads', hwrites⟩ := performAll_writing plain_offsetsName h
    cases leads_unique hleads hleads'
    refine ⟨hwrites.keeps, ?_, fun name hname => hwrites.others _ fun heq => ?_⟩
    · rintro _ ⟨⟩
      exact hwrites.after
    · exact hname (List.singleton_inj.1 (List.append_cancel_left heq))

/-- A descriptor that was stored stands under its name, and the files beside it stay. -/
theorem performAll_storing {place : Path} (hleads : store.Leads directory place) {d : Descriptor κ ν}
    (hpath : d.paths.descriptor = directory.child TablePaths.descriptorName)
    (h : store.performAll d.storing = (store', .ok ())) :
    store.Keeps store' ∧ (∃ locked, store'.find? (place ++ [TablePaths.descriptorName]) = some (.file d.encode locked)) ∧
      ∀ name, name ≠ TablePaths.descriptorName → name ≠ stagedName →
        store'.find? (place ++ [name]) = store.find? (place ++ [name]) := by
  rw [Descriptor.storing, hpath, staged_child] at h
  obtain ⟨place', between, hleads', hwrites, h⟩ := performAll_creating plain_stagedName h
  cases leads_unique hleads hleads'
  have hbetween := hleads.keeps hwrites.keeps
  rw [performAll_cons] at h
  obtain ⟨renamed, hrename, h⟩ := h
  rw [perform, lift, Outcome.mapError_eq_ok] at hrename
  obtain ⟨hkeeps, hfile, hbeside⟩ :=
    rename_child plain_stagedName plain_descriptorName (by decide) hbetween hwrites.after hrename
  rw [performAll_cons] at h
  obtain ⟨locked, hlock, hdone⟩ := h
  rw [perform, lift, Outcome.mapError_eq_ok] at hlock
  cases hdone
  have hlocked := lock_child plain_descriptorName (hbetween.keeps hkeeps) hfile hlock
  refine ⟨(hwrites.keeps.trans hkeeps).trans hlocked.keeps, hlocked.after, fun name hname hstaged => ?_⟩
  rw [hlocked.others, hbeside name hstaged hname, hwrites.others]
  · exact fun heq => hstaged (List.singleton_inj.1 (List.append_cancel_left heq))
  · exact fun heq => hname (List.singleton_inj.1 (List.append_cancel_left heq))

end FilingAux

/-- After all operations of a build, the files of the table stand in its directory. -/
theorem filed_of_performAll {κ ν : Type} {store store' : FileStore} {directory : Path} {data : Bytes} {offsets : Option Bytes}
    {d : Descriptor κ ν} (hpaths : d.paths = TablePaths.inDirectory directory)
    (h : store.performAll (Build.preparing directory ++ Build.writing (TablePaths.inDirectory directory).data data ++
      (offsets.map (Build.writing (TablePaths.inDirectory directory).offsets)).getD [] ++ d.storing) = (store', .ok ())) :
    ∃ place, Filed store' directory place data offsets d.encode := by
  simp only [FileStore.performAll_append] at h
  obtain ⟨stored, ⟨written, ⟨prepared, -, hdata⟩, hoffsets⟩, hdescriptor⟩ := h
  obtain ⟨place, hleads, hwrites⟩ := FileStore.performAll_writing plain_dataName hdata
  have hwritten := hleads.keeps hwrites.keeps
  obtain ⟨hkeeps, hoffset, hbeside⟩ := FilingAux.performAll_offsets hwritten hoffsets
  obtain ⟨hkeeps', hfile, hbeside'⟩ :=
    FilingAux.performAll_storing (hwritten.keeps hkeeps) (by rw [hpaths]; rfl) hdescriptor
  obtain ⟨locked, hlocked⟩ := hwrites.after
  refine ⟨place, (hwritten.keeps hkeeps).keeps hkeeps', ⟨locked, ?_⟩, fun bytes hbytes => ?_, hfile⟩
  · rw [hbeside' _ (by decide) (by decide), hbeside _ (by decide), hlocked]
  · rw [hbeside' _ (by decide) (by decide)]
    exact hoffset bytes hbytes

end FrozenTable
