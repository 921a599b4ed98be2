import FrozenTable.Fault
import FrozenTable.Files.Path

/-!
# A store of files

Directories and files by their places. A place is a path of plain names; following any other path through the directories of
the store leads to a place, or to a fault. A file has its bytes and may be locked against writing, which those who replace it
are free to ignore.
-/

namespace FrozenTable

/-- What stands at a place. -/
inductive FileNode where
  | directory
  | file (bytes : Bytes) (locked : Bool)
deriving DecidableEq, Repr

/-- Files and directories by their places. -/
structure FileStore where
  nodes : List (Path × FileNode)
deriving Repr

namespace FileStore

/-- The store that holds one empty directory. -/
def rooted (root : Path) : FileStore :=
  ⟨[(root, .directory)]⟩

/-- What stands at a place. Around all places there is a directory. -/
def find? (store : FileStore) (place : Path) : Option FileNode :=
  if place = [] then some .directory else store.nodes.lookup place

/-- The store with nothing at a place. -/
def erase (store : FileStore) (place : Path) : FileStore :=
  ⟨store.nodes.filter fun entry => entry.1 != place⟩

/-- The store with something else at a place. -/
def put (store : FileStore) (place : Path) (node : FileNode) : FileStore :=
  ⟨(place, node) :: (store.erase place).nodes⟩

/-- The place to which names lead from another place. Every name but the last has to lead to a directory. -/
def walk (store : FileStore) : (place : Path) → (names : Path) → Except FileFault Path
  | place, [] => .ok place
  | place, name :: names =>
    match store.find? place with
    | some .directory => store.walk (Path.follow place name) names
    | some (.file ..) => .error .notADirectory
    | none => .error .notFound

/-- The place to which a path leads. -/
def locate (store : FileStore) (path : Path) : Except FileFault Path :=
  store.walk [] path

/-- The place to which a path leads, and what stands there. -/
def resolve (store : FileStore) (path : Path) : Except FileFault (Path × FileNode) := do
  let place ← store.locate path
  match store.find? place with
  | some node => pure (place, node)
  | none => throw .notFound

/-- Whether a path leads to a directory. -/
def isDirectory (store : FileStore) (path : Path) : Bool :=
  match store.resolve path with
  | .ok (_, .directory) => true
  | _ => false

/-- Fails unless something can be put into the directory at a path. -/
def needDirectory (store : FileStore) (path : Path) : Except FileFault Unit := do
  let _ ← store.locate (path ++ [""])

/-- The size that is told for a directory. -/
def directorySize : Nat := 4096

/-- The size that is told for what a path leads to. -/
def sizeAt (store : FileStore) (path : Path) : Except FileFault Nat := do
  match ← store.resolve path with
  | (_, .file bytes _) => pure bytes.length
  | (_, .directory) => pure directorySize

/-- The bytes of a file. -/
def read (store : FileStore) (path : Path) : Except FileFault Bytes := do
  match ← store.resolve path with
  | (_, .file bytes _) => pure bytes
  | (_, .directory) => throw .isADirectory

/-- An empty file at a path, in place of the one there; the lock of that one stays. -/
def create (store : FileStore) (path : Path) : Except FileFault FileStore := do
  if Path.endsInSlash path then
    store.needDirectory (Path.dropEnd (· == "") path).dropLast
    throw .isADirectory
  let place ← store.locate path
  match store.find? place with
  | some (.file _ locked) => pure (store.put place (.file [] locked))
  | some .directory => throw .isADirectory
  | none => pure (store.put place (.file [] false))

/-- More bytes at the end of a file. -/
def append (store : FileStore) (path : Path) (more : Bytes) : Except FileFault FileStore := do
  match ← store.resolve path with
  | (place, .file bytes locked) => pure (store.put place (.file (bytes ++ more) locked))
  | (_, .directory) => throw .isADirectory

/-- Locks a file against writing. -/
def lock (store : FileStore) (path : Path) : Except FileFault FileStore := do
  match ← store.resolve path with
  | (place, .file bytes _) => pure (store.put place (.file bytes true))
  | (_, .directory) => pure store

/-- Removes a file. -/
def remove (store : FileStore) (path : Path) : Except FileFault FileStore := do
  match ← store.resolve path with
  | (place, .file ..) => pure (store.erase place)
  | (_, .directory) => throw .isADirectory

/-- Makes the directory at a path, where nothing stands, inside another one. -/
def makeDirectory (store : FileStore) (path : Path) : Except FileFault FileStore := do
  let place ← store.locate (Path.dropEnd (· == "") path)
  if (store.find? place).isSome then throw .alreadyExists
  pure (store.put place .directory)

/-- Makes sure that a directory stands at a path, by making it if its making does not fail. -/
def ensureDirectory (store : FileStore) (path : Path) : Except FileFault FileStore :=
  match store.makeDirectory path with
  | .error fault => if store.isDirectory path then .ok store else .error fault
  | made => made

/-- Makes the first of some directories, each of which is around the one before it, and those of the others that this takes. -/
def makeNested (store : FileStore) : List Path → Except FileFault FileStore
  | [] => .ok store
  | path :: outer =>
    match store.ensureDirectory path with
    | .error .notFound => do
      let store ← store.makeNested outer
      store.ensureDirectory path
    | result => result

/-- Makes the directory at a path and all directories around it. -/
def makeDirectories (store : FileStore) (path : Path) : Except FileFault FileStore :=
  store.makeNested (Path.ancestors path)

/-- The names of what stands in a directory. -/
def list (store : FileStore) (path : Path) : Except FileFault (List (String × FileNode)) := do
  match ← store.resolve path with
  | (_, .file ..) => throw .notADirectory
  | (place, .directory) => pure (store.nodes.filterMap fun (inner, node) =>
      match inner.getLast? with
      | some name => if inner.dropLast = place then some (name, node) else none
      | none => none)

/-- A place with its front exchanged. -/
def moved (source target place : Path) : Path :=
  if source.isPrefixOf place then target ++ place.drop source.length else place

/-- Everything at and inside the place `source` moved to the place `target`. -/
def move (store : FileStore) (source target : Path) : FileStore :=
  ⟨(store.erase target).nodes.map fun (place, node) => (moved source target place, node)⟩

/-- What stands at `source` moved to `target`, in place of what stands there; to move it onto itself changes nothing. A
directory cannot go into itself, and it makes way for another one only if it is empty. -/
def rename (store : FileStore) (source target : Path) : Except FileFault FileStore := do
  let _ ← store.locate (Path.dropEnd (· == "") source)
  let new ← store.locate (Path.dropEnd (· == "") target)
  let (old, node) ← store.resolve source
  if node ≠ .directory ∧ Path.endsInSlash target then throw .notADirectory
  if old = new then return store
  if old.isPrefixOf new then throw .invalidPath
  if new.isPrefixOf old then throw .directoryNotEmpty
  match node, store.find? new with
  | .file .., some .directory => throw .isADirectory
  | .directory, some (.file ..) => throw .notADirectory
  | .directory, some .directory =>
    if store.nodes.any fun (place, _) => place.dropLast == new && place != new then throw .directoryNotEmpty
    else pure (store.move old new)
  | _, _ => pure (store.move old new)

/-- A file is found where it was put. -/
theorem find?_put {place : Path} (store : FileStore) (node : FileNode) (h : place ≠ []) :
    (store.put place node).find? place = some node := by
  simp [find?, put, h]

end FileStore

end FrozenTable
