import FrozenTable.Files.Store

/-!
# Operations on files

What a build does to the outside world is a list of operations, which is performed in order up to the first one that fails.
-/

namespace FrozenTable

/-- An operation on a store of files. -/
inductive FileOperation where
  /-- Makes sure that a directory stands at a path. -/
  | ensureDirectory (path : Path)
  /-- Removes a file, if it is there. -/
  | discard (path : Path)
  | create (path : Path)
  | append (path : Path) (bytes : Bytes)
  | lock (path : Path)
  | rename (source target : Path)
deriving DecidableEq, Repr

namespace FileStore

/-- A fault of the store as a cause of failure. -/
def lift {α : Type} (result : Except FileFault α) : Except Fault α :=
  result.mapError .file

/-- The store after an operation. -/
def perform (store : FileStore) : FileOperation → Except Fault FileStore
  | .ensureDirectory path =>
    match store.resolve path with
    | .ok (_, .file ..) => .error (.outputNotDirectory path.text)
    | _ => lift (store.makeDirectories path)
  | .discard path =>
    match store.remove path with
    | .error .notFound => .ok store
    | result => lift result
  | .create path => lift (store.create path)
  | .append path bytes => lift (store.append path bytes)
  | .lock path => lift (store.lock path)
  | .rename source target => lift (store.rename source target)

/-- The store after operations up to the first that fails, and the fault of that one. -/
def performAll (store : FileStore) : List FileOperation → FileStore × Except Fault Unit
  | [] => (store, .ok ())
  | operation :: operations =>
    match store.perform operation with
    | .ok store => store.performAll operations
    | .error fault => (store, .error fault)

end FileStore

end FrozenTable
