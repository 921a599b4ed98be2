import FrozenTable.Lookup.Audit
import FrozenTable.PerfectHash.Ordered
import FrozenTable.Resident.Image
import FrozenTable.Sharing

/-!
# Sessions

A session works with tables by name: it opens them from a store of files, keeps copies of shared ones, and puts tables, maps
and descriptors away under names of its choice. A name that is given away again lets go of what it stood for.
-/

namespace FrozenTable

/-- What a name of a session stands for. -/
inductive Holding (κ ν : Type) where
  | reader (table : Table κ ν)
  /-- A copy of a shared table. -/
  | copy (id : ReaderId)
  | slot (slot : Slot)
  | map (map : ResidentMap κ ν)
  | descriptor (descriptor : Descriptor κ ν)

/-- Names and what they stand for. -/
structure Session (κ ν : Type) where
  store : FileStore
  holdings : List (String × Holding κ ν)
  /-- The shared tables. -/
  pool : Pool (Table κ ν)
  /-- Images of maps. -/
  images : List (String × Bytes)

/-- Why a session cannot do what it was asked for. -/
inductive SessionFault where
  /-- A name stands for nothing, or for something else. -/
  | unknown
  | cause (fault : Fault)
deriving DecidableEq, Repr

namespace Session

variable {κ ν : Type}

/-- A session with an empty directory. -/
def start (root : Path) : Session κ ν :=
  ⟨.rooted root, [], .empty, []⟩

/-- A result of the library as one of a session. -/
def lift {α : Type} (result : Except Fault α) : Except SessionFault α :=
  result.mapError .cause

/-- What a name has to stand for. -/
def need {α : Type} : Option α → Except SessionFault α
  | some x => .ok x
  | none => .error .unknown

/-- What a name stands for. -/
def holding? (s : Session κ ν) (name : String) : Option (Holding κ ν) :=
  s.holdings.lookup name

/-- Lets a name go, and with it a copy or a slot's hold on its table. -/
def forget (s : Session κ ν) (name : String) : Session κ ν :=
  let pool := match s.holding? name with
    | some (.copy id) => s.pool.release id
    | some (.slot slot) => (slot.close s.pool).1
    | _ => s.pool
  { s with holdings := s.holdings.filter fun entry => entry.1 ≠ name, pool }

/-- Exchanges what a name stands for, and lets nothing go. -/
def revise (s : Session κ ν) (name : String) (holding : Holding κ ν) : Session κ ν :=
  { s with holdings := (name, holding) :: s.holdings.filter fun entry => entry.1 ≠ name }

/-- Gives a name to something. -/
def keep (s : Session κ ν) (name : String) (holding : Holding κ ν) : Session κ ν :=
  (s.forget name).revise name holding

/-- The session with another pool. -/
def withPool (s : Session κ ν) (pool : Pool (Table κ ν)) : Session κ ν :=
  { s with pool }

/-- Gives a name to a result, unless it is a fault. -/
def keepResult (s : Session κ ν) (name : String) (result : Except Fault (Holding κ ν)) :
    Session κ ν × Except SessionFault Unit :=
  match result with
  | .ok holding => (s.keep name holding, .ok ())
  | .error fault => (s, .error (.cause fault))

/-- The table that a name leads to: its own, that of a map, or a shared one. -/
def table (s : Session κ ν) (name : String) : Except SessionFault (Table κ ν) := do
  match ← need (s.holding? name) with
  | .reader table => pure table
  | .map map => pure map.table
  | .copy id => need (s.pool.reader? id)
  | .slot slot => match slot.current with
    | some id => need (s.pool.reader? id)
    | none => throw (.cause .handleClosed)
  | .descriptor _ => throw .unknown

/-- The table that a name leads to, unless the name stands for a slot: a slot answers lookups and no more. -/
def heldTable (s : Session κ ν) (name : String) : Except SessionFault (Table κ ν) :=
  match s.holding? name with
  | some (.slot _) => .error .unknown
  | _ => s.table name

/-- Puts the table back that a name leads to. -/
def putTable (s : Session κ ν) (name : String) (table : Table κ ν) : Session κ ν :=
  match s.holding? name with
  | some (.reader _) => s.revise name (.reader table)
  | some (.map _) => s.revise name (.map ⟨table⟩)
  | some (.copy id) => s.withPool (s.pool.put id table)
  | some (.slot ⟨some id⟩) => s.withPool (s.pool.put id table)
  | _ => s

/-- Uses the table that a name leads to. -/
def use {α : Type} (s : Session κ ν) (name : String) (act : Table κ ν → Table κ ν × Except Fault α) :
    Session κ ν × Except SessionFault α :=
  match s.table name with
  | .error fault => (s, .error fault)
  | .ok table =>
    let (table, result) := act table
    (s.putTable name table, lift result)

/-- Audits the table that a name leads to. In a slot that was emptied all lookups fail. -/
def audit [Ord κ] [DecidableEq ν] (s : Session κ ν) (name : String) (entries : List (Entry κ ν)) :
    Session κ ν × Except SessionFault Audit :=
  match s.table name with
  | .error .unknown => (s, .error .unknown)
  | .error (.cause _) => (s, .ok (.failing entries.length))
  | .ok table =>
    let (table, audit) := Audit.run table entries
    (s.putTable name table, lift audit)

/-- The descriptor that a name leads to. -/
def descriptor (s : Session κ ν) (name : String) : Except SessionFault (Descriptor κ ν) := do
  match ← need (s.holding? name) with
  | .descriptor d => pure d
  | .reader table => pure table.descriptor
  | .copy id => pure (← need (s.pool.reader? id)).descriptor
  | _ => throw .unknown

/-- The map that a name stands for. -/
def map (s : Session κ ν) (name : String) : Except SessionFault (ResidentMap κ ν) :=
  match s.holding? name with
  | some (.map map) => .ok map
  | _ => .error .unknown

/-- Performs operations on the files. -/
def perform (s : Session κ ν) (operations : List FileOperation) : Session κ ν × Except SessionFault Unit :=
  let (store, result) := s.store.performAll operations
  ({ s with store }, lift result)

/-- Changes the files. -/
def onStore (s : Session κ ν) (change : FileStore → Except FileFault FileStore) : Session κ ν × Except SessionFault Unit :=
  match change s.store with
  | .ok store => ({ s with store }, .ok ())
  | .error fault => (s, .error (.cause (.file fault)))

/-- Writes a descriptor to its file. -/
def storeDescriptor (s : Session κ ν) (name : String) : Session κ ν × Except SessionFault Unit :=
  match s.holding? name with
  | some (.descriptor d) => s.perform d.storing
  | _ => (s, .error .unknown)

/-- Makes a slot for a table. -/
def keepShared (s : Session κ ν) (name : String) (table : Table κ ν) : Session κ ν :=
  let (pool, slot) := Slot.new s.pool table
  (s.withPool pool).keep name (.slot slot)

/-- Opens a table and makes a slot for it. -/
def shareOpened [DecidableEq κ] (s : Session κ ν) (finder : CodecFinder κ ν) (name : String) (path : Path) :
    Session κ ν × Except SessionFault Unit :=
  match Table.openAt finder s.store path {} with
  | .ok table => (s.keepShared name table, .ok ())
  | .error fault => (s, .error (.cause fault))

/-- Makes a slot for the table that a name stands for, which gives the table away. -/
def share (s : Session κ ν) (source name : String) : Session κ ν × Except SessionFault Unit :=
  match s.holding? source with
  | some (.reader table) => ((s.forget source).keepShared name table, .ok ())
  | _ => (s, .error .unknown)

/-- Keeps a copy of the table of a slot, if it has one. -/
def copy (s : Session κ ν) (source name : String) : Session κ ν × Except SessionFault Bool :=
  match s.holding? source with
  | some (.slot slot) =>
    match slot.copy s.pool with
    | (pool, some id) => ((s.withPool pool).keep name (.copy id), .ok true)
    | (_, none) => (s, .ok false)
  | _ => (s, .error .unknown)

/-- Gives a slot the table that another name stands for. The table that the slot had is kept under a third name, if there is
one, and let go otherwise. -/
def swap (s : Session κ ν) (target source : String) (name : Option String) : Session κ ν × Except SessionFault Bool :=
  match s.holding? target, s.holding? source with
  | some (.slot slot), some (.reader table) =>
    let s := s.forget source
    let (pool, slot, previous) := slot.swap s.pool table
    let s := (s.withPool pool).revise target (.slot slot)
    let s := match previous, name with
      | some id, some name => s.keep name (.copy id)
      | some id, none => s.withPool (s.pool.release id)
      | none, _ => s
    (s, .ok previous.isSome)
  | _, _ => (s, .error .unknown)

/-- Closes a table, or empties a slot. -/
def close (s : Session κ ν) (name : String) : Session κ ν × Except SessionFault Unit :=
  match s.holding? name with
  | some (.reader table) => (s.revise name (.reader table.close), .ok ())
  | some (.slot slot) =>
    let (pool, slot) := slot.close s.pool
    ((s.withPool pool).revise name (.slot slot), .ok ())
  | _ => (s, .error .unknown)

/-- Lets a name go and tells whether it stood for anything. -/
def drop (s : Session κ ν) (name : String) : Session κ ν × Bool :=
  (s.forget name, (s.holding? name).isSome)

/-- Keeps the image of a map. -/
def keepImage (s : Session κ ν) (source name : String) : Session κ ν × Except SessionFault Bytes :=
  match s.map source >>= fun map => lift map.encode with
  | .ok bytes => ({ s with images := (name, bytes) :: s.images }, .ok bytes)
  | .error fault => (s, .error fault)

end Session

end FrozenTable
