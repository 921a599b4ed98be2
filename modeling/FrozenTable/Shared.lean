import FrozenTable.Lookup.Request
import FrozenTable.Sharing

/-!
# Shared tables

The handle of a shared table is a slot, and the copies that it gave away are in the hands of others. They ask, copy, exchange,
close and drop in any order.
-/

namespace FrozenTable

/-- The handle of a shared table and the copies in the hands of others. -/
structure Shared (κ ν : Type) where
  pool : Pool (Table κ ν)
  handle : Slot
  /-- What was given away, in this order: none where there was nothing to give, and in place of what was dropped. -/
  copies : List (Option ReaderId)

namespace Shared

variable {κ ν : Type} [Ord κ]

/-- What is done with a shared table by those who share it. -/
inductive Operation (κ ν : Type) where
  | ask (q : Question κ)
  | copy
  /-- Asks the copy that was given away as the n-th. -/
  | askCopy (n : Nat) (q : Question κ)
  | swap (reader : Table κ ν)
  | close
  | drop (n : Nat)

/-- The handle of a reader. -/
def new (reader : Table κ ν) : Shared κ ν :=
  let (pool, handle) := Slot.new .empty reader
  ⟨pool, handle, []⟩

/-- Asks through the handle. -/
def ask (s : Shared κ ν) (q : Question κ) : Shared κ ν × Except Fault (Option (Told κ ν)) :=
  let (pool, told) := s.handle.use s.pool (Table.tell · q)
  ({ s with pool }, told)

/-- Gives a copy away. -/
def copy (s : Shared κ ν) : Shared κ ν × Option ReaderId :=
  let (pool, given) := s.handle.copy s.pool
  ({ s with pool, copies := s.copies ++ [given] }, given)

/-- Asks a copy, if it was not dropped. -/
def askCopy (s : Shared κ ν) (n : Nat) (q : Question κ) : Shared κ ν × Option (Told κ ν) :=
  match s.copies[n]? with
  | some (some id) =>
    let (pool, told) := s.pool.use id (Table.tell · q)
    ({ s with pool }, told)
  | _ => (s, none)

/-- Gives the handle another reader, and gives the one away that it had. -/
def swap (s : Shared κ ν) (reader : Table κ ν) : Shared κ ν × Option ReaderId :=
  let (pool, handle, previous) := s.handle.swap s.pool reader
  (⟨pool, handle, s.copies ++ [previous]⟩, previous)

/-- Closes the handle. Copies live on. -/
def close (s : Shared κ ν) : Shared κ ν :=
  let (pool, handle) := s.handle.close s.pool
  { s with pool, handle }

/-- Lets a copy go. -/
def drop (s : Shared κ ν) (n : Nat) : Shared κ ν :=
  match s.copies[n]? with
  | some (some id) => { s with pool := s.pool.release id, copies := s.copies.set n none }
  | _ => s

/-- What becomes of a shared table by one operation. -/
def act (s : Shared κ ν) : Operation κ ν → Shared κ ν
  | .ask q => (s.ask q).1
  | .copy => s.copy.1
  | .askCopy n q => (s.askCopy n q).1
  | .swap reader => (s.swap reader).1
  | .close => s.close
  | .drop n => s.drop n

end Shared

end FrozenTable
