import FrozenTable.Fault

/-!
# Sharing readers

Readers that several holders keep at once. A pool counts the holders of each reader and releases a reader when its last holder
lets go of it. A slot is one holder that can be given another reader, or emptied, while copies of its reader live on.
-/

namespace FrozenTable

/-- The name of a reader in a pool. -/
structure ReaderId where
  number : Nat
deriving DecidableEq, Repr

/-- A reader and how many hold it. -/
structure Held (ρ : Type) where
  reader : ρ
  holders : Nat
deriving Repr

/-- The readers that someone holds. -/
structure Pool (ρ : Type) where
  readers : List (ReaderId × Held ρ)
  /-- The number of the next reader that comes in. -/
  next : Nat
  /-- The readers that were released, the last one first. -/
  released : List ReaderId

namespace Pool

variable {ρ α : Type}

def empty : Pool ρ :=
  ⟨[], 0, []⟩

/-- The entry of a reader that someone holds. -/
def held? (p : Pool ρ) (id : ReaderId) : Option (Held ρ) :=
  p.readers.lookup id

/-- A reader that someone holds. -/
def reader? (p : Pool ρ) (id : ReaderId) : Option ρ :=
  (p.held? id).map Held.reader

/-- The pool with the entry of a reader changed. -/
def update (p : Pool ρ) (id : ReaderId) (f : Held ρ → Held ρ) : Pool ρ :=
  { p with readers := p.readers.map fun entry => if entry.1 = id then (entry.1, f entry.2) else entry }

/-- Takes in a reader with one holder. -/
def adopt (p : Pool ρ) (reader : ρ) : Pool ρ × ReaderId :=
  let id := ⟨p.next⟩
  ({ p with readers := (id, ⟨reader, 1⟩) :: p.readers, next := p.next + 1 }, id)

/-- One more holder of a reader. -/
def retain (p : Pool ρ) (id : ReaderId) : Pool ρ :=
  p.update id fun held => { held with holders := held.holders + 1 }

/-- One holder less of a reader; the reader is released with its last holder. -/
def release (p : Pool ρ) (id : ReaderId) : Pool ρ :=
  match p.held? id with
  | none => p
  | some held =>
    if held.holders ≤ 1 then
      { p with readers := p.readers.filter fun entry => entry.1 ≠ id, released := id :: p.released }
    else p.update id fun held => { held with holders := held.holders - 1 }

/-- The pool with a reader replaced by what became of it in use. -/
def put (p : Pool ρ) (id : ReaderId) (reader : ρ) : Pool ρ :=
  p.update id fun held => { held with reader }

/-- Uses a reader, unless nobody holds it any more. -/
def use (p : Pool ρ) (id : ReaderId) (act : ρ → ρ × α) : Pool ρ × Option α :=
  match p.reader? id with
  | some reader => (p.put id (act reader).1, some (act reader).2)
  | none => (p, none)

end Pool

/-- A holder that can be given another reader. -/
structure Slot where
  /-- None once the slot is emptied. -/
  current : Option ReaderId
deriving DecidableEq, Repr

namespace Slot

variable {ρ α : Type}

/-- A slot with a reader. -/
def new (p : Pool ρ) (reader : ρ) : Pool ρ × Slot :=
  let (p, id) := p.adopt reader
  (p, ⟨some id⟩)

/-- One more holder of the reader of a slot. -/
def copy (p : Pool ρ) (slot : Slot) : Pool ρ × Option ReaderId :=
  match slot.current with
  | some id => (p.retain id, some id)
  | none => (p, none)

/-- Gives a slot another reader. What the slot held passes to the caller. -/
def swap (p : Pool ρ) (slot : Slot) (reader : ρ) : Pool ρ × Slot × Option ReaderId :=
  let (p, id) := p.adopt reader
  (p, ⟨some id⟩, slot.current)

/-- Empties a slot. -/
def close (p : Pool ρ) (slot : Slot) : Pool ρ × Slot :=
  match slot.current with
  | some id => (p.release id, ⟨none⟩)
  | none => (p, slot)

/-- Uses the reader of a slot, which is held while it is used. Others can come in between and empty the slot or give it another
reader. -/
def use (p : Pool ρ) (slot : Slot) (act : ρ → ρ × α) : Pool ρ × Except Fault (Option α) :=
  match slot.copy p with
  | (p, none) => (p, .error .handleClosed)
  | (p, some id) => ((p.use id act).1.release id, .ok (p.use id act).2)

end Slot

end FrozenTable
