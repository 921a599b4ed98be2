import FrozenTable.Proofs.Lemmas.Histories

/-!
# A session that hosts a shared table

In a session the handle of a shared table, its copies and the readers that it is given have names. Whatever is done with them by
their names, the session comes to hold what the history of the handle says, and it answers what the handle and the copies
answer.
-/

namespace FrozenTable.Session

variable {κ ν : Type}

/-- A name stands for what it was given last, and the others for what they did. -/
theorem holding?_revise (s : Session κ ν) (name : String) (holding : Holding κ ν) (other : String) :
    (s.revise name holding).holding? other = if other = name then some holding else s.holding? other := by
  refine (lookup_cons_eq_ite name other holding _).trans ?_
  rw [lookup_filter_eq_ite]
  split <;> rfl

/-- A name that was let go stands for nothing. -/
theorem holding?_forget (s : Session κ ν) (name other : String) :
    (s.forget name).holding? other = if other = name then none else s.holding? other :=
  lookup_filter_eq_ite s.holdings name other

/-- A name that is given away again stands for the new thing alone. -/
theorem holding?_keep (s : Session κ ν) (name : String) (holding : Holding κ ν) (other : String) :
    (s.keep name holding).holding? other = if other = name then some holding else s.holding? other := by
  rw [keep, holding?_revise, holding?_forget]
  split <;> rfl

/-- Letting a name go that stands for nothing lets nothing go. -/
theorem pool_forget_of_none {s : Session κ ν} {name : String} (h : s.holding? name = none) : (s.forget name).pool = s.pool := by
  unfold forget
  rw [h]

/-- A name that stood for nothing holds no reader that it could let go. -/
theorem pool_keep_of_none {s : Session κ ν} {name : String} (h : s.holding? name = none) (holding : Holding κ ν) :
    (s.keep name holding).pool = s.pool :=
  pool_forget_of_none h

/-- A copy is used by putting its reader back. -/
theorem use_copy {α : Type} {s : Session κ ν} {name : String} {id : ReaderId} {held : Held (Table κ ν)}
    (hname : s.holding? name = some (.copy id)) (hheld : s.pool.held? id = some held)
    (act : Table κ ν → Table κ ν × Except Fault α) :
    s.use name act = (s.withPool (s.pool.put id (act held.reader).1), lift (act held.reader).2) := by
  have htable : s.table name = .ok held.reader := by
    rw [table, hname]
    show need (s.pool.reader? id) = _
    rw [Pool.reader?, hheld]
    rfl
  rw [use, htable]
  dsimp only
  rw [putTable, hname]

/-! ## Names -/

/-- What is given away stands behind what was given away before. -/
theorem join_getElem?_concat {α : Type} (copies : List (Option α)) (given : Option α) (n : Nat) :
    (copies ++ [given])[n]?.join = if n = copies.length then given else copies[n]?.join := by
  by_cases hn : n = copies.length
  · rw [if_pos hn, hn, List.getElem?_concat_length]
    rfl
  · rw [if_neg hn, List.getElem?_append]
    split
    case isTrue => rfl
    case isFalse hlt =>
      rw [List.getElem?_eq_none (Nat.le_of_not_lt hlt), List.getElem?_eq_none]
      rw [List.length_singleton]
      omega

/-- What was dropped leaves an empty place. -/
theorem join_getElem?_set_none {α : Type} (copies : List (Option α)) (n m : Nat) :
    (copies.set n none)[m]?.join = if m = n then none else copies[m]?.join := by
  rw [List.getElem?_set]
  by_cases hm : m = n
  · rw [if_pos hm, if_pos hm.symm]
    split <;> rfl
  · rw [if_neg hm, if_neg (Ne.symm hm)]

/-- The names of a shared table in a session. -/
structure Names where
  handle : String
  /-- For a reader before the handle is given it. -/
  incoming : String
  /-- For what is given away. -/
  copy : Nat → String
  incoming_ne : incoming ≠ handle
  copy_ne : ∀ n, copy n ≠ handle
  copy_ne_incoming : ∀ n, copy n ≠ incoming
  copy_injective : ∀ n m, copy n = copy m → n = m

/-- Copies told apart by the lengths of their names. -/
instance : Inhabited Names where
  default :=
    { handle := "handle"
      incoming := "incoming"
      copy n := String.ofList (List.replicate n 'c')
      incoming_ne := by decide
      copy_ne n h := by
        have hmem : 'h' ∈ List.replicate n 'c' := String.ofList_injective h ▸ List.mem_cons_self
        exact absurd (List.eq_of_mem_replicate hmem) (by decide)
      copy_ne_incoming n h := by
        have hmem : 'i' ∈ List.replicate n 'c' := String.ofList_injective h ▸ List.mem_cons_self
        exact absurd (List.eq_of_mem_replicate hmem) (by decide)
      copy_injective n m h := by
        have hlength := congrArg List.length (String.ofList_injective h)
        rwa [List.length_replicate, List.length_replicate] at hlength }

variable [Ord κ]

/-- A question as a use of a table. -/
def asking (q : Question κ) (t : Table κ ν) : Table κ ν × Except Fault (Told κ ν) :=
  ((t.tell q).1, .ok (t.tell q).2)

/-- What a session does for an operation on a shared table, when some have been given away. -/
def carryOut (s : Session κ ν) (names : Names) (given : Nat) : Shared.Operation κ ν → Session κ ν
  | .ask q => (s.use names.handle (asking q)).1
  | .copy => (s.copy names.handle (names.copy given)).1
  | .askCopy n q => (s.use (names.copy n) (asking q)).1
  | .swap reader => ((s.keep names.incoming (.reader reader)).swap names.handle names.incoming (names.copy given)).1
  | .close => (s.close names.handle).1
  | .drop n => (s.drop (names.copy n)).1

/-- The session in which a shared table has its history. -/
def host (root : Path) (names : Names) : Shared.History κ ν → Session κ ν
  | .new reader => (start root).keepShared names.handle reader
  | .step past operation => (host root names past).carryOut names past.copies.length operation

/-- Gives a name to what was given away, if anything was. -/
def receive (s : Session κ ν) (name : String) : Option ReaderId → Session κ ν
  | some id => s.keep name (.copy id)
  | none => s

omit [Ord κ] in
/-- A free name stands for the copy that it receives, if it receives one. -/
theorem holding?_receive {s : Session κ ν} {name : String} (hfree : s.holding? name = none) (given : Option ReaderId)
    (other : String) :
    (s.receive name given).holding? other = if other = name then given.map .copy else s.holding? other := by
  cases given with
  | none =>
    split
    case isTrue h => exact h ▸ hfree
    case isFalse => rfl
  | some id => exact holding?_keep s name (.copy id) other

omit [Ord κ] in
/-- Receiving a copy under a free name moves no count. -/
theorem pool_receive {s : Session κ ν} {name : String} (hfree : s.holding? name = none) (given : Option ReaderId) :
    (s.receive name given).pool = s.pool := by
  cases given with
  | none => rfl
  | some id => exact pool_keep_of_none hfree _

omit [Ord κ] in
/-- Exchanging the reader of a slot is taking the new one in and receiving the old one. -/
theorem swap_eq_receive {s : Session κ ν} {target source : String} {slot : Slot} {reader : Table κ ν}
    (htarget : s.holding? target = some (.slot slot)) (hsource : s.holding? source = some (.reader reader)) (name : String) :
    (s.swap target source name).1 =
      (((s.forget source).withPool (s.pool.adopt reader).1).revise target (.slot ⟨some ⟨s.pool.next⟩⟩)).receive name
        slot.current := by
  have hpool : (s.forget source).pool = s.pool := by rw [forget, hsource]
  rw [swap, htarget, hsource]
  dsimp only [Slot.swap]
  rw [hpool]
  cases slot.current <;> rfl

/-- A session that holds what a history says. -/
structure Shows (names : Names) (h : Shared.History κ ν) (s : Session κ ν) : Prop where
  pool : s.pool = h.shared.pool
  handle : s.holding? names.handle = some (.slot ⟨h.current⟩)
  copies : ∀ n, s.holding? (names.copy n) = h.copies[n]?.join.map .copy
  incoming : s.holding? names.incoming = none

namespace Shows

variable {names : Names} {h : Shared.History κ ν} {s : Session κ ν}

/-- A question to the handle, by its name, is one to the handle. -/
theorem use_handle (hs : Shows names h s) (q : Question κ) :
    s.use names.handle (asking q) = (s.withPool (h.shared.ask q).1.pool, lift (h.shared.ask q).2 >>= need) := by
  have hheld : ∀ id, h.current = some id → ∃ held, s.pool.held? id = some held ∧ 0 < held.holders := by
    intro id hcurrent
    obtain ⟨t, -, hheld, hholders⟩ := h.follows.exists_held (List.mem_cons.2 (.inl hcurrent.symm))
    exact ⟨_, hs.pool ▸ hheld, hholders⟩
  rw [use_eq_use_slot hs.handle hheld, Shared.ask, h.follows.handle, hs.pool]
  cases hcurrent : h.current with
  | none => rfl
  | some id =>
    obtain ⟨held, hheld, hholders⟩ := hheld id hcurrent
    rw [hs.pool] at hheld
    rw [Slot.use_eq_put hheld hholders, Slot.use_eq_put hheld hholders]
    rfl

/-- A question to a copy, by its name, is one to the copy. -/
theorem use_copy (hs : Shows names h s) {n : Nat} {id : ReaderId} (hcopy : h.copies[n]? = some (some id)) (q : Question κ) :
    s.use (names.copy n) (asking q) = (s.withPool (h.shared.askCopy n q).1.pool, need (h.shared.askCopy n q).2) := by
  have hname : s.holding? (names.copy n) = some (.copy id) := by
    rw [hs.copies, hcopy]
    rfl
  obtain ⟨t, -, hheld, -⟩ := h.follows.exists_held (List.mem_cons_of_mem _ (List.mem_of_getElem? hcopy))
  rw [Session.use_copy hname (hs.pool ▸ hheld), hs.pool, Shared.askCopy, h.follows.copies, hcopy]
  dsimp only
  rw [Pool.use_eq_put hheld]
  rfl

/-- Nothing is asked by a name that stands for nothing. -/
theorem use_none (hs : Shows names h s) {n : Nat} (hcopy : ∀ id, h.copies[n]? ≠ some (some id)) (q : Question κ) :
    s.use (names.copy n) (asking q) = (s, .error .unknown) := by
  have hname : s.holding? (names.copy n) = none := by
    rw [hs.copies, Option.map_eq_none_iff]
    cases hn : h.copies[n]? with
    | none => rfl
    | some copy =>
      cases copy with
      | none => rfl
      | some id => exact absurd hn (hcopy id)
  rw [use, table, hname]
  rfl

/-- A session shows what a history says as long as its pool follows. -/
theorem withPool (hs : Shows names h s) {h' : Shared.History κ ν} (hcurrent : h'.current = h.current)
    (hcopies : h'.copies = h.copies) : Shows names h' (s.withPool h'.shared.pool) where
  pool := rfl
  handle := hcurrent ▸ hs.handle
  copies := hcopies ▸ hs.copies
  incoming := hs.incoming

/-- A session shows a question to the handle. -/
theorem ask (hs : Shows names h s) (q : Question κ) (given : Nat) :
    Shows names (h.step (.ask q)) (s.carryOut names given (.ask q)) := by
  rw [carryOut, hs.use_handle]
  exact hs.withPool rfl rfl

/-- A session shows a question to a copy. -/
theorem askCopy (hs : Shows names h s) (n : Nat) (q : Question κ) (given : Nat) :
    Shows names (h.step (.askCopy n q)) (s.carryOut names given (.askCopy n q)) := by
  by_cases hcopy : ∃ id, h.copies[n]? = some (some id)
  · obtain ⟨id, hcopy⟩ := hcopy
    rw [carryOut, hs.use_copy hcopy]
    exact hs.withPool rfl rfl
  · rw [not_exists] at hcopy
    rw [carryOut, hs.use_none hcopy]
    refine ⟨?_, hs.handle, hs.copies, hs.incoming⟩
    rw [Shared.History.shared, Shared.act, h.follows.askCopy_of_ne hcopy]
    exact hs.pool

/-- What is given away gets the next name, which is free. -/
theorem give {h' : Shared.History κ ν} {given : Option ReaderId} (hpool : s.pool = h'.shared.pool)
    (hhandle : s.holding? names.handle = some (.slot ⟨h'.current⟩))
    (hcopy : ∀ n, s.holding? (names.copy n) = h.copies[n]?.join.map .copy) (hincoming : s.holding? names.incoming = none)
    (hcopies : h'.copies = h.copies ++ [given]) :
    Shows names h' (s.receive (names.copy h.copies.length) given) := by
  have hfree : s.holding? (names.copy h.copies.length) = none := by
    rw [hcopy, List.getElem?_eq_none (Nat.le_refl _)]
    rfl
  refine ⟨(pool_receive hfree given).trans hpool, ?_, fun n => ?_, ?_⟩
  · rw [holding?_receive hfree, if_neg (names.copy_ne _).symm]
    exact hhandle
  · rw [holding?_receive hfree, hcopies, join_getElem?_concat]
    by_cases hn : n = h.copies.length
    · rw [if_pos hn, if_pos (congrArg names.copy hn)]
    · rw [if_neg hn, if_neg fun heq => hn (names.copy_injective _ _ heq)]
      exact hcopy n
  · rw [holding?_receive hfree, if_neg (names.copy_ne_incoming _).symm]
    exact hincoming

/-- A session shows a copy. -/
theorem copy (hs : Shows names h s) : Shows names (h.step .copy) (s.carryOut names h.copies.length .copy) := by
  have hcarry : s.carryOut names h.copies.length .copy =
      (s.withPool (Slot.copy s.pool ⟨h.current⟩).1).receive (names.copy h.copies.length) h.current := by
    rw [carryOut, Session.copy, hs.handle]
    cases h.current <;> rfl
  rw [hcarry]
  refine give ?_ hs.handle hs.copies hs.incoming rfl
  rw [hs.pool, ← h.follows.handle]
  rfl

/-- A session shows another reader for the handle. -/
theorem swap (hs : Shows names h s) (reader : Table κ ν) :
    Shows names (h.step (.swap reader)) (s.carryOut names h.copies.length (.swap reader)) := by
  have hholding := holding?_keep s names.incoming (.reader reader)
  have hhandle : (s.keep names.incoming (.reader reader)).holding? names.handle = some (.slot ⟨h.current⟩) := by
    rw [hholding, if_neg names.incoming_ne.symm, hs.handle]
  have hincoming : (s.keep names.incoming (.reader reader)).holding? names.incoming = some (.reader reader) := by
    rw [hholding, if_pos rfl]
  have hpool : (s.keep names.incoming (.reader reader)).pool = h.shared.pool :=
    (pool_keep_of_none hs.incoming (.reader reader)).trans hs.pool
  rw [carryOut, swap_eq_receive hhandle hincoming, hpool]
  refine give rfl ?_ (fun n => ?_) ?_ rfl
  · rw [holding?_revise, if_pos rfl, h.follows.next]
    rfl
  · rw [holding?_revise, if_neg (names.copy_ne n)]
    refine (holding?_forget _ _ _).trans ?_
    rw [if_neg (names.copy_ne_incoming n), hholding, if_neg (names.copy_ne_incoming n)]
    exact hs.copies n
  · rw [holding?_revise, if_neg names.incoming_ne]
    exact (holding?_forget _ _ _).trans (if_pos rfl)

/-- A session shows the end of the handle. -/
theorem close (hs : Shows names h s) (given : Nat) : Shows names (h.step .close) (s.carryOut names given .close) := by
  have hpool : (Slot.close s.pool ⟨h.current⟩).1 = (h.step .close).shared.pool := by
    rw [hs.pool, ← h.follows.handle]
    rfl
  have hslot : (Slot.close s.pool ⟨h.current⟩).2 = ⟨none⟩ := by
    cases h.current <;> rfl
  rw [carryOut, Session.close, hs.handle]
  refine ⟨hpool, ?_, fun n => ?_, ?_⟩
  · rw [holding?_revise, if_pos rfl]
    exact congrArg (some ∘ Holding.slot) hslot
  · rw [holding?_revise, if_neg (names.copy_ne n)]
    exact hs.copies n
  · rw [holding?_revise, if_neg names.incoming_ne]
    exact hs.incoming

/-- A session shows a copy that is let go. -/
theorem drop (hs : Shows names h s) (n given : Nat) : Shows names (h.step (.drop n)) (s.carryOut names given (.drop n)) := by
  have hpool : (s.forget (names.copy n)).pool = (h.step (.drop n)).shared.pool := by
    rw [forget, hs.copies, hs.pool]
    show _ = (h.shared.drop n).pool
    rw [Shared.drop, h.follows.copies]
    cases h.copies[n]? with
    | none => rfl
    | some copy => cases copy <;> rfl
  refine ⟨hpool, ?_, fun m => ?_, ?_⟩
  · exact (holding?_forget s _ _).trans ((if_neg (names.copy_ne n).symm).trans hs.handle)
  · refine (holding?_forget s _ _).trans ?_
    rw [Shared.History.copies, join_getElem?_set_none]
    by_cases hm : m = n
    · rw [if_pos hm, if_pos (congrArg names.copy hm), Option.map_none]
    · rw [if_neg hm, if_neg fun heq => hm (names.copy_injective _ _ heq)]
      exact hs.copies m
  · exact (holding?_forget s _ _).trans ((if_neg (names.copy_ne_incoming n).symm).trans hs.incoming)

/-- A session shows the making of a handle. -/
theorem new (root : Path) (reader : Table κ ν) : Shows names (.new reader) ((start root).keepShared names.handle reader) where
  pool := rfl
  handle := by
    rw [keepShared, holding?_keep, if_pos rfl]
    rfl
  copies n := by
    rw [keepShared, holding?_keep, if_neg (names.copy_ne n)]
    rfl
  incoming := by
    rw [keepShared, holding?_keep, if_neg names.incoming_ne]
    rfl

/-- A session shows each operation. -/
theorem carryOut (hs : Shows names h s) (operation : Shared.Operation κ ν) :
    Shows names (h.step operation) (s.carryOut names h.copies.length operation) := by
  cases operation with
  | ask q => exact hs.ask q _
  | copy => exact hs.copy
  | askCopy n q => exact hs.askCopy n q _
  | swap reader => exact hs.swap reader
  | close => exact hs.close _
  | drop n => exact hs.drop n _

end Shows

/-- A session holds what the history of the shared table says that it hosts. -/
theorem shows_host (root : Path) (names : Names) (h : Shared.History κ ν) : Shows names h (host root names h) := by
  induction h with
  | new reader => exact .new root reader
  | step past operation ih => exact ih.carryOut operation

/-- A session that hosts a shared table answers, by the names of the handle and of the copies, what these answer after the same
history. -/
theorem host_answers (root : Path) (names : Names) (h : Shared.History κ ν) (q : Question κ) :
    ((host root names h).use names.handle (asking q)).2 = (lift (h.shared.ask q).2 >>= need) ∧
    ∀ n, ((host root names h).use (names.copy n) (asking q)).2 = need (h.shared.askCopy n q).2 := by
  have hshows := shows_host root names h
  refine ⟨congrArg Prod.snd (hshows.use_handle q), fun n => ?_⟩
  by_cases hcopy : ∃ id, h.copies[n]? = some (some id)
  · obtain ⟨id, hcopy⟩ := hcopy
    exact congrArg Prod.snd (hshows.use_copy hcopy q)
  · rw [not_exists] at hcopy
    rw [hshows.use_none hcopy, h.follows.askCopy_of_ne hcopy]
    rfl

end FrozenTable.Session
