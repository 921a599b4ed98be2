import FrozenTable.Proofs.Lemmas.Holding
import FrozenTable.Shared

/-!
# What was done with a shared table

The handle of a shared table and the copies that it gave away are in the hands of others, who do with them what they like
(`Shared.Operation`). A history tells which reader the handle has, which readers the copies are of, and what each reader was
asked. None of this is counted. That the counts of the pool follow the history (`Shared.History.follows`) is shown for each
operation and then for all histories.
-/

namespace FrozenTable

variable {κ ν : Type}

/-! ## What was asked -/

namespace Table

variable [Ord κ]

/-- The table after questions, one after the other. -/
def heard (t : Table κ ν) (asked : List (Question κ)) : Table κ ν :=
  t.serveAll (asked.filterMap Question.request?)

/-- What a table that was asked some questions answers to one more: what it would have answered at first, but for its tally,
in which each lookup among the questions is counted. -/
def answer (t : Table κ ν) (asked : List (Question κ)) : Question κ → Told κ ν
  | .of .stats _ => .reply (.tally (t.tally.plus (t.shares (t.keysOf (asked.filterMap Question.request?)))))
  | q => (t.tell q).2

/-- One more question is put to the table that heard the others. -/
theorem heard_append (t : Table κ ν) (asked : List (Question κ)) (q : Question κ) :
    t.heard (asked ++ [q]) = ((t.heard asked).tell q).1 := by
  rw [heard, List.filterMap_append, serveAll_append]
  cases q <;> rfl

/-- Questions leave nothing of themselves but a tally. -/
theorem heard_eq_tallied (t : Table κ ν) (asked : List (Question κ)) :
    t.heard asked = t.tallied (t.tally.plus (t.shares (t.keysOf (asked.filterMap Question.request?)))) := by
  have hopen : Request.close ∉ asked.filterMap Question.request? := by
    rw [List.mem_filterMap]
    rintro ⟨q, -, hclose⟩
    cases q with
    | of request h => exact h (Option.some.inj hclose)
    | describe => exact nomatch hclose
  exact t.serveAll_tallied t.tally hopen

/-- What a table tells is what it would have told at first, but for its tally. -/
theorem tell_heard (t : Table κ ν) (asked : List (Question κ)) (q : Question κ) :
    ((t.heard asked).tell q).2 = t.answer asked q := by
  rw [heard_eq_tallied]
  cases q with
  | describe => rfl
  | of request h =>
    cases request with
    | stats => rfl
    | _ => exact congrArg Told.reply (t.reply_tallied _ nofun)

end Table

/-! ## The handle and its copies -/

namespace Shared

variable [Ord κ]

/-- One who asks through the handle has a copy while the question is answered: what is asked is a copy, and others can come in
between. -/
theorem ask_eq_askCopy {s : Shared κ ν} {id : ReaderId} (hcurrent : s.handle.current = some id) (q : Question κ) :
    s.ask q = ({ (s.copy.1.askCopy s.copies.length q).1.drop s.copies.length with copies := s.copies },
      .ok (s.copy.1.askCopy s.copies.length q).2) := by
  obtain ⟨pool, ⟨current⟩, copies⟩ := s
  dsimp only at hcurrent
  subst hcurrent
  have hgiven : (copies ++ [some id])[copies.length]? = some (some id) := List.getElem?_concat_length
  have hcopy : (⟨pool, ⟨some id⟩, copies⟩ : Shared κ ν).copy.1 = ⟨pool.retain id, ⟨some id⟩, copies ++ [some id]⟩ := rfl
  simp only [hcopy, askCopy, drop, hgiven]
  rfl

/-- What was released stays released. -/
theorem released_act (s : Shared κ ν) (operation : Operation κ ν) : s.pool.released <:+ (s.act operation).pool.released := by
  cases operation with
  | ask q => exact Slot.released_use _ _ _
  | copy =>
    show _ <:+ (s.handle.copy s.pool).1.released
    unfold Slot.copy
    split <;> exact List.suffix_rfl
  | askCopy n q =>
    show _ <:+ (s.askCopy n q).1.pool.released
    unfold askCopy
    split
    case h_1 id _ => exact (s.pool.released_use id _).symm ▸ List.suffix_rfl
    case h_2 => exact List.suffix_rfl
  | swap => exact List.suffix_rfl
  | close =>
    show _ <:+ (s.handle.close s.pool).1.released
    unfold Slot.close
    split
    case h_1 id _ => exact s.pool.released_release id
    case h_2 => exact List.suffix_rfl
  | drop n =>
    show _ <:+ (s.drop n).pool.released
    unfold drop
    split
    case h_1 id _ => exact s.pool.released_release id
    case h_2 => exact List.suffix_rfl

/-! ## Histories -/

/-- What was done with a shared table since it was made of a reader. -/
inductive History (κ ν : Type) where
  | new (reader : Table κ ν)
  | step (past : History κ ν) (operation : Operation κ ν)

namespace History

/-- The readers that the handle was made of and given, in this order. -/
def installed : History κ ν → List (Table κ ν)
  | new reader => [reader]
  | step past (.swap reader) => past.installed ++ [reader]
  | step past _ => past.installed

/-- The reader that the handle was given last, unless it was closed since. -/
def current : History κ ν → Option ReaderId
  | new _ => some ⟨0⟩
  | step past (.swap _) => some ⟨past.installed.length⟩
  | step _ .close => none
  | step past _ => past.current

/-- What was given away, copies and readers that were replaced, as far as it was not dropped. -/
def copies : History κ ν → List (Option ReaderId)
  | new _ => []
  | step past .copy => past.copies ++ [past.current]
  | step past (.swap _) => past.copies ++ [past.current]
  | step past (.drop n) => past.copies.set n none
  | step past _ => past.copies

/-- What a reader was asked, whether through the handle or through its copies. -/
def asked (id : ReaderId) : History κ ν → List (Question κ)
  | new _ => []
  | step past (.ask q) => if past.current = some id then past.asked id ++ [q] else past.asked id
  | step past (.askCopy n q) => if past.copies[n]? = some (some id) then past.asked id ++ [q] else past.asked id
  | step past _ => past.asked id

/-- The handle and the copies after a history. -/
def shared : History κ ν → Shared κ ν
  | new reader => .new reader
  | step past operation => past.shared.act operation

/-- A history that goes on. -/
def goOn (h : History κ ν) (later : List (Operation κ ν)) : History κ ν :=
  later.foldl step h

/-- How many have a reader. -/
def holders (h : History κ ν) (id : ReaderId) : Nat :=
  (h.current :: h.copies).count (some id)

/-- What became of a reader. -/
def state (h : History κ ν) (id : ReaderId) : Option (Table κ ν) :=
  (h.installed[id.number]?).map fun t => t.heard (h.asked id)

/-! ## What histories say -/

omit [Ord κ] in
/-- Whoever holds a reader holds one that was installed. -/
theorem lt_of_mem {h : History κ ν} {id : ReaderId} (hid : some id ∈ h.current :: h.copies) :
    id.number < h.installed.length := by
  rw [List.mem_cons] at hid
  induction h with
  | new reader =>
    rcases hid with hcurrent | hcopy
    · cases hcurrent
      exact Nat.zero_lt_one
    · exact nomatch hcopy
  | step past operation ih =>
    cases operation with
    | ask | askCopy => exact ih hid
    | close =>
      rcases hid with hcurrent | hcopy
      · exact nomatch hcurrent
      · exact ih (.inr hcopy)
    | drop n =>
      rcases hid with hcurrent | hcopy
      · exact ih (.inl hcurrent)
      · rcases List.mem_or_eq_of_mem_set hcopy with hcopy | hnone
        · exact ih (.inr hcopy)
        · exact nomatch hnone
    | copy =>
      rcases hid with hcurrent | hcopy
      · exact ih (.inl hcurrent)
      · rw [copies, List.mem_append, List.mem_singleton] at hcopy
        exact ih hcopy.symm
    | swap reader =>
      rw [installed, List.length_append, List.length_singleton]
      rcases hid with hcurrent | hcopy
      · cases hcurrent
        exact Nat.lt_succ_self _
      · rw [copies, List.mem_append, List.mem_singleton] at hcopy
        exact Nat.lt_succ_of_lt (ih hcopy.symm)

omit [Ord κ] in
/-- A reader that did not come in yet was not asked. -/
theorem asked_of_le {h : History κ ν} {id : ReaderId} (hid : h.installed.length ≤ id.number) : h.asked id = [] := by
  induction h with
  | new => rfl
  | step past operation ih =>
    have hpast : past.installed.length ≤ id.number := by
      cases operation with
      | swap =>
        rw [installed, List.length_append] at hid
        omega
      | _ => exact hid
    have hout : some id ∉ past.current :: past.copies := fun h => absurd (lt_of_mem h) (Nat.not_lt.2 hpast)
    cases operation with
    | ask q => rw [asked, if_neg fun h => hout (List.mem_cons.2 (.inl h.symm)), ih hpast]
    | askCopy n q =>
      rw [asked, if_neg fun h => hout (List.mem_cons_of_mem _ (List.mem_of_getElem? h)), ih hpast]
    | _ => exact ih hpast

omit [Ord κ] in
/-- Readers keep their numbers. -/
theorem installed_goOn (h : History κ ν) (later : List (Operation κ ν)) : h.installed <+: (h.goOn later).installed := by
  induction later generalizing h with
  | nil => exact List.prefix_rfl
  | cons operation later ih =>
    refine List.IsPrefix.trans ?_ (ih (h.step operation))
    cases operation with
    | swap => exact List.prefix_append _ _
    | ask | copy | askCopy | close | drop => exact List.prefix_rfl

omit [Ord κ] in
/-- A copy is a copy of its reader until it is dropped. -/
theorem getElem?_copies_goOn {h : History κ ν} {later : List (Operation κ ν)} {n : Nat} (hn : n < h.copies.length)
    (hkept : .drop n ∉ later) : (h.goOn later).copies[n]? = h.copies[n]? := by
  induction later generalizing h with
  | nil => rfl
  | cons operation later ih =>
    rw [List.mem_cons, not_or] at hkept
    have hlength : h.copies.length ≤ (h.step operation).copies.length := by
      cases operation <;> simp [copies]
    rw [goOn, List.foldl_cons, ← goOn, ih (Nat.lt_of_lt_of_le hn hlength) hkept.2]
    cases operation with
    | copy | swap => exact List.getElem?_append_left hn
    | drop m => exact List.getElem?_set_ne fun hm => hkept.1 (congrArg Operation.drop hm.symm)
    | ask | askCopy | close => rfl

/-! ## How many hold a reader -/

omit [Ord κ] in
/-- At first the handle is the only holder. -/
theorem holders_new (reader : Table κ ν) (id : ReaderId) : (new reader).holders id = if id = ⟨0⟩ then 1 else 0 := by
  by_cases hid : id = ⟨0⟩
  · rw [if_pos hid, hid]
    rfl
  · rw [if_neg hid]
    exact List.count_eq_zero.2 fun h => hid (Option.some.inj (List.mem_singleton.1 h))

omit [Ord κ] in
/-- A copy of a reader is one more holder. -/
theorem holders_copy (h : History κ ν) (id : ReaderId) :
    (h.step .copy).holders id = h.holders id + if h.current = some id then 1 else 0 := by
  simp only [holders, current, copies, ← List.cons_append, List.count_append, List.count_singleton, beq_iff_eq]

omit [Ord κ] in
/-- The reader of the handle passes to someone else, and the new one has a holder. -/
theorem holders_swap (h : History κ ν) (reader : Table κ ν) (id : ReaderId) :
    (h.step (.swap reader)).holders id = h.holders id + if id = ⟨h.installed.length⟩ then 1 else 0 := by
  simp only [holders, current, copies, List.count_cons, List.count_append, List.count_nil, beq_iff_eq, Option.some.injEq,
    eq_comm (a := id), Nat.zero_add]

omit [Ord κ] in
/-- The reader of the handle loses a holder. -/
theorem holders_close (h : History κ ν) (id : ReaderId) :
    h.holders id = (h.step .close).holders id + if h.current = some id then 1 else 0 := by
  simp [holders, current, copies, List.count_cons]

omit [Ord κ] in
/-- The reader of a copy loses a holder. -/
theorem holders_drop (h : History κ ν) (n : Nat) (id : ReaderId) :
    h.holders id = (h.step (.drop n)).holders id + if h.copies[n]? = some (some id) then 1 else 0 := by
  have hcount : h.copies.count (some id) =
      (h.copies.set n none).count (some id) + if h.copies[n]? = some (some id) then 1 else 0 := by
    by_cases hn : n < h.copies.length
    · rw [List.count_set hn, List.getElem?_eq_getElem hn]
      have hpos : h.copies[n] = some id → 0 < h.copies.count (some id) := fun h =>
        List.count_pos_iff.2 (List.mem_of_getElem h)
      simp only [beq_iff_eq, Option.some.injEq, reduceCtorEq, if_false]
      split
      case isTrue hcopy =>
        have := hpos hcopy
        omega
      case isFalse => omega
    · rw [List.set_eq_of_length_le (Nat.le_of_not_lt hn), List.getElem?_eq_none (Nat.le_of_not_lt hn), if_neg nofun]
      rfl
  simp only [holders, current, copies, List.count_cons]
  omega

/-! ## The counts follow the history -/

/-- A handle and copies in step with a history, and with them what the pool has counted. -/
structure Follows (h : History κ ν) (s : Shared κ ν) : Prop where
  handle : s.handle = ⟨h.current⟩
  copies : s.copies = h.copies
  next : s.pool.next = h.installed.length
  pool : s.pool.Tracks h.holders h.state

namespace Follows

variable {h : History κ ν} {s : Shared κ ν} {id : ReaderId} {q : Question κ}

/-- What the handle or a copy leads to is there, as what it became. -/
theorem exists_held (hs : Follows h s) (hid : some id ∈ h.current :: h.copies) : ∃ t, h.installed[id.number]? = some t ∧
    s.pool.held? id = some ⟨t.heard (h.asked id), h.holders id⟩ ∧ 0 < h.holders id := by
  have hholders : 0 < h.holders id := List.count_pos_iff.2 hid
  obtain ⟨reader, hstate, hheld⟩ := hs.pool.exists_held (Nat.ne_of_gt hholders)
  obtain ⟨t, ht, rfl⟩ := Option.map_eq_some_iff.1 hstate
  exact ⟨t, ht, hheld, hholders⟩

/-- A closed handle tells nothing and stays as it is. -/
theorem ask_of_none (hs : Follows h s) (hcurrent : h.current = none) : s.ask q = (s, .error .handleClosed) := by
  have huse : s.handle.use s.pool (Table.tell · q) = (s.pool, .error .handleClosed) := by
    rw [hs.handle, hcurrent]
    rfl
  rw [ask, huse]

/-- An open handle tells what its reader answers after all that it was asked, and the reader is asked once more. -/
theorem ask_of_some (hs : Follows h s) (hcurrent : h.current = some id) : ∃ t, h.installed[id.number]? = some t ∧ ∀ q,
    s.ask q = ({ s with pool := s.pool.put id (t.heard (h.asked id ++ [q])) }, .ok (some (t.answer (h.asked id) q))) := by
  obtain ⟨t, ht, hheld, hholders⟩ := hs.exists_held (List.mem_cons.2 (.inl hcurrent.symm))
  refine ⟨t, ht, fun q => ?_⟩
  rw [Shared.ask, hs.handle, hcurrent, Slot.use_eq_put hheld hholders]
  dsimp only
  rw [Table.heard_append, Table.tell_heard]

/-- A copy tells what its reader answers, however that was asked before, and the reader is asked once more. -/
theorem askCopy_of_some (hs : Follows h s) {n : Nat} (hcopy : h.copies[n]? = some (some id)) :
    ∃ t, h.installed[id.number]? = some t ∧ ∀ q,
      s.askCopy n q = ({ s with pool := s.pool.put id (t.heard (h.asked id ++ [q])) }, some (t.answer (h.asked id) q)) := by
  obtain ⟨t, ht, hheld, -⟩ := hs.exists_held (List.mem_cons_of_mem _ (List.mem_of_getElem? hcopy))
  refine ⟨t, ht, fun q => ?_⟩
  rw [askCopy, hs.copies, hcopy]
  dsimp only
  rw [Pool.use_eq_put hheld]
  dsimp only
  rw [Table.heard_append, Table.tell_heard]

/-- Copies that were not given away or were dropped cannot be asked. -/
theorem askCopy_of_ne (hs : Follows h s) {n : Nat} (hcopy : ∀ id, h.copies[n]? ≠ some (some id)) :
    s.askCopy n q = (s, none) := by
  rw [askCopy, hs.copies]
  split
  case h_1 id hid => exact absurd hid (hcopy id)
  case h_2 => rfl

/-- A question to a reader that someone has, which only this reader has heard. -/
theorem tracks_put (hs : Follows h s) {h' : History κ ν} {t : Table κ ν} (hid : some id ∈ h.current :: h.copies)
    (ht : h.installed[id.number]? = some t) (hinstalled : h'.installed = h.installed) (hholders : h'.holders = h.holders)
    (hasked : h'.asked id = h.asked id ++ [q]) (hothers : ∀ other ≠ id, h'.asked other = h.asked other) :
    (s.pool.put id (t.heard (h.asked id ++ [q]))).Tracks h'.holders h'.state := by
  rw [hholders]
  refine hs.pool.put (Nat.ne_of_gt (List.count_pos_iff.2 hid)) ?_ fun other hother => ?_
  · rw [state, hinstalled, ht, hasked]
    rfl
  · rw [state, state, hinstalled, hothers other hother]

/-- Nothing but questions and new readers changes what became of a reader. -/
theorem state_eq {h h' : History κ ν} (hinstalled : h'.installed = h.installed) (hasked : ∀ id, h'.asked id = h.asked id) :
    h'.state = h.state := by
  funext id
  rw [state, state, hinstalled, hasked]

/-- The counts follow a question to the handle. -/
theorem ask (hs : Follows h s) (q : Question κ) : Follows (h.step (.ask q)) (s.act (.ask q)) := by
  show Follows _ (s.ask q).1
  cases hcurrent : h.current with
  | none =>
    rw [hs.ask_of_none hcurrent]
    have hstate : (h.step (.ask q)).state = h.state :=
      state_eq rfl fun id => by rw [asked, hcurrent, if_neg nofun]
    exact ⟨hs.handle, hs.copies, hs.next, hstate ▸ hs.pool⟩
  | some id =>
    obtain ⟨t, ht, hask⟩ := hs.ask_of_some hcurrent
    rw [hask]
    refine ⟨hs.handle, hs.copies, hs.next, ?_⟩
    refine hs.tracks_put (hcurrent ▸ List.mem_cons_self) ht rfl rfl ?_ fun other hother => ?_
    · rw [asked, if_pos hcurrent]
    · rw [asked, hcurrent, if_neg fun h => hother (Option.some.inj h).symm]

/-- The counts follow a question to a copy. -/
theorem askCopy (hs : Follows h s) (n : Nat) (q : Question κ) :
    Follows (h.step (.askCopy n q)) (s.act (.askCopy n q)) := by
  show Follows _ (s.askCopy n q).1
  by_cases hcopy : ∃ id, h.copies[n]? = some (some id)
  · obtain ⟨id, hcopy⟩ := hcopy
    obtain ⟨t, ht, hask⟩ := hs.askCopy_of_some hcopy
    rw [hask]
    refine ⟨hs.handle, hs.copies, hs.next, ?_⟩
    refine hs.tracks_put (List.mem_cons_of_mem _ (List.mem_of_getElem? hcopy)) ht rfl rfl ?_ fun other hother => ?_
    · rw [asked, if_pos hcopy]
    · rw [asked, hcopy, if_neg fun h => hother (Option.some.inj (Option.some.inj h)).symm]
  · rw [not_exists] at hcopy
    rw [hs.askCopy_of_ne hcopy]
    have hstate : (h.step (.askCopy n q)).state = h.state := state_eq rfl fun id => by rw [asked, if_neg (hcopy id)]
    exact ⟨hs.handle, hs.copies, hs.next, hstate ▸ hs.pool⟩

/-- The counts follow a copy. -/
theorem copy (hs : Follows h s) : Follows (h.step .copy) (s.act .copy) := by
  show Follows _ s.copy.1
  have hcopies : s.copies ++ [h.current] = (h.step .copy).copies := by rw [hs.copies, History.copies]
  rw [Shared.copy, hs.handle]
  cases hcurrent : h.current with
  | none =>
    have hholders : (h.step .copy).holders = h.holders := by
      funext id
      rw [holders_copy, hcurrent, if_neg nofun]
      rfl
    rw [hcurrent] at hcopies
    exact ⟨congrArg Slot.mk hcurrent.symm, hcopies, hs.next, hholders ▸ hs.pool⟩
  | some id =>
    rw [hcurrent] at hcopies
    refine ⟨congrArg Slot.mk hcurrent.symm, hcopies, hs.next, ?_⟩
    refine hs.pool.retain ?_ ?_ fun other hother => ?_
    · exact Nat.ne_of_gt (List.count_pos_iff.2 (List.mem_cons.2 (.inl hcurrent.symm)))
    · rw [holders_copy, if_pos hcurrent]
    · rw [holders_copy, hcurrent, if_neg fun h => hother (Option.some.inj h).symm]
      rfl

/-- The counts follow another reader for the handle. -/
theorem swap (hs : Follows h s) (reader : Table κ ν) : Follows (h.step (.swap reader)) (s.act (.swap reader)) := by
  have hfresh : (⟨s.pool.next⟩ : ReaderId) = ⟨h.installed.length⟩ := congrArg ReaderId.mk hs.next
  have hinstalled : (h.step (.swap reader)).installed = h.installed ++ [reader] := rfl
  have hasked (id : ReaderId) : (h.step (.swap reader)).asked id = h.asked id := rfl
  refine ⟨congrArg (fun id => Slot.mk (some id)) hfresh, ?_, ?_, ?_⟩
  · show s.copies ++ [s.handle.current] = h.copies ++ [h.current]
    rw [hs.copies, hs.handle]
  · show s.pool.next + 1 = (h.installed ++ [reader]).length
    rw [hs.next, List.length_append, List.length_singleton]
  · refine hs.pool.adopt reader ?_ ?_ (fun id hid => ?_) fun id hid => ?_
    · have hzero : h.holders ⟨s.pool.next⟩ = 0 := by
        by_contra hne
        exact Nat.lt_irrefl _ (hs.pool.counted _ hne)
      rw [holders_swap, hzero, if_pos hfresh]
    · rw [hfresh, state, hinstalled, List.getElem?_concat_length, hasked, asked_of_le (Nat.le_refl _)]
      rfl
    · rw [holders_swap, if_neg (hfresh ▸ hid)]
      rfl
    · have hnumber : id.number ≠ h.installed.length := fun h => hid (by rw [hfresh, ← h])
      rw [state, state, hinstalled, hasked, List.getElem?_append]
      split
      case isTrue => rfl
      case isFalse hlt =>
        rw [List.getElem?_eq_none (Nat.le_of_not_lt hlt), List.getElem?_eq_none]
        rw [List.length_singleton]
        omega

/-- The counts follow the end of the handle. -/
theorem close (hs : Follows h s) : Follows (h.step .close) (s.act .close) := by
  show Follows _ s.close
  rw [Shared.close, hs.handle]
  cases hcurrent : h.current with
  | none =>
    have hholders : (h.step .close).holders = h.holders := by
      funext id
      rw [holders_close h, hcurrent, if_neg nofun]
      rfl
    exact ⟨rfl, hs.copies, hs.next, hholders ▸ hs.pool⟩
  | some id =>
    refine ⟨rfl, hs.copies, (s.pool.next_release id).trans hs.next, ?_⟩
    refine hs.pool.release ?_ fun other hother => ?_
    · rw [holders_close h, if_pos hcurrent]
    · rw [holders_close h, hcurrent, if_neg fun h => hother (Option.some.inj h).symm]
      rfl

/-- The counts follow a copy that is let go. -/
theorem drop (hs : Follows h s) (n : Nat) : Follows (h.step (.drop n)) (s.act (.drop n)) := by
  show Follows _ (s.drop n)
  rw [Shared.drop, hs.copies]
  split
  case h_1 id hcopy =>
    refine ⟨hs.handle, rfl, (s.pool.next_release id).trans hs.next, ?_⟩
    refine hs.pool.release ?_ fun other hother => ?_
    · rw [holders_drop h n, if_pos hcopy]
    · rw [holders_drop h n, hcopy, if_neg fun h => hother (Option.some.inj (Option.some.inj h)).symm]
      rfl
  case h_2 hcopy =>
    -- There is nothing to drop: no such copy was given away, or the place is empty.
    have hset : h.copies.set n none = h.copies := by
      cases hn : h.copies[n]? with
      | none => exact List.set_eq_of_length_le (List.getElem?_eq_none_iff.1 hn)
      | some copy =>
        cases copy with
        | some id => exact absurd hn (hcopy id)
        | none =>
          obtain ⟨hlt, hnone⟩ := List.getElem?_eq_some_iff.1 hn
          rw [← hnone, List.set_getElem_self]
    have hcopies : (h.step (.drop n)).copies = h.copies := hset
    have hholders : (h.step (.drop n)).holders = h.holders := by
      funext id
      rw [holders, hcopies]
      rfl
    exact ⟨hs.handle, hs.copies.trans hcopies.symm, hs.next, hholders ▸ hs.pool⟩

/-- The counts follow the making of a handle. -/
theorem new (reader : Table κ ν) : Follows (.new reader) (.new reader) := by
  refine ⟨rfl, rfl, rfl, Pool.Tracks.empty.adopt reader ?_ rfl (fun id hid => ?_) fun id hid => ?_⟩
  · exact (holders_new reader _).trans (if_pos rfl)
  · exact (holders_new reader id).trans (if_neg hid)
  · have hnumber : id.number ≠ 0 := fun h => hid (congrArg ReaderId.mk h)
    rw [state, installed, List.getElem?_eq_none]
    · rfl
    · rw [List.length_singleton]
      omega

/-- The counts follow each operation. -/
theorem act (hs : Follows h s) (operation : Operation κ ν) : Follows (h.step operation) (s.act operation) := by
  cases operation with
  | ask q => exact hs.ask q
  | copy => exact hs.copy
  | askCopy n q => exact hs.askCopy n q
  | swap reader => exact hs.swap reader
  | close => exact hs.close
  | drop n => exact hs.drop n

end Follows

/-- The handle and the copies stay in step with their history. -/
theorem follows (h : History κ ν) : Follows h h.shared := by
  induction h with
  | new reader => exact .new reader
  | step past operation ih => exact ih.act operation

/-- What was released stays so in all that is done later. -/
theorem released_goOn (h : History κ ν) (later : List (Operation κ ν)) :
    h.shared.pool.released <:+ (h.goOn later).shared.pool.released := by
  induction later generalizing h with
  | nil => exact List.suffix_rfl
  | cons operation later ih => exact (h.shared.released_act operation).trans (ih (h.step operation))

end History

end Shared

end FrozenTable
