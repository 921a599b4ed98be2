import FrozenTable.Proofs.Lemmas.Histories
import FrozenTable.Proofs.Lemmas.Supporting

/-!
# A shared table answers by the history of its handle

The handle of a shared table is asked, it hands out copies, it is given another reader and it is closed, and those who have
copies ask and drop them, in any order and as many of them as there may be. What comes of it is told by the history of these
operations alone, so no one is ever answered by a reader that was released, and no reader that someone has is released.
-/

namespace FrozenTable.Shared

variable {κ ν : Type} [Ord κ]

/-- What the handle and the copies do after a history. -/
structure AnswersBy (h : History κ ν) (s : Shared κ ν) : Prop where
  /-- The handle is answered by the reader that it was given last. -/
  ask : ∀ {id}, h.current = some id → ∃ t, h.installed[id.number]? = some t ∧
    ∀ q, (s.ask q).2 = .ok (some (t.answer (h.asked id) q))
  /-- The handle fails when it was closed since, and only then. -/
  closed : ∀ q, (s.ask q).2 = .error .handleClosed ↔ h.current = none
  copy : s.copy.2 = h.current
  /-- A swap gives the reader away that it replaces. -/
  swap : ∀ reader, (s.swap reader).2 = h.current
  /-- A copy is answered by its reader, whatever the handle has. -/
  askCopy : ∀ {n id}, h.copies[n]? = some (some id) → ∃ t, h.installed[id.number]? = some t ∧
    ∀ q, (s.askCopy n q).2 = some (t.answer (h.asked id) q)
  /-- Readers are there as long as the handle has them or someone has a copy. -/
  kept : ∀ id, (s.pool.reader? id).isSome ↔ some id ∈ h.current :: h.copies
  /-- The others were released, each once. -/
  released : ∀ id, id ∈ s.pool.released ↔ id.number < h.installed.length ∧ some id ∉ h.current :: h.copies
  once : s.pool.released.Nodup

theorem History.Follows.answersBy {h : History κ ν} {s : Shared κ ν} (hs : h.Follows s) : AnswersBy h s where
  ask hcurrent := by
    obtain ⟨t, ht, hask⟩ := hs.ask_of_some hcurrent
    exact ⟨t, ht, fun q => congrArg Prod.snd (hask q)⟩
  closed q := by
    cases hcurrent : h.current with
    | none => exact iff_of_true (congrArg Prod.snd (hs.ask_of_none hcurrent)) rfl
    | some id =>
      obtain ⟨t, -, hask⟩ := hs.ask_of_some hcurrent
      rw [hask]
      simp only [reduceCtorEq]
  copy := by
    rw [Shared.copy, hs.handle]
    cases h.current <;> rfl
  swap reader := congrArg Slot.current hs.handle
  askCopy hcopy := by
    obtain ⟨t, ht, hask⟩ := hs.askCopy_of_some hcopy
    exact ⟨t, ht, fun q => congrArg Prod.snd (hask q)⟩
  kept id := by
    rw [Pool.reader?, Option.isSome_map]
    by_cases hid : some id ∈ h.current :: h.copies
    · obtain ⟨t, -, hheld, -⟩ := hs.exists_held hid
      rw [hheld]
      exact iff_of_true rfl hid
    · have hholders : h.holders id = 0 := List.count_eq_zero.2 hid
      rw [hs.pool.held, if_pos hholders]
      exact iff_of_false Bool.false_ne_true hid
  released id := by
    refine (hs.pool.released id).trans ?_
    rw [hs.next, History.holders, List.count_eq_zero]
  once := hs.pool.once

/-- A shared table answers by the history of its handle, whatever was done with the handle and with copies of its readers, by
however many and in whatever order.

The handle is answered by the reader that it was given last, and fails when it was closed since. A copy, or a reader that a swap
gave away, is answered by the same reader until it is dropped, whatever becomes of the handle. Each answer is the one that the
reader would have given at first, but for the tally, which has the lookups that this reader was asked for, through the handle
and through all copies, and those of no other reader. A reader is released when the handle does not have it and no copy of it is
left, not before and not again. -/
theorem answers_by_history (h : History κ ν) :
    AnswersBy h h.shared ∧
    ∀ later : List (Operation κ ν), h.shared.pool.released <:+ (h.goOn later).shared.pool.released ∧
      ∀ n id, h.copies[n]? = some (some id) → .drop n ∉ later → ∃ t, h.installed[id.number]? = some t ∧
        ∀ q, ((h.goOn later).shared.askCopy n q).2 = some (t.answer ((h.goOn later).asked id) q) := by
  refine ⟨h.follows.answersBy, fun later => ⟨h.released_goOn later, fun n id hcopy hkept => ?_⟩⟩
  have hn : n < h.copies.length := (List.getElem?_eq_some_iff.1 hcopy).1
  have hlater : (h.goOn later).copies[n]? = some (some id) := (h.getElem?_copies_goOn hn hkept).trans hcopy
  obtain ⟨t, ht, hask⟩ := (h.goOn later).follows.answersBy.askCopy hlater
  have hid : id.number < h.installed.length :=
    History.lt_of_mem (List.mem_cons_of_mem _ (List.mem_of_getElem? hcopy))
  obtain ⟨more, hmore⟩ := h.installed_goOn later
  rw [← hmore, List.getElem?_append_left hid] at ht
  exact ⟨t, ht, hask⟩

/-- A reader that was asked once, was copied and then replaced by another: the copy is told of its own lookup, after the handle
was closed too, and only the other reader is released. -/
theorem answers_by_history_single : ∃ store d t, Build.single .explicit .fixed = (store, .ok d) ∧
    @Table.openAt _ _ .single _ .longs store ["work", "table"] {} = .ok t ∧
    let h := (History.new t).goOn [.ask (.of (.get 7) nofun), .copy]
    let later := [.swap t, .ask (.of (.get 7) nofun), .ask (.of (.get 7) nofun), .close]
    (∀ q, ((h.goOn later).shared.ask q).2 = .error .handleClosed) ∧
    ((h.goOn later).shared.askCopy 0 (.of (.get 7) nofun)).2 = some (.reply (.value (t.get 7).2)) ∧
    ((h.goOn later).shared.askCopy 0 (.of .stats nofun)).2 = some (.reply (.tally ⟨0, 0, 1⟩)) ∧
    ∀ id, id ∈ (h.goOn later).shared.pool.released ↔ id = ⟨1⟩ := by
  let _ : HashLibrary := .single
  obtain ⟨store, d, hsingle, -⟩ := Build.single_eq_ok .explicit .fixed
  have hopened : (Table.openAt .longs (Build.single .explicit .fixed).1 ["work", "table"] {}).toOption.any
      (fun t => decide (t.tally.plus (t.shares (t.keysOf [.get 7])) = ⟨0, 0, 1⟩)) = true := by decide +kernel
  rw [hsingle] at hopened
  dsimp only at hopened
  cases hopen : Table.openAt .longs store ["work", "table"] {} with
  | error fault =>
    rw [hopen] at hopened
    exact nomatch hopened
  | ok t =>
    rw [hopen] at hopened
    have htally : t.tally.plus (t.shares (t.keysOf [.get 7])) = ⟨0, 0, 1⟩ := of_decide_eq_true hopened
    refine ⟨store, d, t, hsingle, hopen, ?_⟩
    intro h later
    obtain ⟨-, hlater⟩ := answers_by_history h
    obtain ⟨hends, -⟩ := answers_by_history (h.goOn later)
    obtain ⟨t', ht', hask⟩ := (hlater later).2 0 ⟨0⟩ rfl (by simp [later])
    cases Option.some.inj ht'
    refine ⟨fun q => (hends.closed q).2 rfl, hask _, ?_, fun id => ?_⟩
    · rw [hask, ← htally]
      rfl
    · refine (hends.released id).trans ?_
      show id.number < 2 ∧ some id ∉ [none, some ⟨0⟩, some ⟨0⟩] ↔ id = ⟨1⟩
      obtain ⟨number⟩ := id
      simp only [List.mem_cons, reduceCtorEq, Option.some.injEq, ReaderId.mk.injEq, List.not_mem_nil, or_false, false_or,
        or_self]
      omega

end FrozenTable.Shared
