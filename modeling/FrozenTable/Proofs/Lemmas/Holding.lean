import FrozenTable.Proofs.Lemmas.Serving
import FrozenTable.Session

/-!
# A shared table and those who hold it

The handle of a shared table is a slot of a pool. It is asked, it hands out copies, it is given another reader and it is closed,
and those who have copies ask and drop them; all of this in any order. A history is a sequence of such operations. It tells
which reader the handle has, which readers the copies are of and what each reader was asked, without a word about counts. A
pool is in step with its history (`Pool.Tracks`) when it has counted the holders of each reader rightly, keeps the readers that
someone holds as what became of them, and has released the others once. Each operation of a pool keeps it in step.
-/

namespace FrozenTable

/-! ## Entries by name -/

section

variable {α β : Type} [DecidableEq α]

/-- One more entry is found by its name and hides none of another name. -/
theorem lookup_cons_eq_ite (name name' : α) (entry : β) (entries : List (α × β)) :
    ((name, entry) :: entries).lookup name' = if name' = name then some entry else entries.lookup name' := by
  rw [List.lookup_cons]
  split
  case h_1 h => rw [if_pos (beq_iff_eq.1 h)]
  case h_2 h => rw [if_neg (beq_eq_false_iff_ne.1 h)]

/-- Entries without those of a name have nothing of that name and all else. -/
theorem lookup_filter_eq_ite (entries : List (α × β)) (name name' : α) :
    (entries.filter fun entry => entry.1 ≠ name).lookup name' = if name' = name then none else entries.lookup name' := by
  induction entries with
  | nil => simp
  | cons entry entries ih =>
    obtain ⟨entryName, entry⟩ := entry
    rw [lookup_cons_eq_ite]
    by_cases hentry : entryName = name
    · rw [List.filter_cons_of_neg (by simpa using hentry), ih, hentry]
      split <;> rfl
    · rw [List.filter_cons_of_pos (by simpa using hentry), lookup_cons_eq_ite, ih]
      by_cases hname : name' = entryName
      · rw [if_pos hname, if_neg (hname ▸ hentry), if_pos hname]
      · rw [if_neg hname, if_neg hname]

end

/-! ## What a pool counts -/

namespace Pool

variable {ρ α : Type}

/-- An update changes the entry of one reader. -/
theorem held?_update (p : Pool ρ) (id : ReaderId) (f : Held ρ → Held ρ) (id' : ReaderId) :
    (p.update id f).held? id' = if id' = id then (p.held? id').map f else p.held? id' := by
  show List.lookup id' (p.readers.map _) = if id' = id then (p.readers.lookup id').map f else p.readers.lookup id'
  induction p.readers with
  | nil => simp
  | cons entry readers ih =>
    obtain ⟨entryId, held⟩ := entry
    rw [List.map_cons, lookup_cons_eq_ite]
    by_cases hentry : entryId = id
    · rw [if_pos hentry, lookup_cons_eq_ite, ih, hentry]
      split <;> rfl
    · rw [if_neg hentry, lookup_cons_eq_ite, ih]
      by_cases hid : id' = entryId
      · rw [if_pos hid, if_pos hid, if_neg (hid ▸ hentry)]
      · rw [if_neg hid, if_neg hid]

/-- A reader that comes in has one holder. -/
theorem held?_adopt (p : Pool ρ) (reader : ρ) (id : ReaderId) :
    (p.adopt reader).1.held? id = if id = ⟨p.next⟩ then some ⟨reader, 1⟩ else p.held? id :=
  lookup_cons_eq_ite _ _ _ _

/-- What was released stays released. -/
theorem released_release (p : Pool ρ) (id : ReaderId) : p.released <:+ (p.release id).released := by
  unfold release
  split
  case h_1 => exact List.suffix_rfl
  case h_2 =>
    split
    case isTrue => exact List.suffix_cons _ _
    case isFalse => exact List.suffix_rfl

/-- Letting go gives no number back. -/
theorem next_release (p : Pool ρ) (id : ReaderId) : (p.release id).next = p.next := by
  unfold release
  split
  case h_1 => rfl
  case h_2 => split <;> rfl

/-- A pool in step with how many hold each reader and with what became of it. -/
structure Tracks (p : Pool ρ) (holders : ReaderId → Nat) (state : ReaderId → Option ρ) : Prop where
  /-- The readers that someone holds are kept, the others are not. -/
  held : ∀ id, p.held? id = if holders id = 0 then none else (state id).map (⟨·, holders id⟩)
  known : ∀ id, (state id).isSome ↔ id.number < p.next
  counted : ∀ id, holders id ≠ 0 → id.number < p.next
  released : ∀ id, id ∈ p.released ↔ id.number < p.next ∧ holders id = 0
  once : p.released.Nodup

namespace Tracks

variable {p : Pool ρ} {holders holders' : ReaderId → Nat} {state state' : ReaderId → Option ρ} {id : ReaderId}

/-- A pool without readers is in step with nobody holding any. -/
theorem empty : (empty : Pool ρ).Tracks (fun _ => 0) (fun _ => none) where
  held _ := rfl
  known _ := by simp [Pool.empty]
  counted _ h := absurd rfl h
  released _ := by simp [Pool.empty]
  once := List.nodup_nil

/-- What is held is there. -/
theorem exists_held (h : p.Tracks holders state) (hid : holders id ≠ 0) :
    ∃ reader, state id = some reader ∧ p.held? id = some ⟨reader, holders id⟩ := by
  obtain ⟨reader, hreader⟩ := Option.isSome_iff_exists.1 ((h.known id).2 (h.counted id hid))
  refine ⟨reader, hreader, ?_⟩
  rw [h.held, if_neg hid, hreader]
  rfl

/-- A pool stays in step when a reader comes in. -/
theorem adopt (h : p.Tracks holders state) (reader : ρ) (hone : holders' ⟨p.next⟩ = 1) (hnew : state' ⟨p.next⟩ = some reader)
    (hholders : ∀ id ≠ ⟨p.next⟩, holders' id = holders id) (hstate : ∀ id ≠ ⟨p.next⟩, state' id = state id) :
    (p.adopt reader).1.Tracks holders' state' := by
  have hnext : (p.adopt reader).1.next = p.next + 1 := rfl
  have hlt {id : ReaderId} (hid : id ≠ ⟨p.next⟩) : id.number < p.next + 1 ↔ id.number < p.next := by
    have hnumber : id.number ≠ p.next := fun h => hid (by cases id; cases h; rfl)
    omega
  refine ⟨fun id => ?_, fun id => ?_, fun id => ?_, fun id => ?_, h.once⟩
  · rw [held?_adopt]
    by_cases hid : id = ⟨p.next⟩
    · rw [if_pos hid, hid, hone, hnew]
      rfl
    · rw [if_neg hid, h.held, hholders id hid, hstate id hid]
  · rw [hnext]
    by_cases hid : id = ⟨p.next⟩
    · simp [hid, hnew]
    · rw [hstate id hid, h.known, hlt hid]
  · rw [hnext]
    by_cases hid : id = ⟨p.next⟩
    · simp [hid]
    · rw [hholders id hid, hlt hid]
      exact h.counted id
  · rw [hnext]
    refine (h.released id).trans ?_
    by_cases hid : id = ⟨p.next⟩
    · simp [hid, hone]
    · rw [hholders id hid, hlt hid]

/-- Changing the entry of a reader that is held and stays held. -/
theorem update (h : p.Tracks holders state) {f : Held ρ → Held ρ} (hid : holders id ≠ 0) (hid' : holders' id ≠ 0)
    (hf : ∀ reader, state id = some reader → some (f ⟨reader, holders id⟩) = (state' id).map (⟨·, holders' id⟩))
    (hholders : ∀ other ≠ id, holders' other = holders other) (hstate : ∀ other ≠ id, state' other = state other) :
    (p.update id f).Tracks holders' state' := by
  obtain ⟨reader, hreader, hheld⟩ := h.exists_held hid
  have hnew := hf reader hreader
  have hzero (other : ReaderId) : holders' other = 0 ↔ holders other = 0 := by
    by_cases hother : other = id
    · rw [hother]
      exact ⟨fun h => absurd h hid', fun h => absurd h hid⟩
    · rw [hholders other hother]
  refine ⟨fun other => ?_, fun other => ?_, fun other hother => ?_, fun other => ?_, h.once⟩
  · rw [held?_update]
    by_cases hother : other = id
    · rw [if_pos hother, hother, if_neg hid', hheld, ← hnew]
      rfl
    · rw [if_neg hother, h.held, hholders other hother, hstate other hother]
  · refine Iff.trans ?_ (h.known other)
    by_cases hother : other = id
    · rw [hother, hreader]
      refine iff_of_true ?_ rfl
      have hsome := congrArg Option.isSome hnew
      rw [Option.isSome_map] at hsome
      exact hsome.symm
    · rw [hstate other hother]
  · exact h.counted other (mt (hzero other).2 hother)
  · rw [hzero other]
    exact h.released other

/-- It stays in step when a holder joins the others. -/
theorem retain (h : p.Tracks holders state) (hid : holders id ≠ 0) (hmore : holders' id = holders id + 1)
    (hholders : ∀ other ≠ id, holders' other = holders other) : (p.retain id).Tracks holders' state :=
  h.update hid (by omega) (fun reader hreader => by rw [hreader, hmore]; rfl) hholders fun _ _ => rfl

/-- It stays in step when a reader changes in use. -/
theorem put (h : p.Tracks holders state) (hid : holders id ≠ 0) {reader : ρ} (hnew : state' id = some reader)
    (hstate : ∀ other ≠ id, state' other = state other) : (p.put id reader).Tracks holders state' :=
  h.update hid hid (fun _ _ => by rw [hnew]; rfl) (fun _ _ => rfl) hstate

/-- One holder less. The last holder releases the reader, which was not released before. -/
theorem release (h : p.Tracks holders state) (hless : holders id = holders' id + 1)
    (hholders : ∀ other ≠ id, holders' other = holders other) : (p.release id).Tracks holders' state := by
  have hid : holders id ≠ 0 := by omega
  obtain ⟨reader, hreader, hheld⟩ := h.exists_held hid
  unfold Pool.release
  rw [hheld]
  dsimp only
  split
  case isFalse hlast =>
    refine h.update hid (by omega) (fun reader hreader => ?_) hholders fun _ _ => rfl
    rw [hreader, hless]
    rfl
  case isTrue hlast =>
    have hnone : holders' id = 0 := by omega
    refine ⟨fun other => ?_, h.known, fun other hother => h.counted other ?_, fun other => ?_, ?_⟩
    · refine (lookup_filter_eq_ite p.readers id other).trans ?_
      by_cases hother : other = id
      · rw [if_pos hother, hother, if_pos hnone]
      · rw [if_neg hother, hholders other hother]
        exact h.held other
    · by_cases hsame : other = id
      · rw [hsame]
        exact hid
      · rw [← hholders other hsame]
        exact hother
    · rw [List.mem_cons, h.released]
      by_cases hother : other = id
      · rw [hother]
        exact iff_of_true (.inl rfl) ⟨h.counted id hid, hnone⟩
      · rw [hholders other hother]
        exact or_iff_right hother
    · exact List.nodup_cons.2 ⟨fun hmem => hid ((h.released id).1 hmem).2, h.once⟩

end Tracks

/-- Using a reader releases none. -/
theorem released_use (p : Pool ρ) (id : ReaderId) (act : ρ → ρ × α) : (p.use id act).1.released = p.released := by
  unfold use
  split <;> rfl

/-- Holding a reader while it is used leaves nothing but the use. -/
theorem release_put_retain {p : Pool ρ} {id : ReaderId} {held : Held ρ} (hheld : p.held? id = some held)
    (hholders : 0 < held.holders) (reader : ρ) : ((p.retain id).put id reader).release id = p.put id reader := by
  have hmore : ((p.retain id).put id reader).held? id = some ⟨reader, held.holders + 1⟩ := by
    rw [put, held?_update, if_pos rfl, retain, held?_update, if_pos rfl, hheld]
    rfl
  unfold release
  rw [hmore]
  dsimp only
  rw [if_neg (by omega)]
  unfold put retain update
  dsimp only
  rw [List.map_map, List.map_map]
  congr 1
  refine List.map_congr_left fun entry _ => ?_
  by_cases hentry : entry.1 = id
  · simp [hentry]
  · simp [hentry]

/-- A reader that someone holds is replaced by what became of it in use. -/
theorem use_eq_put {p : Pool ρ} {id : ReaderId} {held : Held ρ} (hheld : p.held? id = some held) (act : ρ → ρ × α) :
    p.use id act = (p.put id (act held.reader).1, some (act held.reader).2) := by
  have hreader : p.reader? id = some held.reader := by rw [reader?, hheld, Option.map_some]
  rw [use, hreader]

end Pool

/-! ## Using a slot -/

namespace Slot

variable {ρ α : Type}

/-- Using a slot takes nothing back that was released. -/
theorem released_use (p : Pool ρ) (slot : Slot) (act : ρ → ρ × α) : p.released <:+ (use p slot act).1.released := by
  obtain ⟨_ | id⟩ := slot
  · exact List.suffix_rfl
  · have huse : ((p.retain id).use id act).1.released = p.released := Pool.released_use _ id act
    exact huse ▸ Pool.released_release _ id

/-- Using a slot is using its reader. -/
theorem use_eq_put {p : Pool ρ} {id : ReaderId} {held : Held ρ} (hheld : p.held? id = some held) (hholders : 0 < held.holders)
    (act : ρ → ρ × α) : use p ⟨some id⟩ act = (p.put id (act held.reader).1, .ok (some (act held.reader).2)) := by
  have hretained : (p.retain id).held? id = some ⟨held.reader, held.holders + 1⟩ := by
    rw [Pool.retain, Pool.held?_update, if_pos rfl, hheld]
    rfl
  show (((p.retain id).use id act).1.release id, Except.ok ((p.retain id).use id act).2) = _
  rw [Pool.use_eq_put hretained, Pool.release_put_retain hheld hholders]

end Slot

/-- A session uses a slot by putting its reader back. That is what comes of holding the reader while it is used. -/
theorem Session.use_eq_use_slot {κ ν α : Type} {s : Session κ ν} {name : String} {slot : Slot}
    (hname : s.holding? name = some (.slot slot))
    (hheld : ∀ id, slot.current = some id → ∃ held, s.pool.held? id = some held ∧ 0 < held.holders)
    (act : Table κ ν → Table κ ν × Except Fault α) :
    s.use name act = (s.withPool (slot.use s.pool act).1,
      match (slot.use s.pool act).2 with
      | .ok result => need result >>= lift
      | .error fault => .error (.cause fault)) := by
  obtain ⟨_ | id⟩ := slot
  · have htable : s.table name = .error (.cause .handleClosed) := by
      rw [table, hname]
      rfl
    rw [Session.use, htable]
    rfl
  · obtain ⟨held, hheld, hholders⟩ := hheld id rfl
    have hreader : s.pool.reader? id = some held.reader := by rw [Pool.reader?, hheld, Option.map_some]
    have htable : s.table name = .ok held.reader := by
      rw [table, hname]
      show need (s.pool.reader? id) = _
      rw [hreader]
      rfl
    rw [Session.use, htable, Slot.use_eq_put hheld hholders]
    dsimp only
    rw [putTable, hname]
    rfl

end FrozenTable
