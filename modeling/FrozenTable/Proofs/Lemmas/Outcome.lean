import Mathlib
import FrozenTable.Fault

/-!
# Computations that may fail

What is known of the parts of a computation that ended well, for the ways in which computations are put together here: one
after the other, over the elements of a list with a state, and over the elements of a list on their own.
-/

namespace FrozenTable.Outcome

variable {ε α β σ : Type}

/-- A computation after another one ends well exactly when both do, the second from what the first gave. -/
theorem bind_eq_ok {x : Except ε α} {f : α → Except ε β} {b : β} :
    (x >>= f) = .ok b ↔ ∃ a, x = .ok a ∧ f a = .ok b := by
  cases x with
  | error e =>
    constructor
    · intro h
      exact nomatch h
    · rintro ⟨a, ha, -⟩
      exact nomatch ha
  | ok a =>
    constructor
    · intro h
      exact ⟨a, rfl, h⟩
    · rintro ⟨a', ha, h⟩
      cases ha
      exact h

/-- A computation after another one fails exactly when the first does, or the second on what the first gave. -/
theorem bind_eq_error {x : Except ε α} {f : α → Except ε β} {e : ε} :
    (x >>= f) = .error e ↔ x = .error e ∨ ∃ a, x = .ok a ∧ f a = .error e := by
  cases x with
  | error e' =>
    constructor
    · intro h
      exact .inl (by cases h; rfl)
    · rintro (h | ⟨a, ha, -⟩)
      · cases h
        rfl
      · exact nomatch ha
  | ok a =>
    constructor
    · intro h
      exact .inr ⟨a, rfl, h⟩
    · rintro (h | ⟨a', ha, h⟩)
      · exact nomatch h
      · cases ha
        exact h

theorem ok_bind {f : α → Except ε β} (a : α) : ((.ok a : Except ε α) >>= f) = f a := rfl

theorem pure_eq_ok {a b : α} : (pure a : Except ε α) = .ok b ↔ a = b := by
  constructor
  · intro h
    cases h
    rfl
  · rintro rfl
    rfl

/-- A mapped outcome is ok when the outcome is. -/
theorem map_eq_ok {x : Except ε α} {f : α → β} {b : β} : Except.map f x = .ok b ↔ ∃ a, x = .ok a ∧ f a = b := by
  cases x with
  | error e => simp [Except.map]
  | ok a => simp [Except.map]

/-- What is made of faults does not matter where there are none. -/
theorem mapError_eq_ok {ε' : Type} {x : Except ε α} {f : ε → ε'} {a : α} : x.mapError f = .ok a ↔ x = .ok a := by
  cases x with
  | error e => simp [Except.mapError]
  | ok b => simp [Except.mapError]

/-- A computation with a result ended well with it. -/
theorem eq_ok_get {x : Except ε α} (h : x.toOption.isSome = true) : x = .ok (x.toOption.get h) := by
  cases x with
  | error e => exact nomatch h
  | ok a => rfl

/-- What holds of the state at first, and after each step if before, holds after a pass that ended well. The predicate is told
which elements the pass has behind it. -/
theorem foldlM_induction {f : σ → α → Except ε σ} {P : List α → σ → Prop} {s s' : σ} {xs : List α} (hstart : P [] s)
    (hstep : ∀ done x t t', P done t → f t x = .ok t' → P (done ++ [x]) t') (h : xs.foldlM f s = .ok s') : P xs s' := by
  -- the elements behind the pass move from `xs` to `done`
  suffices key : ∀ (xs done : List α) (s : σ), P done s → xs.foldlM f s = .ok s' → P (done ++ xs) s' by
    exact key xs [] s hstart h
  intro xs
  induction xs with
  | nil =>
    intro done s hs h
    rw [List.foldlM_nil, pure_eq_ok] at h
    rw [List.append_nil, ← h]
    exact hs
  | cons x xs ih =>
    intro done s hs h
    rw [List.foldlM_cons, bind_eq_ok] at h
    obtain ⟨t, ht, h⟩ := h
    have := ih (done ++ [x]) t (hstep done x s t hs ht) h
    rwa [List.append_assoc] at this

/-- A pass that ended well took every element. -/
theorem exists_step_of_foldlM {f : σ → α → Except ε σ} {s s' : σ} {xs : List α} (h : xs.foldlM f s = .ok s') :
    ∀ x ∈ xs, ∃ t t', f t x = .ok t' := by
  induction xs generalizing s with
  | nil =>
    intro x hx
    exact nomatch hx
  | cons y xs ih =>
    rw [List.foldlM_cons, bind_eq_ok] at h
    obtain ⟨t, ht, h⟩ := h
    intro x hx
    rcases List.mem_cons.1 hx with rfl | hx
    · exact ⟨s, t, ht⟩
    · exact ih h x hx

/-- A pass over results that ended well met no fault among them. -/
theorem exists_map_ok_of_foldlM {f : σ → α → Except ε σ} {s s' : σ} {found : List (Except ε α)}
    (h : found.foldlM (fun t x => do f t (← x)) s = .ok s') : ∃ xs : List α, found = xs.map .ok := by
  have hall := exists_step_of_foldlM h
  clear h
  induction found with
  | nil => exact ⟨[], rfl⟩
  | cons x found ih =>
    obtain ⟨xs, rfl⟩ := ih fun y hy => hall y (List.mem_cons_of_mem _ hy)
    obtain ⟨t, t', hstep⟩ := hall x List.mem_cons_self
    obtain ⟨a, rfl, -⟩ := bind_eq_ok.1 hstep
    exact ⟨a :: xs, rfl⟩

/-- A pass that failed did so at one of the elements, and went well before. -/
theorem exists_step_of_foldlM_error {f : σ → α → Except ε σ} {s : σ} {xs : List α} {e : ε} (h : xs.foldlM f s = .error e) :
    ∃ done x rest t, xs = done ++ x :: rest ∧ done.foldlM f s = .ok t ∧ f t x = .error e := by
  induction xs generalizing s with
  | nil => exact nomatch h
  | cons y xs ih =>
    rw [List.foldlM_cons] at h
    cases ht : f s y with
    | error fault =>
      rw [ht] at h
      cases h
      exact ⟨[], y, xs, s, rfl, rfl, ht⟩
    | ok t =>
      rw [ht] at h
      obtain ⟨done, x, rest, t', rfl, hdone, hx⟩ := ih h
      refine ⟨y :: done, x, rest, t', rfl, ?_, hx⟩
      rw [List.foldlM_cons, ht]
      exact hdone

/-- The elements of a pass that ended well were all taken. -/
theorem mapM_eq_ok {f : α → Except ε β} {xs : List α} {ys : List β} :
    xs.mapM f = .ok ys ↔ xs.map f = ys.map .ok := by
  induction xs generalizing ys with
  | nil =>
    rw [List.mapM_nil, pure_eq_ok]
    cases ys <;> simp
  | cons x xs ih =>
    rw [List.mapM_cons, bind_eq_ok]
    constructor
    · rintro ⟨y, hy, h⟩
      obtain ⟨ys', hys, h⟩ := bind_eq_ok.1 h
      cases h
      rw [List.map_cons, List.map_cons, hy, ih.1 hys]
    · intro h
      cases ys with
      | nil => exact nomatch h
      | cons y ys =>
        rw [List.map_cons, List.map_cons, List.cons.injEq] at h
        exact ⟨y, h.1, bind_eq_ok.2 ⟨ys, ih.2 h.2, rfl⟩⟩

/-- A pass in which no element fails. -/
theorem mapM_ok {f : α → Except ε β} {g : α → β} {xs : List α} (h : ∀ x ∈ xs, f x = .ok (g x)) :
    xs.mapM f = .ok (xs.map g) := by
  rw [mapM_eq_ok, List.map_map]
  exact List.map_congr_left h

/-- A pass that ended well failed for no element. -/
theorem exists_of_mapM {f : α → Except ε β} {xs : List α} {ys : List β} (h : xs.mapM f = .ok ys) {x : α} (hx : x ∈ xs) :
    ∃ y ∈ ys, f x = .ok y := by
  have hmem := List.mem_map_of_mem (f := f) hx
  rw [mapM_eq_ok.1 h, List.mem_map] at hmem
  obtain ⟨y, hy, hsame⟩ := hmem
  exact ⟨y, hy, hsame.symm⟩

/-- A pass that failed did so for one of the elements. -/
theorem exists_of_mapM_error {f : α → Except ε β} {xs : List α} {e : ε} (h : xs.mapM f = .error e) :
    ∃ x ∈ xs, f x = .error e := by
  induction xs with
  | nil => exact nomatch h
  | cons x xs ih =>
    rw [List.mapM_cons] at h
    rcases bind_eq_error.1 h with hx | ⟨y, -, h⟩
    · exact ⟨x, List.mem_cons_self, hx⟩
    · rcases bind_eq_error.1 h with hxs | ⟨ys, -, h⟩
      · obtain ⟨x', hx', hfault⟩ := ih hxs
        exact ⟨x', List.mem_cons_of_mem _ hx', hfault⟩
      · cases h

/-- A pass in which no element fails ends well. -/
theorem exists_mapM {f : α → Except ε β} {xs : List α} (h : ∀ x ∈ xs, ∃ y, f x = .ok y) : ∃ ys, xs.mapM f = .ok ys := by
  induction xs with
  | nil => exact ⟨[], rfl⟩
  | cons x xs ih =>
    obtain ⟨y, hy⟩ := h x List.mem_cons_self
    obtain ⟨ys, hys⟩ := ih fun x hx => h x (List.mem_cons_of_mem _ hx)
    exact ⟨y :: ys, by rw [List.mapM_cons, hy, hys]; rfl⟩

/-- A pass over the same elements in another order gives the same in another order. -/
theorem exists_mapM_perm {f : α → Except ε β} {xs xs' : List α} {ys : List β} (hperm : xs.Perm xs')
    (h : xs.mapM f = .ok ys) : ∃ ys', xs'.mapM f = .ok ys' ∧ ys.Perm ys' := by
  obtain ⟨ys', h'⟩ : ∃ ys', xs'.mapM f = .ok ys' := exists_mapM fun x hx => by
    obtain ⟨y, -, hy⟩ := exists_of_mapM h (hperm.mem_iff.2 hx)
    exact ⟨y, hy⟩
  have hmapped := hperm.map f
  rw [mapM_eq_ok.1 h, mapM_eq_ok.1 h'] at hmapped
  exact ⟨ys', h', (List.map_perm_map_iff fun _ _ hsame => Except.ok.inj hsame).1 hmapped⟩

/-- What a pass over some elements gives in another order it gives for the elements in another order. -/
theorem exists_perm_of_mapM {f : α → Except ε β} {xs : List α} {ys ys' : List β}
    (h : xs.mapM f = .ok ys) (hperm : ys'.Perm ys) : ∃ xs' : List α, xs'.Perm xs ∧ xs'.mapM f = .ok ys' := by
  have hmapped : (ys'.map Except.ok : List (Except ε β)).Perm (xs.map f) := by
    rw [mapM_eq_ok.1 h]
    exact hperm.map _
  have hcomp := congrFun (congrFun (List.eq_map_comp_perm f) (ys'.map Except.ok)) xs
  obtain ⟨xs', hxs', hperm'⟩ := hcomp.mpr hmapped
  exact ⟨xs', hperm', mapM_eq_ok.2 hxs'.symm⟩

/-- Elements for which a pass gave the same are the same, if it gave nothing twice. -/
theorem eq_of_mapM_nodup {f : α → Except ε β} {xs : List α} {ys : List β} (h : xs.mapM f = .ok ys) (hnodup : ys.Nodup)
    {x x' : α} (hx : x ∈ xs) (hx' : x' ∈ xs) (hsame : f x = f x') : x = x' := by
  have hapart : (ys.map Except.ok : List (Except ε β)).Nodup := hnodup.map fun _ _ heq => Except.ok.inj heq
  rw [← mapM_eq_ok.1 h] at hapart
  exact List.inj_on_of_nodup_map hapart hx hx' hsame

/-- A map that ends well has made each item of its own. -/
theorem getElem_of_mapM {f : α → Except ε β} {xs : List α} {ys : List β} (h : xs.mapM f = .ok ys) :
    ∃ hlen : ys.length = xs.length, ∀ i (hi : i < xs.length), f xs[i] = .ok ys[i] := by
  rw [mapM_eq_ok] at h
  have hlen : ys.length = xs.length := by simpa using (congrArg List.length h).symm
  refine ⟨hlen, fun i hi => ?_⟩
  have := congrArg (·[i]?) h
  simpa [hi, hlen ▸ hi] using this

/-- A pass over the numbers below the length of a list that gives the element at each. -/
theorem mapM_range {f : Nat → Except ε α} {xs : List α} {n : Nat} (hn : n = xs.length)
    (h : ∀ i (hi : i < xs.length), f i = .ok xs[i]) : (List.range n).mapM f = .ok xs := by
  subst hn
  rw [mapM_eq_ok]
  refine List.ext_getElem (by simp) ?_
  intro i hi _
  rw [List.length_map, List.length_range] at hi
  rw [List.getElem_map, List.getElem_map, List.getElem_range, h i hi]

/-- A computation that fails because the data it was given is invalid. -/
def Invalid (x : Except Fault α) : Prop :=
  ∃ fault, x = .error fault ∧ fault.kind = .invalidData

/-- What ends with an invalid input does not go on. -/
theorem Invalid.bind {x : Except Fault α} (h : Invalid x) (f : α → Except Fault β) : Invalid (x >>= f) := by
  obtain ⟨fault, rfl, hkind⟩ := h
  exact ⟨fault, rfl, hkind⟩

/-! ## Fatal faults -/

/-- A computation that ends without a fatal fault, well or not. -/
def Tame (x : Except Fault α) : Prop :=
  Fault.fatalIn x = none

/-- One step after the other is tame when both are. -/
theorem Tame.bind {x : Except Fault α} (h : Tame x) {f : α → Except Fault β} (hf : ∀ a, x = .ok a → Tame (f a)) :
    Tame (x >>= f) := by
  cases x with
  | error fault => exact h
  | ok a => exact hf a rfl

/-- What is made of a result brings no fault. -/
theorem Tame.map {x : Except Fault α} (h : Tame x) (f : α → β) : Tame (x.map f) := by
  cases x with
  | error fault => exact h
  | ok a => rfl

end FrozenTable.Outcome
