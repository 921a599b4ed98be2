/-!
# Binary search

The first place of a range from which on a test holds, for tests that keep holding once they hold.
-/

namespace FrozenTable

/-- Halves the range from `low` to `high` until one place is left. -/
def searchFirst (p : Nat → Bool) (low high : Nat) : Nat :=
  if low < high then
    let middle := (low + high) / 2
    if p middle then searchFirst p low middle else searchFirst p (middle + 1) high
  else low
termination_by high - low
decreasing_by all_goals omega

/-- The search ends where the test starts to hold. -/
theorem searchFirst_eq {p : Nat → Bool} {first low high : Nat} (below : ∀ i, i < first → p i = false)
    (from_on : ∀ i, first ≤ i → i < high → p i = true) (hl : low ≤ first) (hh : first ≤ high) :
    searchFirst p low high = first := by
  fun_induction searchFirst p low high with
  | case1 low high lt middle holds ih =>
    refine ih (fun i hi hm => from_on i hi (by omega)) hl ?_
    rcases Nat.lt_or_ge middle first with h | h
    · rw [below middle h] at holds; contradiction
    · exact h
  | case2 low high lt middle fails ih =>
    refine ih from_on ?_ hh
    rcases Nat.lt_or_ge middle first with h | h
    · exact h
    · rw [from_on middle h (by omega)] at fails; contradiction
  | case3 => omega

end FrozenTable
