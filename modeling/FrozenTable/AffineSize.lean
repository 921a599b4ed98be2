import FrozenTable.Word64
import FrozenTable.Text.Quoted

/-!
# Sizes on a line

A codec whose encoded sizes are all of the form `slope * x + constant` says so by an `AffineSize`. Adding the lines of two
codecs gives a line for their records: the slopes fold into their greatest common divisor and the constants add up. Single
sizes cannot be recovered from it, but every sum of sizes lies on it, which is what compressed offsets need.

Sizes are exact integers here. Where a result has to fit a 64-bit word, the function returns an option.
-/

namespace FrozenTable

/-- The line `slope * x + constant`. -/
@[ext]
structure AffineSize where
  slope : Int
  constant : Int
deriving DecidableEq, Repr

namespace AffineSize

/-- The line of sizes that never change. -/
def always (value : Int) : AffineSize :=
  ⟨0, value⟩

/-- The line of sizes that are multiples of `slope`. -/
def multipleOf (slope : Int) : AffineSize :=
  ⟨slope, 0⟩

/-- Whether all sizes on the line are equal. -/
def isConstant (e : AffineSize) : Bool :=
  e.slope == 0

/-- Euclid's loop: the second number and the remainder take the place of both until no remainder is left. It stays open to
reduction, so that the lines of given settings are computed. -/
@[semireducible]
def euclid (a b : Nat) : Nat :=
  if b = 0 then a else euclid b (a % b)
termination_by b
decreasing_by exact Nat.mod_lt a (by omega)

/-- What the loop finds for two slopes of any sign, as a signed word: only 2^63 has no positive one. -/
def gcd (a b : Int) : Int :=
  Word64.signed (euclid a.natAbs b.natAbs)

/-- The line of a size of one line followed by a size of another. -/
def add (a b : AffineSize) : AffineSize :=
  ⟨gcd a.slope b.slope, a.constant + b.constant⟩

/-- The line of `n` sizes of one line, one after the other. -/
def times (e : AffineSize) (n : Int) : AffineSize :=
  ⟨e.slope, e.constant * n⟩

/-- The size at `x`. -/
def apply (e : AffineSize) (x : Int) : Int :=
  e.slope * x + e.constant

/-- The size at `x` with the constant counted `n` times. -/
def applyNth (e : AffineSize) (x n : Int) : Int :=
  e.slope * x + e.constant * n

/-- The slope, or one where the line is flat. -/
def divisor (e : AffineSize) : Int :=
  if e.slope = 0 then 1 else e.slope

/-- The `x` at which the line has size `y`, rounded toward zero; a flat line counts as one of slope one. -/
def solve (e : AffineSize) (y : Int) : Int :=
  (y - e.constant).tdiv e.divisor

/-- Like `solve` with the constant counted `n` times. -/
def solveNth (e : AffineSize) (y n : Int) : Int :=
  (y - e.constant * n).tdiv e.divisor

/-- A quotient as a signed word; the one quotient of signed words that is none is -2^63 by -1. -/
def word? (quotient : Int) : Option Int :=
  if Word64.IsSigned quotient then some quotient else none

/-- Whether some size of the line is `size`, at an `x` that is not negative. -/
def fits (e : AffineSize) (size : Int) : Bool :=
  if e.slope = 0 then size == e.constant
  else
    let rest := size - e.constant
    decide (0 ≤ rest) && rest.tmod e.slope == 0

/-- The line as a formula. -/
def text (e : AffineSize) : String :=
  toString e.slope ++ "x + " ++ toString e.constant

/-- The line as a record. -/
def recordText (e : AffineSize) : String :=
  Text.ofFields "SizeEquation" [("slope", toString e.slope), ("constant", toString e.constant)]

/-- The loop ends with the greatest common divisor, as each round keeps the common divisors. -/
theorem euclid_eq_gcd (a b : Nat) : euclid a b = Nat.gcd a b := by
  fun_induction euclid a b with
  | case1 a => exact (Nat.gcd_zero_right a).symm
  | case2 a b _ ih => rw [ih, Nat.gcd_comm b, ← Nat.gcd_rec, Nat.gcd_comm]

theorem gcd_eq (a b : Int) : gcd a b = Word64.signed (Int.gcd a b) := by
  rw [gcd, euclid_eq_gcd, Int.gcd]

theorem fits_always (value size : Int) : (always value).fits size = true ↔ size = value := by
  simp [fits, always]

end AffineSize

end FrozenTable
