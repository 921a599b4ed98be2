import FrozenTable.Binary64
import FrozenTable.Search

/-!
# The shortest text of a float

The text of a 64-bit float has the fewest digits that read back as the same float, and of those with that many digits it is the
nearest to the float. The float itself and the two ends of the numbers that round to it are taken as exact fractions over one
denominator, and decimal grids of one, two, … digits are tried until a point of the grid lies between the ends.
-/

namespace FrozenTable.Binary64

/-- A positive number between the ends of the numbers that round to it, all three over one denominator. -/
structure Rounding where
  low : Nat
  value : Nat
  high : Nat
  den : Nat
  /-- Whether the ends round to the number as well. -/
  closed : Bool
deriving DecidableEq, Repr

/-- The number `digits` times a power of ten. -/
structure Decimal where
  digits : Nat
  exponent : Int
deriving DecidableEq, Repr

/-- The numbers that round to a float with a given size, sign apart. The gap below a power of two is half the gap above it. -/
def rounding (size : Nat) : Rounding :=
  let biased := size >>> 52
  let fraction := size % 1 <<< 52
  let mantissa := if biased = 0 then fraction else 1 <<< 52 + fraction
  let exponent : Int := (max biased 1 : Nat) - 1077
  let below := if fraction = 0 ∧ 1 < biased then 1 else 2
  let up := exponent.toNat
  { low := (4 * mantissa - below) <<< up
    value := (4 * mantissa) <<< up
    high := (4 * mantissa + 2) <<< up
    den := 1 <<< (-exponent).toNat
    closed := mantissa % 2 = 0 }

/-- The same numbers divided by a power of ten. -/
def Rounding.scale (r : Rounding) (exponent : Int) : Rounding :=
  let up := Nat.pow 10 (-exponent).toNat
  { r with low := r.low * up, value := r.value * up, high := r.high * up, den := r.den * Nat.pow 10 exponent.toNat }

/-- Whether a whole number lies between the ends. -/
def Rounding.holds (r : Rounding) (n : Nat) : Bool :=
  let scaled := n * r.den
  if r.closed then r.low ≤ scaled && scaled ≤ r.high else r.low < scaled && scaled < r.high

/-- The whole number next to the value, if it lies between the ends; a half goes up. -/
def Rounding.whole? (r : Rounding) : Option Nat :=
  let down := r.value / r.den
  let nearDown := 2 * (r.value % r.den) < r.den
  let (first, second) := if nearDown then (down, down + 1) else (down + 1, down)
  if r.holds first then some first else if r.holds second then some second else none

/-- The exponent of the first decimal digit of the value: the first of those from -324 on whose next power of ten is larger. -/
def Rounding.magnitude (r : Rounding) : Int :=
  let larger (i : Nat) : Bool := let s := r.scale ((i : Int) - 323); s.value < s.den
  (searchFirst larger 0 633 : Nat) - 324

/-- The first grid with a point between the ends, of those with `digits` digits and more, at most `more` more. -/
def Rounding.shortest (r : Rounding) (magnitude : Int) : (more digits : Nat) → Decimal
  | 0, digits => ⟨0, digits⟩
  | more + 1, digits =>
    let exponent := magnitude + 1 - (digits : Int)
    match (r.scale exponent).whole? with
    | some n => ⟨n, exponent⟩
    | none => r.shortest magnitude more (digits + 1)

/-- The digits of a number without the zeros at its end, and how many zeros these are. -/
def stripZeros : (steps : Nat) → Decimal → Decimal
  | 0, d => d
  | steps + 1, d => if d.digits % 10 = 0 ∧ d.digits ≠ 0 then stripZeros steps ⟨d.digits / 10, d.exponent + 1⟩ else d

/-- A decimal with its point in place, and one digit behind the point at least. -/
def Decimal.positional (d : Decimal) : String :=
  let digits := toString d.digits
  let places := (-d.exponent).toNat
  if 0 ≤ d.exponent then digits ++ "".pushn '0' d.exponent.toNat ++ ".0"
  else
    let padded := "".pushn '0' (places + 1 - digits.length) ++ digits
    let cut := padded.length - places
    String.ofList (padded.toList.take cut) ++ "." ++ String.ofList (padded.toList.drop cut)

/-- A decimal with its point behind the first digit, and the power of ten. -/
def Decimal.scientific (d : Decimal) : String :=
  let digits := (toString d.digits).toList
  let fraction := digits.drop 1
  let point := if fraction = [] then "" else "."
  String.ofList (digits.take 1) ++ point ++ String.ofList fraction ++ "e"
    ++ toString (d.exponent + (digits.length : Int) - 1)

/-- The text of a float that is not negative; the power of ten is told from 10^16 on and below 10^-4. -/
def sizeText (size : Nat) : String :=
  if size = 0 then "0.0"
  else
    let r := rounding size
    let magnitude := r.magnitude
    let d := stripZeros 20 (r.shortest magnitude 17 1)
    if magnitude < -4 ∨ 16 ≤ magnitude then d.scientific else d.positional

/-- The text of a float with a given pattern. -/
def text (pattern : UInt64) : String :=
  let size := pattern.toNat % 1 <<< 63
  let sign := if pattern.toNat >>> 63 = 1 then "-" else ""
  if 2047 <<< 52 < size then "NaN"
  else if size = 2047 <<< 52 then sign ++ "inf"
  else sign ++ sizeText size

end FrozenTable.Binary64
