/-!
# Rounding to 53 bits

The few facts about 64-bit binary floats that tables need: the float nearest to a quotient of natural numbers, the pattern of
the float nearest to an integer, the pattern of a 32-bit float as a 64-bit one, and a float with two decimal places. All
rounding is to the nearest value, and a tie goes to the even one.
-/

namespace FrozenTable.Binary64

/-- The quotient of two natural numbers rounded to the nearest one, a tie to the even one. -/
def roundDiv (num den : Nat) : Nat :=
  let q := num / den
  let twice := 2 * (num % den)
  if den < twice ∨ (twice = den ∧ q % 2 = 1) then q + 1 else q

/-- The number `mantissa * 2 ^ exponent`. -/
structure Dyadic where
  mantissa : Nat
  exponent : Int
deriving DecidableEq, Repr

/-- The numerator of a dyadic number over `den`. -/
def Dyadic.num (x : Dyadic) : Nat :=
  x.mantissa <<< x.exponent.toNat

/-- The power of two under `num`. -/
def Dyadic.den (x : Dyadic) : Nat :=
  1 <<< (-x.exponent).toNat

/-- A quotient times a power of two, rounded. -/
def scaled (num den : Nat) (shift : Int) : Nat :=
  roundDiv (num <<< shift.toNat) (den <<< (-shift).toNat)

/-- The float nearest to a quotient, where that is neither too large nor too small for full precision. -/
def nearest (num den : Nat) : Dyadic :=
  if num = 0 then ⟨0, 0⟩
  else
    let shift : Int := 52 - (Nat.log2 num : Int) + Nat.log2 den
    let full := num <<< shift.toNat < den <<< (52 + (-shift).toNat)
    let shift := if full then shift + 1 else shift
    ⟨scaled num den shift, -shift⟩

/-- The pattern of a float that is not negative. -/
def pattern (x : Dyadic) : Nat :=
  if x.mantissa = 0 then 0
  else
    let log := Nat.log2 x.mantissa
    let fraction := x.mantissa <<< (52 - log) >>> (log - 52)
    (x.exponent + log + 1023).toNat <<< 52 + (fraction - 1 <<< 52)

/-- The pattern of the float nearest to an integer. -/
def ofInt (n : Int) : UInt64 :=
  UInt64.ofNat ((if n < 0 then 1 <<< 63 else 0) + pattern (nearest n.natAbs 1))

/-- The pattern of a 32-bit float as a 64-bit float. What is not a number keeps its payload and becomes quiet. -/
def widen (narrow : UInt32) : UInt64 :=
  let bits := narrow.toNat
  let sign := bits >>> 31 <<< 63
  let exponent := (bits >>> 23) % 256
  let fraction := bits % 0x800000
  let size :=
    if exponent = 255 then 2047 <<< 52 + (if fraction = 0 then 0 else fraction <<< 29 ||| 1 <<< 51)
    else if exponent = 0 then pattern ⟨fraction, -149⟩
    else (exponent + 896) <<< 52 + fraction <<< 29
  UInt64.ofNat (sign + size)

/-- A dyadic number with two decimal places. -/
def twoPlaces (x : Dyadic) : String :=
  let hundredths := roundDiv (x.num * 100) x.den
  let places := hundredths % 100
  toString (hundredths / 100) ++ "." ++ (if places < 10 then "0" else "") ++ toString places

/-- The share of `part` in `whole` in percent, as floats compute it: each of conversion, product and quotient is rounded. -/
def percent (part whole : Nat) : Dyadic :=
  let part := nearest part 1
  let whole := nearest whole 1
  let product := nearest (part.num * 100) part.den
  nearest (product.num * whole.den) (product.den * whole.num)

example : ofInt 5 = 0x4014000000000000 := by decide +kernel
example : ofInt (-1) = 0xBFF0000000000000 := by decide +kernel
example : ofInt 0x20000000000001 = 0x4340000000000000 := by decide +kernel
example : widen 0x00000001 = 0x36A0000000000000 := by decide +kernel
example : twoPlaces (percent 1 3) = "33.33" := by decide +kernel

end FrozenTable.Binary64
