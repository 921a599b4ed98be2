import FrozenTable.Xxh3.Words

/-!
# The XXH3 hash of short inputs

128-bit hashes of inputs of at most 240 bytes. Each range of lengths has a formula of its own, which reads the input at both
ends or in pieces of 32 bytes and mixes it with words of the plain secret.
-/

namespace FrozenTable.Xxh3

/-- A hash of 128 bits. -/
structure Digest where
  high : UInt64
  low : UInt64
deriving DecidableEq, Repr, Inhabited

/-- The secret words `i` and `j` as one. -/
def pairAt (i j : Nat) : UInt64 :=
  Secret.plain.wordAt i ^^^ Secret.plain.wordAt j

/-- The hash of the empty input. -/
def ofEmpty (seed : UInt64) : Digest where
  low := strongAvalanche (seed ^^^ pairAt 64 72)
  high := strongAvalanche (seed ^^^ pairAt 80 88)

/-- The hash of one to three bytes. -/
def ofUpTo3 (seed : UInt64) (x : Bytes) : Digest :=
  let n := x.length
  let byte (i : Nat) : UInt64 := (x.getD i 0).toUInt64
  let a := byte 0 <<< 16 ||| byte (n / 2) <<< 24 ||| byte (n - 1) ||| UInt64.ofNat n <<< 8
  let swapped := swapHalf a
  let b := lowHalf (swapped <<< 13) ||| swapped >>> 19
  let half (i j : Nat) := Secret.plain.halfAt i ^^^ Secret.plain.halfAt j
  { low := strongAvalanche (a ^^^ (half 0 4 + seed))
    high := strongAvalanche (b ^^^ (half 8 12 - seed)) }

/-- The hash of four to eight bytes. -/
def ofUpTo8 (seed : UInt64) (x : Bytes) : Digest :=
  let n := x.length
  let seed := seed ^^^ swapHalf (lowHalf seed) <<< 32
  let key := (halfWord x + halfWord (x.drop (n - 4)) <<< 32) ^^^ (pairAt 16 24 + seed)
  let factor := prime64a + UInt64.ofNat n <<< 2
  let low := key * factor
  let high := mulHigh key factor + low <<< 1
  let low := low ^^^ high >>> 3
  let low := (low ^^^ low >>> 35) * 0x9FB21C651E98DF25
  { low := low ^^^ low >>> 28
    high := avalanche high }

/-- The hash of nine to sixteen bytes. -/
def ofUpTo16 (seed : UInt64) (x : Bytes) : Digest :=
  let n := x.length
  let front := word x
  let back := word (x.drop (n - 8))
  let key := front ^^^ back ^^^ (pairAt 32 40 - seed)
  let low := key * prime64a + UInt64.ofNat (n - 1) <<< 54
  let back := back ^^^ (pairAt 48 56 + seed)
  let high := mulHigh key prime64a + back + lowHalf back * (prime32b - 1)
  let low := low ^^^ swapWord high
  { low := avalanche (low * prime64b)
    high := avalanche (mulHigh low prime64b + high * prime64b) }

/-- Sixteen bytes of the input mixed with sixteen of the secret. -/
def mix16 (seed : UInt64) (x : Bytes) (position : Nat) : UInt64 :=
  mulFold (word x ^^^ (Secret.plain.wordAt position + seed)) (word (x.drop 8) ^^^ (Secret.plain.wordAt (position + 8) - seed))

/-- Twice sixteen bytes of the input mixed into a state of two words. -/
def mix32 (seed : UInt64) (x : Bytes) (state : Digest) (step : Nat × Nat × Nat) : Digest :=
  let (i, j, position) := step
  let a := x.drop i
  let b := x.drop j
  { low := (state.low + mix16 seed a position) ^^^ (word b + word (b.drop 8))
    high := (state.high + mix16 seed b (position + 16)) ^^^ (word a + word (a.drop 8)) }

/-- The hash that a mixed state gives. -/
def finishMiddle (seed : UInt64) (n : Nat) (state : Digest) : Digest where
  low := avalanche (state.low + state.high)
  high := 0 - avalanche (state.low * prime64a + state.high * prime64d + (UInt64.ofNat n - seed) * prime64b)

/-- The state before anything is mixed in. -/
def startMiddle (n : Nat) : Digest where
  low := UInt64.ofNat n * prime64a
  high := 0

/-- The hash of 17 to 128 bytes: pieces from both ends, the inner ones first. -/
def ofUpTo128 (seed : UInt64) (x : Bytes) : Digest :=
  let n := x.length
  let rounds := (List.range ((n - 1) / 32 + 1)).reverse
  let steps := rounds.map fun r => (16 * r, n - 16 * r - 16, 32 * r)
  finishMiddle seed n (steps.foldl (mix32 seed x) (startMiddle n))

/-- The hash of 129 to 240 bytes: pieces from front to back, the last one from the end. -/
def ofUpTo240 (seed : UInt64) (x : Bytes) : Digest :=
  let n := x.length
  let rounds := List.range (n / 32)
  let first := (rounds.take 4).map fun r => (32 * r, 32 * r + 16, 32 * r)
  let state := first.foldl (mix32 seed x) (startMiddle n)
  let state : Digest := { low := avalanche state.low, high := avalanche state.high }
  let others := (rounds.drop 4).map fun r => (32 * r, 32 * r + 16, 3 + 32 * (r - 4))
  let state := others.foldl (mix32 seed x) state
  finishMiddle seed n (mix32 (0 - seed) x state (n - 16, n - 32, 103))

/-- The longest input that counts as short. -/
def maxShort : Nat := 240

/-- The hash of at most 240 bytes. -/
def ofShort (seed : UInt64) (x : Bytes) : Digest :=
  let n := x.length
  if n = 0 then ofEmpty seed
  else if n ≤ 3 then ofUpTo3 seed x
  else if n ≤ 8 then ofUpTo8 seed x
  else if n ≤ 16 then ofUpTo16 seed x
  else if n ≤ 128 then ofUpTo128 seed x
  else ofUpTo240 seed x

end FrozenTable.Xxh3
