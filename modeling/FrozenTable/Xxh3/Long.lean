import FrozenTable.Xxh3.Short

/-!
# The XXH3 hash of inputs of any length

Inputs over 240 bytes run through eight accumulators in stripes of 64 bytes. Sixteen stripes make a block, after which the
accumulators are scrambled; the last stripe is read from the very end of the input and may overlap the one before it.
-/

namespace FrozenTable.Xxh3

/-- The eight accumulators. -/
abbrev Lanes := List UInt64

/-- The accumulators before any input. -/
def startLanes : Lanes :=
  [prime32c, prime64a, prime64b, prime64c, prime64d, prime32b, prime64e, prime32a]

/-- Words with neighbours exchanged. -/
def swapPairs : List UInt64 → List UInt64
  | a :: b :: rest => b :: a :: swapPairs rest
  | rest => rest

/-- The two halves of a word multiplied. -/
def mulHalves (e : UInt64) : UInt64 :=
  lowHalf e * (e >>> 32)

/-- The length of a stripe. -/
def stripeSize : Nat := 64

/-- The length of a block. -/
def blockSize : Nat := 1024

/-- Runs one stripe into the accumulators, against the secret from a position on. -/
def stripe (secret : Secret) (lanes : Lanes) (position : Nat) (bytes : Bytes) : Lanes :=
  let data := words 8 bytes
  let mixed := List.zipWith (· ^^^ ·) data (secret.row position 8)
  List.zipWith (· + ·) (List.zipWith (· + ·) lanes (swapPairs data)) (mixed.map mulHalves)

/-- Runs stripes into the accumulators, the secret moving on by one word at each. -/
def stripes (secret : Secret) : (count : Nat) → (position : Nat) → Lanes → Bytes → Lanes
  | 0, _, lanes, _ => lanes
  | count + 1, position, lanes, bytes =>
    stripes secret count (position + 8) (stripe secret lanes position bytes) (bytes.drop stripeSize)

/-- Scrambles the accumulators. -/
def scramble (secret : Secret) (lanes : Lanes) : Lanes :=
  List.zipWith (fun (v key : UInt64) => (v ^^^ v >>> 47 ^^^ key) * prime32a) lanes (secret.row 128 8)

/-- Runs one block into the accumulators. -/
def block (secret : Secret) (lanes : Lanes) (bytes : Bytes) : Lanes :=
  scramble secret (stripes secret 16 0 lanes bytes)

/-- Runs `count` blocks into the accumulators and returns the bytes behind them. -/
def blocks (secret : Secret) : (count : Nat) → Lanes → Bytes → Lanes × Bytes
  | 0, lanes, bytes => (lanes, bytes)
  | count + 1, lanes, bytes => blocks secret count (block secret lanes bytes) (bytes.drop blockSize)

/-- How many of `n` bytes stand in pieces of a given size before the last byte. -/
def piecesBefore (size n : Nat) : Nat :=
  (n - 1) / size

/-- Neighbouring accumulators folded into each other. -/
def foldPairs : List UInt64 → List UInt64 → UInt64
  | a :: b :: lanes, p :: q :: keys => mulFold (a ^^^ p) (b ^^^ q) + foldPairs lanes keys
  | _, _ => 0

/-- One word of the hash, from all accumulators. -/
def merge (secret : Secret) (lanes : Lanes) (position : Nat) (start : UInt64) : UInt64 :=
  avalanche (start + foldPairs lanes (secret.row position 8))

/-- The hash of an input of `n` bytes whose last stripe is `last` and whose last block, as far as there is one, is `rest`. -/
def finishLong (secret : Secret) (n : Nat) (lanes : Lanes) (rest last : Bytes) : Digest :=
  let lanes := stripes secret (piecesBefore stripeSize rest.length) 0 lanes rest
  let lanes := stripe secret lanes 121 last
  let length := UInt64.ofNat n
  { low := merge secret lanes 11 (length * prime64a)
    high := merge secret lanes 117 (~~~(length * prime64b)) }

/-- The last bytes of a byte string, at most `n` of them. -/
def lastBytes (n : Nat) (bytes : Bytes) : Bytes :=
  bytes.drop (bytes.length - n)

/-- The hash of more than 240 bytes. -/
def ofLong (seed : UInt64) (x : Bytes) : Digest :=
  let secret := Secret.seeded seed
  let n := x.length
  let (lanes, rest) := blocks secret (piecesBefore blockSize n) startLanes x
  finishLong secret n lanes rest (lastBytes stripeSize x)

/-- The 128-bit hash of a byte string. -/
def hash (seed : UInt64) (x : Bytes) : Digest :=
  if x.length ≤ maxShort then ofShort seed x else ofLong seed x

end FrozenTable.Xxh3
