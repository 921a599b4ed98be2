import FrozenTable.Bytes

/-!
# Words of the XXH3 hash

The XXH3 hash reads its input and a secret of 192 bytes as 64-bit words, least significant byte first, at any position. This
module holds these readings, the products and avalanches that mix words, and the secret with the words that depend on a seed.
-/

namespace FrozenTable.Xxh3

/-- The word of the first eight bytes, least significant first; missing bytes count as zero. -/
def word (bytes : Bytes) : UInt64 :=
  (bytes.take 8).foldr (fun b w => b.toUInt64 ||| w <<< 8) 0

/-- The half word of the first four bytes. -/
def halfWord (bytes : Bytes) : UInt64 :=
  word (bytes.take 4)

/-- The words of a byte string that is cut into pieces of eight bytes, `count` of them. -/
def words : (count : Nat) → Bytes → List UInt64
  | 0, _ => []
  | count + 1, bytes => word bytes :: words count (bytes.drop 8)

def prime32a : UInt64 := 0x9E3779B1
def prime32b : UInt64 := 0x85EBCA77
def prime32c : UInt64 := 0xC2B2AE3D
def prime64a : UInt64 := 0x9E3779B185EBCA87
def prime64b : UInt64 := 0xC2B2AE3D27D4EB4F
def prime64c : UInt64 := 0x165667B19E3779F9
def prime64d : UInt64 := 0x85EBCA77C2B2AE63
def prime64e : UInt64 := 0x27D4EB2F165667C5

/-- The high word of a product of two words. -/
def mulHigh (a b : UInt64) : UInt64 :=
  UInt64.ofNat (a.toNat * b.toNat / 0x10000000000000000)

/-- The two words of a product, one laid over the other. -/
def mulFold (a b : UInt64) : UInt64 :=
  (a * b) ^^^ mulHigh a b

/-- The low half of a word. -/
def lowHalf (a : UInt64) : UInt64 :=
  a &&& 0xFFFFFFFF

/-- The bytes of a half word in the opposite order. -/
def swapHalf (a : UInt64) : UInt64 :=
  (a &&& 0xFF) <<< 24 ||| (a &&& 0xFF00) <<< 8 ||| (a &&& 0xFF0000) >>> 8 ||| (a &&& 0xFF000000) >>> 24

/-- The bytes of a word in the opposite order. -/
def swapWord (a : UInt64) : UInt64 :=
  swapHalf (lowHalf a) <<< 32 ||| swapHalf (a >>> 32)

/-- Spreads every bit of a word over the whole word. -/
def avalanche (v : UInt64) : UInt64 :=
  let v := (v ^^^ v >>> 37) * 0x165667919E3779F9
  v ^^^ v >>> 32

/-- Like `avalanche`, for words that have not been mixed before. -/
def strongAvalanche (v : UInt64) : UInt64 :=
  let v := (v ^^^ v >>> 33) * prime64b
  let v := (v ^^^ v >>> 29) * prime64c
  v ^^^ v >>> 32

/-- A secret by its words at every byte position. -/
structure Secret where
  windows : Array UInt64

namespace Secret

/-- The word at a byte position. -/
def wordAt (secret : Secret) (position : Nat) : UInt64 :=
  secret.windows.getD position 0

/-- The half word at a byte position. -/
def halfAt (secret : Secret) (position : Nat) : UInt64 :=
  lowHalf (secret.wordAt position)

/-- `count` words that follow one another, from a byte position on. -/
def row (secret : Secret) (position count : Nat) : List UInt64 :=
  (List.range count).map fun i => secret.wordAt (position + 8 * i)

/-- The words at every position of a byte string. -/
def windowsOf : Bytes → List UInt64
  | [] => []
  | b :: rest => word (b :: rest) :: windowsOf rest

/-- The secret made of these words. -/
def ofWords (words : List UInt64) : Secret :=
  ⟨(windowsOf (words.flatMap fun w => Bytes.littleEndian 8 w.toNat)).toArray⟩

/-- The words of the plain secret. -/
def plainWords : List UInt64 :=
  [0xBE4BA423396CFEB8, 0x1CAD21F72C81017C, 0xDB979083E96DD4DE, 0x1F67B3B7A4A44072,
   0x78E5C0CC4EE679CB, 0x2172FFCC7DD05A82, 0x8E2443F7744608B8, 0x4C263A81E69035E0,
   0xCB00C391BB52283C, 0xA32E531B8B65D088, 0x4EF90DA297486471, 0xD8ACDEA946EF1938,
   0x3F349CE33F76FAA8, 0x1D4F0BC7C7BBDCF9, 0x3159B4CD4BE0518A, 0x647378D9C97E9FC8,
   0xC3EBD33483ACC5EA, 0xEB6313FAFFA081C5, 0x49DAF0B751DD0D17, 0x9E68D429265516D3,
   0xFCA1477D58BE162B, 0xCE31D07AD1B8F88F, 0x280416958F3ACB45, 0x7E404BBBCAFBD7AF]

/-- The secret for inputs of at most 240 bytes. -/
def plain : Secret :=
  ofWords plainWords

/-- A word of the secret with a seed mixed in: added at even places, taken away at odd ones. -/
def seededWord (seed : UInt64) (place : Nat) (w : UInt64) : UInt64 :=
  if place % 2 = 0 then w + seed else w - seed

/-- The secret for longer inputs. -/
def seeded (seed : UInt64) : Secret :=
  ofWords (plainWords.mapIdx (seededWord seed))

end Secret

end FrozenTable.Xxh3
