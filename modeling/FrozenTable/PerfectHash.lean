import FrozenTable.Bits.BitSet
import FrozenTable.Bits.PackedArray
import FrozenTable.Fault
import FrozenTable.Fingerprint

/-!
# Minimal perfect hashing

A perfect hash gives each of `n` fingerprints a bucket of its own below `n`. The function behind it comes from a library of
such functions, of which no more is asked here than that it can make a function for some fingerprints and read one back; that
the buckets are apart is checked. A fingerprint that the hash was not built from gets some bucket as well, unless its signature
differs from the one kept for that bucket, which happens for all but one in `2 ^ width` of them.
-/

namespace FrozenTable

/-- A function from fingerprints to buckets. -/
structure HashFunction where
  bucket : Fingerprint → Nat
  /-- The bytes by which the function is persisted. -/
  bytes : Bytes

/-- A library of perfect hash functions. -/
class HashLibrary where
  /-- Makes the function of some fingerprints in order, none of which is there twice. -/
  train : List Fingerprint → HashFunction
  /-- Reads a function back from its bytes. -/
  load : Bytes → Option HashFunction

/-- A perfect hash with signatures. -/
structure PerfectHash where
  /-- How many buckets there are. -/
  length : Nat
  /-- None where there are no buckets. -/
  function : Option HashFunction
  /-- How many bytes the function takes when it is persisted. -/
  functionSize : Nat
  /-- The low bits of the signatures, by bucket. -/
  signatures : PackedArray

namespace PerfectHash

/-- The first of some fingerprints in order that is followed by itself. -/
def firstRepeated : List Fingerprint → Option Fingerprint
  | a :: b :: rest => if a = b then some a else firstRepeated (b :: rest)
  | _ => none

/-- Keeps the signatures of fingerprints at their buckets. All buckets have to be below the number of fingerprints, and none
may be there twice: `seen` has those of the fingerprints before. -/
def signAll (length : Nat) (function : HashFunction) (seen : BitSet) (signatures : PackedArray) :
    List Fingerprint → Except Fault PackedArray
  | [] => .ok signatures
  | f :: rest =>
    let i := function.bucket f
    if length ≤ i ∨ seen.get? i ≠ some false then .error (.hashUnresolvable length)
    else signAll length function (seen.set i) (signatures.set i f.signature) rest

/-- The perfect hash of some fingerprints in order, none of which is there twice. -/
def ofSorted [HashLibrary] (keys : List Fingerprint) (width : Nat) : Except Fault PerfectHash := do
  let signatures := PackedArray.zeros width keys.length
  if keys.isEmpty then pure ⟨0, none, 0, signatures⟩
  else
    let function := HashLibrary.train keys
    let signatures ← signAll keys.length function (.clear keys.length) signatures keys
    pure ⟨keys.length, some function, function.bytes.length, signatures⟩

/-- The perfect hash of some fingerprints with signatures of `width` bits. The least fingerprint that is there twice is an
error. -/
def build [HashLibrary] (fingerprints : List Fingerprint) (width : Nat) : Except Fault PerfectHash :=
  let keys := fingerprints.mergeSort Fingerprint.le
  match firstRepeated keys with
  | some f => .error (.duplicateFingerprint f.toNat)
  | none => ofSorted keys width

/-- How many bits of a signature are kept. -/
def signatureWidth (h : PerfectHash) : Nat :=
  h.signatures.width

/-- Whether the signature of a fingerprint is the one kept for a bucket, as far as it is kept. -/
def signatureMatches (h : PerfectHash) (f : Fingerprint) (i : Nat) : Except Fault Bool :=
  if h.signatureWidth = 0 then .ok true
  else if wordBits < h.signatureWidth then .error .outOfBounds
  else match h.signatures.get? i with
    | none => .error .outOfBounds
    | some kept => .ok (kept == f.signature &&& PackedArray.mask h.signatureWidth)

/-- The bucket of a fingerprint; none when its signature differs from the one kept for the bucket. -/
def slot (h : PerfectHash) (f : Fingerprint) : Except Fault (Option Nat) :=
  match h.function with
  | none => .ok none
  | some function =>
    let i := function.bucket f
    if h.length ≤ i then .ok none
    else do
      if ← h.signatureMatches f i then pure (some i) else pure none

/-- The bucket of a key with these bytes. -/
def slotOfBytes (h : PerfectHash) (bytes : Bytes) : Except Fault (Option Nat) :=
  h.slot (.ofBytes bytes)

/-- The bytes of the function and of the signatures. -/
def byteSize (h : PerfectHash) : Nat :=
  h.functionSize + h.signatures.byteSize

/-- The hash as a record. -/
def text (h : PerfectHash) : String :=
  Text.ofFields "Mphf"
    [("len", toString h.length), ("signature_width", toString h.signatureWidth),
      ("size_in_bytes", toString h.byteSize)]

/-- The bytes of the function. -/
def functionBytes (h : PerfectHash) : Bytes :=
  (h.function.map HashFunction.bytes).getD []

/-- The hash as a MessagePack value, `shape` being the way in which records are written. -/
def form (shape : List (String × Msgpack.Value) → Msgpack.Value) (h : PerfectHash) : Msgpack.Value :=
  shape [("len", .nat h.length), ("function", .bin h.functionBytes), ("signatures", shape h.signatures.fields)]

/-- The hash with a given MessagePack value. The function of a hash without buckets is not looked at. -/
def view [HashLibrary] (v : Msgpack.Value) : Option PerfectHash := do
  match ← v.toFields? ["len", "function", "signatures"] with
  | [some length, some function, some signatures] =>
    let length ← length.toWord?
    let bytes ← function.toBytes?
    let signatures ← PackedArray.view signatures
    let function ← if length = 0 then pure none else some <$> HashLibrary.load bytes
    pure ⟨length, function, bytes.length, signatures⟩
  | _ => none

end PerfectHash

end FrozenTable
