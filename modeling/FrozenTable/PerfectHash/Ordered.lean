import FrozenTable.PerfectHash
import FrozenTable.Search

/-!
# Hashing by order

A library of perfect hash functions that keep their fingerprints: the bucket of a fingerprint is its place in their order, found
by halving the range. A fingerprint that is not among them gets the first bucket.
-/

namespace FrozenTable.HashFunction

/-- The size of a fingerprint among the bytes of a function. -/
def keySize : Nat := 16

/-- The place of a fingerprint among some fingerprints in order; the first one for those that are not there. -/
def placeAmong (keys : Array Fingerprint) (f : Fingerprint) : Nat :=
  let i := searchFirst (fun i => f.le (keys.getD i default)) 0 keys.size
  if keys[i]? = some f then i else 0

/-- The function of some fingerprints in order, none of which is there twice. -/
def ofOrdered (keys : List Fingerprint) : HashFunction where
  bucket := placeAmong keys.toArray
  bytes := keys.flatMap fun f => Bytes.bigEndian keySize f.toNat

/-- The first `count` fingerprints of some bytes. -/
def keysFrom : (count : Nat) → Bytes → Option (List Fingerprint)
  | 0, _ => some []
  | count + 1, bytes => do
    let (front, rest) ← Bytes.splitExact? keySize bytes
    let keys ← keysFrom count rest
    pure (.ofNat (Bytes.toNatBig front) :: keys)

/-- The fingerprints with these bytes, one after the other. -/
def keysOf (bytes : Bytes) : Option (List Fingerprint) :=
  if bytes.length % keySize = 0 ∧ bytes ≠ [] then keysFrom (bytes.length / keySize) bytes else none

/-- Functions that go by the order of the fingerprints. -/
instance byOrder : HashLibrary where
  train := ofOrdered
  load bytes := (keysOf bytes).map ofOrdered

end FrozenTable.HashFunction
