import FrozenTable.Xxh3.Long

/-!
# Hashing piece by piece

A stream takes its input in pieces of any length and keeps no more of it than the last block and the last stripe. Its hash is
the hash of all pieces, one after the other.
-/

namespace FrozenTable.Xxh3

/-- What is known of the input so far. -/
structure Stream where
  seed : UInt64
  /-- How many bytes came in. -/
  length : Nat
  /-- The accumulators after all blocks but the last. -/
  lanes : Lanes
  /-- The last stripe of the blocks that ran into the accumulators. -/
  done : Bytes
  /-- The bytes behind these blocks; some, unless nothing came in. -/
  pending : Bytes

namespace Stream

/-- The stream that nothing came into. -/
def start (seed : UInt64) : Stream where
  seed := seed
  length := 0
  lanes := startLanes
  done := []
  pending := []

/-- Takes in a piece. -/
def write (s : Stream) (piece : Bytes) : Stream :=
  let pending := s.pending ++ piece
  let count := piecesBefore blockSize pending.length
  if count = 0 then { s with length := s.length + piece.length, pending }
  else
    let (lanes, rest) := blocks (Secret.seeded s.seed) count s.lanes pending
    { s with
      length := s.length + piece.length
      lanes
      done := lastBytes stripeSize (pending.take (count * blockSize))
      pending := rest }

/-- The hash of what came in. -/
def finish (s : Stream) : Digest :=
  if s.length ≤ maxShort then ofShort s.seed s.pending
  else finishLong (Secret.seeded s.seed) s.length s.lanes s.pending (lastBytes stripeSize (s.done ++ s.pending))

end Stream

end FrozenTable.Xxh3
