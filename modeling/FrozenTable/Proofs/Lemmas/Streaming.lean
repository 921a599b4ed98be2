import Mathlib
import FrozenTable.Fingerprint

/-!
# Hashing piece by piece is hashing the whole

A stream may stop inside a block, and its hash reads the last stripe from behind blocks that are gone. `Stream.Holds` says what
a stream knows of the bytes that came in; it survives every piece, and a stream that holds bytes has their hash.
-/

namespace FrozenTable.Xxh3

/-! ## Stripes and blocks read no further than they reach -/

/-- A word is read from the first bytes alone. -/
theorem word_append {x : Bytes} (y : Bytes) (h : 8 ≤ x.length) : word (x ++ y) = word x := by
  rw [word, word, List.take_append_of_le_length h]

/-- So many words are read from so many bytes. -/
theorem words_append (count : Nat) {x : Bytes} (y : Bytes) (h : count * 8 ≤ x.length) :
    words count (x ++ y) = words count x := by
  induction count generalizing x with
  | zero => rfl
  | succ count ih =>
    have hword : 8 ≤ x.length := by omega
    have hrest : count * 8 ≤ (x.drop 8).length := by rw [List.length_drop]; omega
    rw [words, words, word_append y hword, List.drop_append_of_le_length hword, ih hrest]

/-- A stripe is mixed in from its own bytes alone. -/
theorem stripe_append (secret : Secret) (lanes : Lanes) (position : Nat) {x : Bytes} (y : Bytes)
    (h : stripeSize ≤ x.length) : stripe secret lanes position (x ++ y) = stripe secret lanes position x := by
  rw [stripe, stripe, words_append 8 y h]

/-- Stripes are mixed in from their own bytes alone. -/
theorem stripes_append (secret : Secret) (count position : Nat) (lanes : Lanes) {x : Bytes} (y : Bytes)
    (h : count * stripeSize ≤ x.length) :
    stripes secret count position lanes (x ++ y) = stripes secret count position lanes x := by
  induction count generalizing position lanes x with
  | zero => rfl
  | succ count ih =>
    have hstripe : stripeSize ≤ x.length := by rw [Nat.add_mul] at h; omega
    have hrest : count * stripeSize ≤ (x.drop stripeSize).length := by rw [List.length_drop]; rw [Nat.add_mul] at h; omega
    rw [stripes, stripes, stripe_append secret lanes position y hstripe, List.drop_append_of_le_length hstripe, ih _ _ hrest]

/-- A block is mixed in from its own bytes alone. -/
theorem block_append (secret : Secret) (lanes : Lanes) {x : Bytes} (y : Bytes) (h : blockSize ≤ x.length) :
    block secret lanes (x ++ y) = block secret lanes x := by
  rw [block, block, stripes_append secret 16 0 lanes y h]

/-- Whole blocks are taken from the front. -/
theorem blocks_snd (secret : Secret) (count : Nat) (lanes : Lanes) (x : Bytes) :
    (blocks secret count lanes x).2 = x.drop (count * blockSize) := by
  induction count generalizing lanes x with
  | zero => simp [blocks]
  | succ count ih => rw [blocks, ih, List.drop_drop, Nat.add_mul, Nat.one_mul, Nat.add_comm]

/-- Running blocks takes no notice of what stands behind them. -/
theorem blocks_append (secret : Secret) (count : Nat) (lanes : Lanes) {x : Bytes} (y : Bytes)
    (h : count * blockSize ≤ x.length) : (blocks secret count lanes (x ++ y)).1 = (blocks secret count lanes x).1 := by
  induction count generalizing lanes x with
  | zero => rfl
  | succ count ih =>
    have hblock : blockSize ≤ x.length := by rw [Nat.add_mul] at h; omega
    have hrest : count * blockSize ≤ (x.drop blockSize).length := by rw [List.length_drop]; rw [Nat.add_mul] at h; omega
    rw [blocks, blocks, block_append secret lanes y hblock, List.drop_append_of_le_length hblock, ih _ hrest]

/-- Running blocks, and then the blocks behind them. -/
theorem blocks_add (secret : Secret) (m n : Nat) (lanes : Lanes) (x : Bytes) :
    blocks secret (m + n) lanes x = blocks secret n (blocks secret m lanes x).1 (x.drop (m * blockSize)) := by
  induction m generalizing lanes x with
  | zero => simp [blocks]
  | succ m ih =>
    rw [show m + 1 + n = m + n + 1 by omega, blocks, blocks, ih, List.drop_drop,
      show blockSize + m * blockSize = (m + 1) * blockSize by rw [Nat.add_mul]; omega]

/-- The last bytes of something long enough do not depend on what stands in front. -/
theorem lastBytes_append {n : Nat} (x : Bytes) {y : Bytes} (h : n ≤ y.length) : lastBytes n (x ++ y) = lastBytes n y := by
  have hlen : (x ++ y).length - n = x.length + (y.length - n) := by rw [List.length_append]; omega
  rw [lastBytes, lastBytes, hlen, List.drop_length_add_append]

/-- The last bytes are kept when more come in. -/
theorem lastBytes_lastBytes_append (n : Nat) (x y : Bytes) : lastBytes n (lastBytes n x ++ y) = lastBytes n (x ++ y) := by
  by_cases h : n ≤ x.length
  · have hsplit : x = x.take (x.length - n) ++ lastBytes n x := (List.take_append_drop _ _).symm
    have hlen : n ≤ (lastBytes n x ++ y).length := by rw [lastBytes, List.length_append, List.length_drop]; omega
    have hwhole := lastBytes_append (x.take (x.length - n)) hlen
    rw [← List.append_assoc, ← hsplit] at hwhole
    exact hwhole.symm
  · have hall : lastBytes n x = x := by rw [lastBytes, Nat.sub_eq_zero_of_le (by omega), List.drop_zero]
    rw [hall]

namespace Stream

/-- What a stream with a seed knows of the bytes that came in: the whole blocks before the last byte, `count` of them, are in
the accumulators. -/
structure Holds (seed : UInt64) (s : Stream) (x : Bytes) (count : Nat) : Prop where
  counted : count = piecesBefore blockSize x.length
  seeded : s.seed = seed
  length : s.length = x.length
  lanes : s.lanes = (blocks (Secret.seeded seed) count startLanes x).1
  pending : s.pending = x.drop (count * blockSize)
  done : count ≠ 0 → s.done = lastBytes stripeSize (x.take (count * blockSize))

/-- A stream that was given nothing has nothing pending. -/
theorem holds_start (seed : UInt64) : Holds seed (start seed) [] 0 where
  counted := rfl
  seeded := rfl
  length := rfl
  lanes := rfl
  pending := rfl
  done h := absurd rfl h

/-- The blocks that were mixed in came from what was given. -/
theorem Holds.count_mul_le {seed : UInt64} {s : Stream} {x : Bytes} {count : Nat} (hs : Holds seed s x count) :
    count * blockSize ≤ x.length := by
  rw [hs.counted, piecesBefore]
  have : (x.length - 1) / blockSize * blockSize ≤ x.length - 1 := Nat.div_mul_le_self _ _
  omega

/-- With a piece more, the whole blocks before the last byte are those before and those in the bytes behind them. -/
theorem Holds.counted_append {seed : UInt64} {s : Stream} {x : Bytes} {count : Nat} (hs : Holds seed s x count)
    (piece : Bytes) :
    count + piecesBefore blockSize (s.pending ++ piece).length = piecesBefore blockSize (x ++ piece).length := by
  have hle := hs.count_mul_le
  rw [hs.pending, List.length_append, List.length_append, List.length_drop]
  have hcount := hs.counted
  simp only [piecesBefore, blockSize] at *
  omega

/-- What is pending goes together with the next piece. -/
theorem Holds.pending_append {seed : UInt64} {s : Stream} {x : Bytes} {count : Nat} (hs : Holds seed s x count)
    (piece : Bytes) : s.pending ++ piece = (x ++ piece).drop (count * blockSize) := by
  rw [hs.pending, List.drop_append_of_le_length hs.count_mul_le]

/-- The lanes do not depend on what comes later. -/
theorem Holds.lanes_append {seed : UInt64} {s : Stream} {x : Bytes} {count : Nat} (hs : Holds seed s x count)
    (piece : Bytes) : s.lanes = (blocks (Secret.seeded seed) count startLanes (x ++ piece)).1 := by
  rw [hs.lanes, blocks_append _ _ _ _ hs.count_mul_le]

/-- The last stripe of the blocks taken in is told by the newest of them. -/
theorem lastBytes_take {x : Bytes} {count more : Nat} (hmore : more ≠ 0)
    (hle : more * blockSize ≤ (x.drop (count * blockSize)).length) :
    lastBytes stripeSize ((x.drop (count * blockSize)).take (more * blockSize)) =
      lastBytes stripeSize (x.take ((count + more) * blockSize)) := by
  have hsplit : x.take ((count + more) * blockSize) =
      x.take (count * blockSize) ++ (x.drop (count * blockSize)).take (more * blockSize) := by
    rw [Nat.add_mul, List.take_add]
  rw [hsplit, lastBytes_append]
  rw [List.length_take, Nat.min_eq_left hle]
  have : 1 * blockSize ≤ more * blockSize := Nat.mul_le_mul_right _ (by omega)
  have : stripeSize ≤ 1 * blockSize := by decide
  omega

/-- A piece more is known of after it was taken in. -/
theorem Holds.write {seed : UInt64} {s : Stream} {x : Bytes} {count : Nat} (hs : Holds seed s x count) (piece : Bytes) :
    Holds seed (s.write piece) (x ++ piece) (count + piecesBefore blockSize (s.pending ++ piece).length) := by
  have hcounted := hs.counted_append piece
  have hlength : s.length + piece.length = (x ++ piece).length := by rw [hs.length, List.length_append]
  by_cases hnone : piecesBefore blockSize (s.pending ++ piece).length = 0
  · have hwrite : s.write piece = { s with length := s.length + piece.length, pending := s.pending ++ piece } := by
      rw [Stream.write, if_pos hnone]
    rw [hwrite]
    refine ⟨hcounted, hs.seeded, hlength, ?_, ?_, ?_⟩
    · rw [hnone]; exact hs.lanes_append piece
    · rw [hnone]; exact hs.pending_append piece
    · intro hcount
      rw [hnone, Nat.add_zero] at hcount ⊢
      rw [List.take_append_of_le_length hs.count_mul_le]
      exact hs.done hcount
  · have hwrite : s.write piece =
        { s with
          length := s.length + piece.length
          lanes := (blocks (Secret.seeded s.seed) (piecesBefore blockSize (s.pending ++ piece).length) s.lanes
            (s.pending ++ piece)).1
          done := lastBytes stripeSize
            ((s.pending ++ piece).take (piecesBefore blockSize (s.pending ++ piece).length * blockSize))
          pending := (blocks (Secret.seeded s.seed) (piecesBefore blockSize (s.pending ++ piece).length) s.lanes
            (s.pending ++ piece)).2 } := by
      rw [Stream.write, if_neg hnone]
    have hle : piecesBefore blockSize (s.pending ++ piece).length * blockSize ≤ (s.pending ++ piece).length := by
      have := Nat.div_mul_le_self ((s.pending ++ piece).length - 1) blockSize
      rw [piecesBefore]
      omega
    rw [hwrite]
    revert hnone hle hcounted
    generalize piecesBefore blockSize (s.pending ++ piece).length = more
    intro hcounted hnone hle
    rw [hs.pending_append piece, hs.seeded, hs.lanes_append piece] at *
    refine ⟨hcounted, rfl, hlength, ?_, ?_, fun _ => ?_⟩
    · rw [blocks_add]
    · rw [blocks_snd, List.drop_drop, Nat.add_mul]
    · exact lastBytes_take hnone hle

/-- A stream that holds some bytes has their hash. -/
theorem Holds.finish {seed : UInt64} {s : Stream} {x : Bytes} {count : Nat} (hs : Holds seed s x count) :
    s.finish = hash seed x := by
  unfold Stream.finish hash
  rw [hs.length, hs.seeded]
  by_cases hshort : x.length ≤ maxShort
  · have hnone : count = 0 := by
      rw [hs.counted, piecesBefore]
      exact Nat.div_eq_of_lt (by unfold maxShort at hshort; unfold blockSize; omega)
    rw [if_pos hshort, if_pos hshort, hs.pending, hnone, Nat.zero_mul, List.drop_zero]
  · have hlast : lastBytes stripeSize (s.done ++ s.pending) = lastBytes stripeSize x := by
      by_cases hnone : count = 0
      · have hall : s.pending = x := by rw [hs.pending, hnone, Nat.zero_mul, List.drop_zero]
        rw [hall]
        refine lastBytes_append _ ?_
        unfold maxShort at hshort
        unfold stripeSize
        omega
      · rw [hs.done hnone, lastBytes_lastBytes_append, hs.pending, List.take_append_drop]
    rw [if_neg hshort, if_neg hshort, ofLong, hlast, hs.lanes, hs.pending, ← hs.counted]
    simp only [blocks_snd]

/-- A stream takes in pieces as it would take in their bytes at once. -/
theorem finish_foldl_write (seed : UInt64) (pieces : List Bytes) :
    (pieces.foldl write (start seed)).finish = hash seed pieces.flatten := by
  suffices key : ∀ (pieces : List Bytes) (s : Stream) (x : Bytes) (count : Nat), Holds seed s x count →
      (pieces.foldl write s).finish = hash seed (x ++ pieces.flatten) by
    exact key pieces _ [] 0 (holds_start seed)
  intro pieces
  induction pieces with
  | nil =>
    intro s x count hs
    rw [List.foldl_nil, List.flatten_nil, List.append_nil]
    exact hs.finish
  | cons piece pieces ih =>
    intro s x count hs
    rw [List.foldl_cons, List.flatten_cons, ← List.append_assoc]
    exact ih _ _ _ (hs.write piece)

end Stream

end FrozenTable.Xxh3

namespace FrozenTable.Fingerprint

/-- The fingerprint of a key does not depend on the pieces in which the key comes. -/
theorem ofPieces_eq (pieces : List Bytes) : ofPieces pieces = ofBytes pieces.flatten := by
  rw [ofPieces, ofBytes, Xxh3.Stream.finish_foldl_write]

end FrozenTable.Fingerprint
