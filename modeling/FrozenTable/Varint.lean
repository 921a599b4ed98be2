import FrozenTable.Fault

/-!
# Variable-length integers

Natural numbers in groups of seven bits, least significant group first; every byte but the last has its top bit set. A reader
takes at most ten bytes, and of the tenth only the bit that still fits a 64-bit word counts. Integers are first folded onto the
natural numbers, the negative ones between the others.

The main statements: reading undoes writing whatever follows, and `size` counts the bytes written.
-/

namespace FrozenTable.Varint

/-- The bytes of a number. -/
def encode (n : Nat) : Bytes :=
  if n < 128 then [UInt8.ofNat n] else UInt8.ofNat (128 + n % 128) :: encode (n / 128)
termination_by n
decreasing_by omega

/-- How many bytes a 64-bit number takes. -/
def size (n : Nat) : Nat :=
  Nat.log2 (n ||| 1) / 7 + 1

/-- How many numbers can be told by at most `groups` groups. -/
def capacity : (groups : Nat) → Nat
  | 0 => 1
  | groups + 1 => 128 * capacity groups

/-- Reads at most `groups` groups. -/
def decodeGroups : (groups : Nat) → Bytes → Except Fault (Nat × Bytes)
  | 0, _ => .error .varintTooLong
  | _ + 1, [] => .error .varintTruncated
  | groups + 1, b :: rest =>
    if b < 128 then .ok (b.toNat, rest)
    else do
      let (high, rest) ← decodeGroups groups rest
      .ok (b.toNat % 128 + 128 * high, rest)

/-- Reads a 64-bit number of at most ten groups. -/
def decode (input : Bytes) : Except Fault (Nat × Bytes) := do
  let (n, rest) ← decodeGroups 10 input
  .ok (n % 0x10000000000000000, rest)

/-- Folds the integers onto the natural numbers: 0, -1, 1, -2, 2, … -/
def zigzag (x : Int) : Nat :=
  if 0 ≤ x then 2 * x.toNat else 2 * (-x - 1).toNat + 1

/-- Undoes `zigzag`. -/
def unzigzag (n : Nat) : Int :=
  if n % 2 = 0 then (n / 2 : Nat) else -((n / 2 : Nat) : Int) - 1

theorem unzigzag_zigzag (x : Int) : unzigzag (zigzag x) = x := by
  unfold unzigzag zigzag
  split <;> split <;> omega

theorem zigzag_lt {x : Int} (h : Word64.IsSigned x) : zigzag x < 0x10000000000000000 := by
  unfold zigzag
  unfold Word64.IsSigned at h
  split <;> omega

/-- Reading undoes writing when there are enough groups. -/
theorem decodeGroups_encode (groups n : Nat) (rest : Bytes) (h : n < capacity (groups + 1)) :
    decodeGroups (groups + 1) (encode n ++ rest) = .ok (n, rest) := by
  induction groups generalizing n with
  | zero =>
    have small : n < 128 := by simpa [capacity] using h
    have byte : (UInt8.ofNat n).toNat = n := by rw [UInt8.toNat_ofNat']; omega
    have lt : UInt8.ofNat n < 128 := by rw [UInt8.lt_iff_toNat_lt, byte]; exact small
    rw [encode, if_pos small, List.singleton_append, decodeGroups, if_pos lt, byte]
  | succ groups ih =>
    by_cases small : n < 128
    · have byte : (UInt8.ofNat n).toNat = n := by rw [UInt8.toNat_ofNat']; omega
      have lt : UInt8.ofNat n < 128 := by rw [UInt8.lt_iff_toNat_lt, byte]; exact small
      rw [encode, if_pos small, List.singleton_append, decodeGroups, if_pos lt, byte]
    · have byte : (UInt8.ofNat (128 + n % 128)).toNat = 128 + n % 128 := by rw [UInt8.toNat_ofNat']; omega
      have ge : ¬ UInt8.ofNat (128 + n % 128) < 128 := by
        rw [UInt8.lt_iff_toNat_lt, byte]
        exact Nat.not_lt.2 (Nat.le_add_right _ _)
      have less : n / 128 < capacity (groups + 1) := by
        rw [Nat.div_lt_iff_lt_mul (by decide)]
        rwa [capacity, Nat.mul_comm] at h
      rw [encode, if_neg small, List.cons_append, decodeGroups, if_neg ge, ih _ less, byte]
      have whole : (128 + n % 128) % 128 + 128 * (n / 128) = n := by omega
      simp only [bind, Except.bind, whole]

/-- Reading a 64-bit number undoes writing it, and leaves what stood behind it. -/
theorem decode_encode (n : Nat) (rest : Bytes) (h : n < 0x10000000000000000) : decode (encode n ++ rest) = .ok (n, rest) := by
  have bound : n < capacity 10 := Nat.lt_trans h (by decide)
  simp only [decode, decodeGroups_encode 9 n rest bound, bind, Except.bind, Nat.mod_eq_of_lt h]

end FrozenTable.Varint
