/-!
# Signed and unsigned readings of 64-bit words

Sizes and offsets are kept as natural numbers and size equations as integers. Where one is read as the other, the 64-bit
pattern stays and its meaning changes: these are the two readings, and the test that an integer has a signed reading.
-/

namespace FrozenTable.Word64

/-- The unsigned reading of the 64-bit two's complement pattern of an integer. -/
def unsigned (x : Int) : Nat :=
  (x % 0x10000000000000000).toNat

/-- The signed reading of the 64-bit pattern of a natural number. -/
def signed (n : Nat) : Int :=
  Int.bmod n 0x10000000000000000

/-- Whether an integer has a 64-bit two's complement pattern. -/
def IsSigned (x : Int) : Prop :=
  -0x8000000000000000 ≤ x ∧ x < 0x8000000000000000

instance (x : Int) : Decidable (IsSigned x) :=
  inferInstanceAs (Decidable (_ ∧ _))

theorem signed_of_lt {n : Nat} (h : n < 0x8000000000000000) : signed n = n := by
  unfold signed
  rw [Int.bmod_eq_of_le] <;> omega

theorem unsigned_of_nonneg {x : Int} (h0 : 0 ≤ x) (h : x < 0x10000000000000000) : (unsigned x : Int) = x := by
  unfold unsigned
  omega

theorem unsigned_lt (x : Int) : unsigned x < 0x10000000000000000 := by
  unfold unsigned
  omega

end FrozenTable.Word64
