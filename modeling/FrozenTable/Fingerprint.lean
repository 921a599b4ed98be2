import FrozenTable.Xxh3.Stream

/-!
# Fingerprints of keys

A key enters the perfect hash only through the 128-bit hash of its bytes, its fingerprint. A signature is a word derived from
the fingerprint; a table keeps a few of its bits to turn away keys that it was not built from.
-/

namespace FrozenTable

/-- The fingerprint of a key. -/
structure Fingerprint where
  high : UInt64
  low : UInt64
deriving DecidableEq, Repr, Inhabited

namespace Fingerprint

/-- The seed of the fingerprints. Every table is built and read under this one seed, so fingerprints of two tables agree. -/
def seed : UInt64 := 0x6D70687461626C65

def ofDigest (d : Xxh3.Digest) : Fingerprint :=
  ⟨d.high, d.low⟩

/-- The fingerprint of a key with these bytes. -/
def ofBytes (bytes : Bytes) : Fingerprint :=
  ofDigest (Xxh3.hash seed bytes)

/-- The fingerprint of a key whose bytes come in pieces. -/
def ofPieces (pieces : List Bytes) : Fingerprint :=
  ofDigest (pieces.foldl Xxh3.Stream.write (.start seed)).finish

/-- A fingerprint as a number. -/
def toNat (f : Fingerprint) : Nat :=
  f.high.toNat * 0x10000000000000000 + f.low.toNat

/-- The fingerprint with a number below 2^128. -/
def ofNat (n : Nat) : Fingerprint :=
  ⟨UInt64.ofNat (n / 0x10000000000000000), UInt64.ofNat n⟩

/-- Whether a fingerprint is at most another one, as numbers. -/
def le (a b : Fingerprint) : Bool :=
  a.high < b.high || (a.high == b.high && a.low ≤ b.low)

/-- A word turned to the left by 29 bits. -/
def turned (w : UInt64) : UInt64 :=
  w <<< 29 ||| w >>> 35

/-- Spreads every bit of a word over the whole word. -/
def mix (w : UInt64) : UInt64 :=
  let w := (w ^^^ w >>> 33) * 0xFF51AFD7ED558CCD
  let w := (w ^^^ w >>> 33) * 0xC4CEB9FE1A85EC53
  w ^^^ w >>> 33

/-- The signature of a key. -/
def signature (f : Fingerprint) : UInt64 :=
  mix (turned f.high ^^^ f.low ^^^ 0xA0761D6478BD642F)

theorem le_iff (a b : Fingerprint) : a.le b = true ↔ a.toNat ≤ b.toNat := by
  have ha := a.low.toNat_lt
  have hb := b.low.toNat_lt
  simp only [le, toNat, Bool.or_eq_true, Bool.and_eq_true, decide_eq_true_eq, beq_iff_eq, UInt64.lt_iff_toNat_lt,
    UInt64.le_iff_toNat_le, ← UInt64.toNat_inj]
  omega

theorem toNat_inj {a b : Fingerprint} : a.toNat = b.toNat ↔ a = b := by
  constructor
  · intro h
    have ha := a.low.toNat_lt
    have hb := b.low.toNat_lt
    unfold toNat at h
    have high : a.high.toNat = b.high.toNat := by omega
    have low : a.low.toNat = b.low.toNat := by omega
    cases a
    cases b
    simp_all [UInt64.toNat_inj]
  · rintro rfl
    rfl

end Fingerprint

end FrozenTable
