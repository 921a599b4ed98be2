import Mathlib
import FrozenTable.Varint

/-!
# What is read is what the bytes denote, up to a word

A number ends with the first byte whose top bit is clear, and each byte of it denotes seven bits. A reader finds the end among
the first ten bytes or says why there is none. Ten bytes can denote numbers beyond the words: of the tenth byte the bits past
the first are lost, so the reader gives the number of the bytes exactly when there are fewer than ten of them or the tenth is
zero or one.
-/

namespace FrozenTable.Varint

/-- The number that bytes denote, each by its low seven bits, the first byte by the least significant ones. -/
def denoted (groups : Bytes) : Nat :=
  (groups.mapIdx fun j b => b.toNat % 128 * 2 ^ (7 * j)).sum

/-- The byte at place `i` is the first one whose top bit is clear. -/
structure EndsAt (input : Bytes) (i : Nat) : Prop where
  lt : i < input.length
  last : input[i] < 128
  before : ∀ j, (h : j < i) → 128 ≤ input[j]

instance (input : Bytes) (i : Nat) : Decidable (EndsAt input i) :=
  decidable_of_iff (∃ lt : i < input.length, input[i] < 128 ∧ ∀ j, (h : j < i) → 128 ≤ input[j])
    ⟨fun ⟨lt, last, before⟩ => ⟨lt, last, before⟩, fun ⟨lt, last, before⟩ => ⟨lt, last, before⟩⟩

/-! ## Numbers and ends -/

theorem denoted_cons (b : UInt8) (rest : Bytes) : denoted (b :: rest) = b.toNat % 128 + 128 * denoted rest := by
  have hpow : ∀ j : Nat, 2 ^ (7 * (j + 1)) = 128 * 2 ^ (7 * j) := by
    intro j
    rw [Nat.mul_add, Nat.pow_add, Nat.mul_comm]
  rw [denoted, List.mapIdx_cons, List.sum_cons, Nat.mul_zero, Nat.pow_zero, Nat.mul_one, denoted]
  simp only [hpow, Nat.mul_left_comm _ 128, List.mapIdx_eq_zipIdx_map, List.sum_map_mul_left]

theorem denoted_concat (front : Bytes) (b : UInt8) :
    denoted (front ++ [b]) = denoted front + b.toNat % 128 * 2 ^ (7 * front.length) := by
  simp [denoted, List.mapIdx_append]

theorem denoted_lt (groups : Bytes) : denoted groups < 2 ^ (7 * groups.length) := by
  induction groups with
  | nil => decide
  | cons b rest ih =>
    have hbyte : b.toNat % 128 < 128 := Nat.mod_lt _ (by decide)
    rw [denoted_cons, List.length_cons, Nat.mul_add, Nat.pow_add]
    omega

theorem endsAt_zero {b : UInt8} {rest : Bytes} : EndsAt (b :: rest) 0 ↔ b < 128 :=
  ⟨fun h => h.last, fun h => ⟨Nat.succ_pos _, h, fun _ hj => absurd hj (Nat.not_lt_zero _)⟩⟩

theorem endsAt_succ {b : UInt8} {rest : Bytes} {i : Nat} : EndsAt (b :: rest) (i + 1) ↔ 128 ≤ b ∧ EndsAt rest i := by
  constructor
  · rintro ⟨hlt, hlast, hbefore⟩
    exact ⟨hbefore 0 (Nat.succ_pos i), Nat.lt_of_succ_lt_succ hlt, hlast, fun j hj => hbefore (j + 1) (Nat.succ_lt_succ hj)⟩
  · rintro ⟨hb, hlt, hlast, hbefore⟩
    refine ⟨Nat.succ_lt_succ hlt, hlast, ?_⟩
    intro j hj
    cases j with
    | zero => exact hb
    | succ j => exact hbefore j (Nat.lt_of_succ_lt_succ hj)

/-- Ten bytes or fewer denote a word, unless there are ten and the last one is more than one. -/
theorem EndsAt.denoted_lt_iff {input : Bytes} {i : Nat} (h : EndsAt input i) (hi : i < 10) :
    denoted (input.take (i + 1)) < 0x10000000000000000 ↔ i < 9 ∨ input.getD i 0 < 2 := by
  obtain ⟨hlt, hlast, -⟩ := h
  have hfront := denoted_lt (input.take i)
  have hlength : (input.take i).length = i := List.length_take_of_le (Nat.le_of_lt hlt)
  have hlast : input[i].toNat < 128 := UInt8.lt_iff_toNat_lt.1 hlast
  rw [List.take_succ_eq_append_getElem hlt, denoted_concat, hlength, Nat.mod_eq_of_lt hlast,
    List.getD_eq_getElem input 0 hlt, UInt8.lt_iff_toNat_lt]
  rw [hlength] at hfront
  rcases Nat.lt_or_eq_of_le (Nat.le_of_lt_succ hi) with hfew | rfl
  · have hpow : 2 ^ (7 * (i + 1)) ≤ 2 ^ 63 := Nat.pow_le_pow_right (by decide) (by omega)
    have hbyte := Nat.mul_le_mul_right (2 ^ (7 * i)) (Nat.le_of_lt_succ hlast)
    rw [Nat.mul_add, Nat.pow_add] at hpow
    simp only [hfew, true_or, iff_true]
    omega
  · have htwo : (2 : UInt8).toNat = 2 := rfl
    rw [htwo]
    omega

/-! ## Reading groups -/

/-- Where the number ends among the groups that may be read, it is read with all that stands behind it left. -/
theorem decodeGroups_of_endsAt {groups i : Nat} {input : Bytes} (h : EndsAt input i) (hi : i < groups) :
    decodeGroups groups input = .ok (denoted (input.take (i + 1)), input.drop (i + 1)) := by
  induction groups generalizing input i with
  | zero => exact absurd hi (Nat.not_lt_zero i)
  | succ groups ih =>
    cases input with
    | nil => exact absurd h.lt (Nat.not_lt_zero i)
    | cons b rest =>
      cases i with
      | zero =>
        have hb := endsAt_zero.1 h
        have hvalue : denoted ((b :: rest).take 1) = b.toNat := by
          rw [List.take_succ_cons, List.take_zero, denoted_cons]
          exact Nat.mod_eq_of_lt (UInt8.lt_iff_toNat_lt.1 hb)
        rw [decodeGroups, if_pos hb, hvalue]
        rfl
      | succ i =>
        obtain ⟨hb, hrest⟩ := endsAt_succ.1 h
        rw [decodeGroups, if_neg (UInt8.not_lt.2 hb), ih hrest (Nat.lt_of_succ_lt_succ hi), List.take_succ_cons, denoted_cons]
        rfl

/-- Where it does not, the bytes have ended before or there are too many of them. -/
theorem decodeGroups_of_not_endsAt {groups : Nat} {input : Bytes} (h : ∀ i < groups, ¬ EndsAt input i) :
    decodeGroups groups input = .error (if input.length < groups then .varintTruncated else .varintTooLong) := by
  induction groups generalizing input with
  | zero => rfl
  | succ groups ih =>
    cases input with
    | nil => rfl
    | cons b rest =>
      have hb : ¬ b < 128 := fun hb => h 0 (Nat.succ_pos groups) (endsAt_zero.2 hb)
      have hrest := ih fun i hi hends => h (i + 1) (Nat.succ_lt_succ hi) (endsAt_succ.2 ⟨UInt8.not_lt.1 hb, hends⟩)
      rw [decodeGroups, if_neg hb, hrest]
      simp only [List.length_cons, Nat.add_lt_add_iff_right]
      rfl

/-! ## Reading words -/

theorem decode_of_endsAt {i : Nat} {input : Bytes} (h : EndsAt input i) (hi : i < 10) :
    decode input = .ok (denoted (input.take (i + 1)) % 0x10000000000000000, input.drop (i + 1)) := by
  rw [decode, decodeGroups_of_endsAt h hi]
  rfl

theorem decode_of_not_endsAt {input : Bytes} (h : ∀ i < 10, ¬ EndsAt input i) :
    decode input = .error (if input.length < 10 then .varintTruncated else .varintTooLong) := by
  rw [decode, decodeGroups_of_not_endsAt h]
  rfl

/-- A number is read exactly when it ends among the first ten bytes, and what stands behind it is left. What is read is the
number denoted, less its whole multiples of 2^64; so it is the number denoted exactly when there are fewer than ten bytes or
the tenth is zero or one. Bytes that end before are told from bytes that do not end in time. -/
theorem decode_tells_denoted (input : Bytes) :
    (∀ n rest, decode input = .ok (n, rest) ↔
      ∃ i < 10, EndsAt input i ∧ n = denoted (input.take (i + 1)) % 0x10000000000000000 ∧ rest = input.drop (i + 1)) ∧
    (∀ i < 10, EndsAt input i →
      (denoted (input.take (i + 1)) < 0x10000000000000000 →
        decode input = .ok (denoted (input.take (i + 1)), input.drop (i + 1))) ∧
      ((∃ rest, decode input = .ok (denoted (input.take (i + 1)), rest)) ↔ i < 9 ∨ input.getD i 0 < 2)) ∧
    ((∀ i < 10, ¬ EndsAt input i) → input.length < 10 →
      decode input = .error .varintTruncated ∧ Fault.varintTruncated.kind = .unexpectedEof) ∧
    ((∀ i < 10, ¬ EndsAt input i) → 10 ≤ input.length →
      decode input = .error .varintTooLong ∧ Fault.varintTooLong.kind = .invalidData) := by
  refine ⟨fun n rest => ⟨fun hread => ?_, ?_⟩, fun i hi h => ⟨fun hword => ?_, ?_⟩, fun hnone hshort => ⟨?_, rfl⟩,
    fun hnone hlong => ⟨?_, rfl⟩⟩
  · by_contra hno
    have hnone : ∀ i < 10, ¬ EndsAt input i := by
      intro i hi h
      rw [decode_of_endsAt h hi, Except.ok.injEq, Prod.mk.injEq] at hread
      exact hno ⟨i, hi, h, hread.1.symm, hread.2.symm⟩
    exact nomatch (decode_of_not_endsAt hnone).symm.trans hread
  · rintro ⟨i, hi, h, rfl, rfl⟩
    exact decode_of_endsAt h hi
  · rw [decode_of_endsAt h hi, Nat.mod_eq_of_lt hword]
  · rw [← h.denoted_lt_iff hi, decode_of_endsAt h hi]
    constructor
    · rintro ⟨rest, hsame⟩
      rw [Except.ok.injEq, Prod.mk.injEq] at hsame
      rw [← hsame.1]
      exact Nat.mod_lt _ (by decide)
    · exact fun hword => ⟨_, by rw [Nat.mod_eq_of_lt hword]⟩
  · rw [decode_of_not_endsAt hnone, if_pos hshort]
  · rw [decode_of_not_endsAt hnone, if_neg (Nat.not_lt.2 hlong)]

/-- A number of two bytes with another one behind it, a number that is cut, and one that does not end in time. -/
theorem decode_tells_denoted_at_three :
    (EndsAt [0xAC, 0x02, 0x07] 1 ∧ denoted [0xAC, 0x02] = 300 ∧ decode [0xAC, 0x02, 0x07] = .ok (300, [0x07])) ∧
      ((∀ i < 10, ¬ EndsAt [0xAC] i) ∧ decode [0xAC] = .error .varintTruncated) ∧
      (∀ i < 10, ¬ EndsAt (List.replicate 11 0xFF) i) ∧ decode (List.replicate 11 0xFF) = .error .varintTooLong := by
  have hends : EndsAt [0xAC, 0x02, 0x07] 1 := by decide
  have hcut : ∀ i < 10, ¬ EndsAt [0xAC] i := by decide
  have hendless : ∀ i < 10, ¬ EndsAt (List.replicate 11 0xFF) i := by decide
  obtain ⟨-, hread, -⟩ := decode_tells_denoted [0xAC, 0x02, 0x07]
  obtain ⟨-, -, hshort, -⟩ := decode_tells_denoted [0xAC]
  obtain ⟨-, -, -, hlong⟩ := decode_tells_denoted (List.replicate 11 0xFF)
  exact ⟨⟨hends, by decide, (hread 1 (by decide) hends).1 (by decide)⟩, ⟨hcut, (hshort hcut (by decide)).1⟩, hendless,
    (hlong hendless (by decide)).1⟩

/-- Ten bytes that denote 2^64, which is no word, are read as zero. -/
theorem decode_drops_tenth_byte :
    EndsAt (List.replicate 9 0x80 ++ [0x02]) 9 ∧ denoted (List.replicate 9 0x80 ++ [0x02]) = 0x10000000000000000 ∧
      decode (List.replicate 9 0x80 ++ [0x02]) = .ok (0, []) := by
  decide

end FrozenTable.Varint
