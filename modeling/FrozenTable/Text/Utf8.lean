import FrozenTable.Bytes

/-!
# Where a byte string stops being UTF-8

A byte string either is the UTF-8 form of a text or has a first place where it goes wrong. `Utf8.flaw` finds that place and
says how many bytes belong to the bad sequence, or that the input ends inside a sequence that was good so far.
-/

namespace FrozenTable.Utf8

/-- The first fault of a byte string that is not UTF-8. -/
structure Flaw where
  /-- How many bytes stand before the bad sequence. -/
  index : Nat
  /-- How many bytes the bad sequence has; none when the input ends inside it. -/
  length : Option Nat
deriving DecidableEq, Repr

/-- How a sequence that starts with a given byte goes on: the range of the second byte and the number of plain continuation
bytes after it. Narrower second ranges exclude overlong forms, surrogates and numbers past U+10FFFF. -/
def continuation (lead : UInt8) : Option ((UInt8 × UInt8) × Nat) :=
  if 0xC2 ≤ lead ∧ lead ≤ 0xDF then some ((0x80, 0xBF), 0)
  else if lead = 0xE0 then some ((0xA0, 0xBF), 1)
  else if lead = 0xED then some ((0x80, 0x9F), 1)
  else if 0xE1 ≤ lead ∧ lead ≤ 0xEF then some ((0x80, 0xBF), 1)
  else if lead = 0xF0 then some ((0x90, 0xBF), 2)
  else if 0xF1 ≤ lead ∧ lead ≤ 0xF3 then some ((0x80, 0xBF), 2)
  else if lead = 0xF4 then some ((0x80, 0x8F), 2)
  else none

/-- Drops `count` plain continuation bytes. The fault is the number of bytes of the sequence up to the bad one, `seen` of
which were read before, or none when the input ends. -/
def dropTail (seen : Nat) : (count : Nat) → Bytes → Except (Option Nat) Bytes
  | 0, input => .ok input
  | _ + 1, [] => .error none
  | count + 1, b :: rest =>
    if 0x80 ≤ b ∧ b ≤ 0xBF then dropTail (seen + 1) count rest else .error (some seen)

/-- Drops one encoded character. -/
def dropChar (lead : UInt8) (input : Bytes) : Except (Option Nat) Bytes :=
  if lead < 0x80 then .ok input
  else match continuation lead with
    | none => .error (some 1)
    | some ((low, high), count) => match input with
      | [] => .error none
      | b :: rest => if low ≤ b ∧ b ≤ high then dropTail 2 count rest else .error (some 1)

theorem dropTail_length {seen count : Nat} {input rest : Bytes} (h : dropTail seen count input = .ok rest) :
    rest.length ≤ input.length := by
  induction count generalizing seen input with
  | zero => simp only [dropTail, Except.ok.injEq] at h; simp [h]
  | succ count ih =>
    cases input with
    | nil => simp [dropTail] at h
    | cons b input =>
      simp only [dropTail] at h
      split at h
      · have := ih h
        simp only [List.length_cons]; omega
      · simp at h

theorem dropChar_length {lead : UInt8} {input rest : Bytes} (h : dropChar lead input = .ok rest) :
    rest.length ≤ input.length := by
  unfold dropChar at h
  by_cases ascii : lead < 0x80
  · rw [if_pos ascii] at h
    cases h
    exact Nat.le_refl _
  · rw [if_neg ascii] at h
    split at h
    · nomatch h
    · split at h
      · nomatch h
      · split at h
        · have := dropTail_length h
          simp only [List.length_cons]; omega
        · nomatch h

/-- The first fault at or after position `index`; none when the rest is UTF-8. -/
def flawFrom (index : Nat) : Bytes → Option Flaw
  | [] => none
  | lead :: input =>
    match h : dropChar lead input with
    | .error length => some ⟨index, length⟩
    | .ok rest => flawFrom (index + (1 + input.length - rest.length)) rest
termination_by input => input.length
decreasing_by
  have := dropChar_length h
  simp only [List.length_cons]; omega

/-- The text that a byte string is the UTF-8 form of. -/
def decode? (bytes : Bytes) : Option String :=
  String.fromUTF8? bytes.pack

end FrozenTable.Utf8
