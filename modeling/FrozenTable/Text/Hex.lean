import FrozenTable.Bytes
import FrozenTable.Text.Quoted

/-!
# Bytes in hexadecimal

Byte strings as texts with two lower-case hexadecimal digits for each byte, and back.
-/

namespace FrozenTable.Text

/-- The digit for a number below sixteen. -/
def digit (n : Nat) : Char :=
  Nat.digitChar n

/-- The number that a digit stands for. -/
def digitValue? (c : Char) : Option Nat :=
  if '0' ≤ c ∧ c ≤ '9' then some (c.toNat - 48)
  else if 'a' ≤ c ∧ c ≤ 'f' then some (c.toNat - 87)
  else if 'A' ≤ c ∧ c ≤ 'F' then some (c.toNat - 55)
  else none

/-- The digits of a number with zeros in front, `count` digits at least. -/
def hexFixed (count n : Nat) : String :=
  let body := hex n
  "".pushn '0' (count - body.length) ++ body

/-- The digits of a byte string. -/
def ofBytes (bytes : Bytes) : String :=
  String.ofList (bytes.flatMap fun b => [digit (b.toNat / 16), digit (b.toNat % 16)])

/-- The bytes of a sequence of digits behind those in `done`, which stand in the opposite order. -/
def bytesOf : (done : Bytes) → List Char → Option Bytes
  | done, [] => some done.reverse
  | _, [_] => none
  | done, a :: b :: rest => do bytesOf (UInt8.ofNat (16 * (← digitValue? a) + (← digitValue? b)) :: done) rest

/-- The byte string with these digits. -/
def toBytes? (text : String) : Option Bytes :=
  bytesOf [] text.toList

example : ofBytes [0x0F, 0xA0] = "0fa0" := by decide +kernel
example : toBytes? "0fA0" = some [0x0F, 0xA0] := by decide +kernel

end FrozenTable.Text
