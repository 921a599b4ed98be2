/-!
# Accepting records

The perfect hash leads unknown keys to records of other keys. Before a lookup answers with the record it found, an acceptance
may look at it: it turns the record away, or passes its value on, perhaps another one.
-/

namespace FrozenTable

/-- Decides about a found record, given the key that was asked for, the key in the record, if keys are stored, and its value,
if there are values. The outer option tells whether the record is accepted. -/
abbrev Acceptance (κ ν : Type) :=
  (asked : κ) → (stored : Option κ) → (value : Option ν) → Option (Option ν)

namespace Acceptance

/-- Accepts the records that carry the key that was asked for, and all records that carry none. -/
def sameKey {κ ν : Type} [DecidableEq κ] : Acceptance κ ν := fun asked stored value =>
  match stored with
  | some key => if key = asked then some value else none
  | none => some value

end Acceptance

end FrozenTable
