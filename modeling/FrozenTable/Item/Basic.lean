import FrozenTable.Item.Plain

/-!
# Items

The types of keys and values that the codecs of this library can write: the plain ones, the unit and lists. Like plain items,
all items are ordered, can be told apart, have a spelling for messages and a MessagePack form.
-/

namespace FrozenTable

/-- The item types. -/
inductive ItemType where
  | unit
  | plain (type : PlainType)
  | list (element : ItemType)
deriving DecidableEq, Repr

namespace ItemType

/-- The items of a type. -/
def Carrier : ItemType → Type
  | unit => Unit
  | plain type => type.Carrier
  | list element => List element.Carrier

instance decEq : (t : ItemType) → DecidableEq t.Carrier
  | unit => inferInstanceAs (DecidableEq Unit)
  | plain type => PlainType.decEq type
  | list element =>
    have := decEq element
    inferInstanceAs (DecidableEq (List element.Carrier))

/-- The order of the items of a type; a list comes after its front parts. -/
def order : (t : ItemType) → t.Carrier → t.Carrier → Ordering
  | unit, _, _ => .eq
  | plain type, a, b => type.order a b
  | list element, a, b => List.compareLex element.order a b

instance (t : ItemType) : Ord t.Carrier :=
  ⟨t.order⟩

instance (t : ItemType) : DecidableEq t.Carrier :=
  t.decEq

/-- The MessagePack form of an item. -/
def form : (t : ItemType) → t.Carrier → Msgpack.Value
  | unit, _ => .nil
  | plain type, x => type.form x
  | list element, x => .array (x.map element.form)

/-- The item with a given MessagePack form. -/
def view : (t : ItemType) → Msgpack.Value → Option t.Carrier
  | unit, v => v.toUnit?
  | plain type, v => type.view v
  | list element, v => do (← v.toItems?).mapM element.view

/-- An item as messages spell it. -/
def spell : (t : ItemType) → t.Carrier → String
  | unit, _ => "()"
  | plain type, x => type.spell x
  | list element, x => Text.ofList element.spell x

end ItemType

/-- Items that messages can spell. -/
class Spelled (α : Type) where
  spell : α → String

instance (t : ItemType) : Spelled t.Carrier :=
  ⟨t.spell⟩

end FrozenTable
