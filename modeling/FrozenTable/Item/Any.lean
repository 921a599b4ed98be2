import FrozenTable.Item.Basic

/-!
# Items of any type

An item together with its type, for callers that learn the types of their keys and values only from what they are given.
-/

namespace FrozenTable

/-- The place of a plain type among the plain types. -/
def PlainType.place : PlainType → Nat
  | text => 0
  | long => 1
  | natural => 2
  | flag => 3
  | float => 4
  | optional => 5
  | pair => 6
  | dictionary => 7

/-- A number for each item type. -/
def ItemType.number : ItemType → Nat
  | unit => 0
  | plain type => 2 * type.place + 1
  | list element => 2 * element.number + 2

/-- An item with its type. -/
structure AnyItem where
  type : ItemType
  item : type.Carrier

namespace AnyItem

/-- The item as one of a given type, if it is one. -/
def as? (x : AnyItem) (t : ItemType) : Option t.Carrier :=
  if h : x.type = t then some (h ▸ x.item) else none

/-- The order of items: by type, and inside a type by the order of the type. -/
def order (a b : AnyItem) : Ordering :=
  match b.as? a.type with
  | some item => a.type.order a.item item
  | none => compare a.type.number b.type.number

instance : Ord AnyItem :=
  ⟨order⟩

instance : DecidableEq AnyItem
  | ⟨t, x⟩, ⟨u, y⟩ =>
    if h : t = u then
      if e : h ▸ x = y then .isTrue (by subst h; subst e; rfl)
      else .isFalse (by subst h; rintro ⟨⟩; exact e rfl)
    else .isFalse (by rintro ⟨⟩; exact h rfl)

instance : Spelled AnyItem :=
  ⟨fun x => x.type.spell x.item⟩

/-- The MessagePack form of an item. -/
def form (x : AnyItem) : Msgpack.Value :=
  x.type.form x.item

/-- The item of a given type with a given MessagePack form. -/
def view (t : ItemType) (v : Msgpack.Value) : Option AnyItem :=
  (t.view v).map fun item => ⟨t, item⟩

end AnyItem

end FrozenTable
