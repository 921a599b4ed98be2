import FrozenTable.Msgpack.View
import FrozenTable.Binary64.Shortest
import FrozenTable.Text.Quoted

/-!
# Plain items

The types of items that can be written by their MessagePack form, as a universe: a small type of names and, for each name, the
type of its items. Items of one type are ordered, can be told apart, and have a spelling for messages.
-/

namespace FrozenTable

/-- The item types that can be written by their MessagePack form. -/
inductive PlainType where
  | text
  | long
  | natural
  | flag
  | float
  | optional
  | pair
  | dictionary
deriving DecidableEq, Repr

/-- A 64-bit float by its pattern; floats are told apart and ordered by it. -/
structure FloatPattern where
  bits : UInt64
deriving DecidableEq, Repr, Inhabited

/-- A dictionary from texts to signed words: its entries in the order of their keys, each key once. -/
structure Dictionary where
  entries : List (String × Int64)
  sorted : entries.Pairwise fun a b => a.1 < b.1
deriving DecidableEq

namespace Dictionary

/-- Puts an entry into a list of entries in order; an entry with the same key gives way. -/
def insertEntry (key : String) (value : Int64) : List (String × Int64) → List (String × Int64)
  | [] => [(key, value)]
  | entry :: entries =>
    if key < entry.1 then (key, value) :: entry :: entries
    else if key = entry.1 then (key, value) :: entries
    else entry :: insertEntry key value entries

theorem mem_insertEntry {key : String} {value : Int64} {entries : List (String × Int64)} {e : String × Int64}
    (h : e ∈ insertEntry key value entries) : e = (key, value) ∨ e ∈ entries := by
  induction entries with
  | nil => simpa [insertEntry] using h
  | cons a entries ih =>
    unfold insertEntry at h
    split at h
    · simpa using h
    · split at h
      · rcases List.mem_cons.1 h with h | h
        · exact .inl h
        · exact .inr (List.mem_cons_of_mem _ h)
      · rcases List.mem_cons.1 h with h | h
        · exact .inr (h ▸ List.mem_cons_self)
        · exact (ih h).imp id (List.mem_cons_of_mem _)

theorem sorted_insertEntry {key : String} {value : Int64} {entries : List (String × Int64)}
    (h : entries.Pairwise fun a b => a.1 < b.1) : (insertEntry key value entries).Pairwise fun a b => a.1 < b.1 := by
  induction entries with
  | nil => simp [insertEntry]
  | cons a entries ih =>
    obtain ⟨first, tail⟩ := List.pairwise_cons.1 h
    unfold insertEntry
    split
    · rename_i less
      refine List.pairwise_cons.2 ⟨fun e he => ?_, h⟩
      rcases List.mem_cons.1 he with he | he
      · exact he ▸ less
      · exact String.lt_trans less (first e he)
    · rename_i notLess
      split
      · rename_i same
        exact List.pairwise_cons.2 ⟨fun e he => same ▸ first e he, tail⟩
      · rename_i other
        refine List.pairwise_cons.2 ⟨fun e he => ?_, ih tail⟩
        rcases mem_insertEntry he with he | he
        · have := String.not_lt.1 notLess
          rw [he]
          exact Std.lt_of_le_of_ne this fun same => other same.symm
        · exact first e he

/-- The dictionary without entries. -/
def empty : Dictionary :=
  ⟨[], .nil⟩

/-- A dictionary with one more entry; an entry with the same key gives way. -/
def insert (d : Dictionary) (key : String) (value : Int64) : Dictionary :=
  ⟨insertEntry key value d.entries, sorted_insertEntry d.sorted⟩

/-- The dictionary of some entries; of entries with one key the last counts. -/
def ofList (entries : List (String × Int64)) : Dictionary :=
  entries.foldl (fun d (key, value) => d.insert key value) empty

end Dictionary

namespace PlainType

/-- The items of a plain type. -/
def Carrier : PlainType → Type
  | text => String
  | long => Int64
  | natural => UInt64
  | flag => Bool
  | float => FloatPattern
  | optional => Option Int64
  | pair => String × List UInt32
  | dictionary => Dictionary

instance decEq : (t : PlainType) → DecidableEq t.Carrier
  | text => inferInstanceAs (DecidableEq String)
  | long => inferInstanceAs (DecidableEq Int64)
  | natural => inferInstanceAs (DecidableEq UInt64)
  | flag => inferInstanceAs (DecidableEq Bool)
  | float => inferInstanceAs (DecidableEq FloatPattern)
  | optional => inferInstanceAs (DecidableEq (Option Int64))
  | pair => inferInstanceAs (DecidableEq (String × List UInt32))
  | dictionary => inferInstanceAs (DecidableEq Dictionary)

/-- Entries of dictionaries and pairs are ordered by their first part, then by their second. -/
def compareParts {α β : Type} [Ord α] [Ord β] (a b : α × β) : Ordering :=
  (compare a.1 b.1).then (compare a.2 b.2)

/-- The order of the items of a type: numbers by value, texts by their bytes, no item before any item, sequences by their
first difference. -/
def order : (t : PlainType) → t.Carrier → t.Carrier → Ordering
  | text, a, b => @compare String _ a b
  | long, a, b => @compare Int64 _ a b
  | natural, a, b => @compare UInt64 _ a b
  | flag, a, b => @compare Bool _ a b
  | float, a, b => compare a.bits b.bits
  | optional, a, b => @compare (Option Int64) _ a b
  | pair, a, b => @compareParts String (List UInt32) _ _ a b
  | dictionary, a, b => List.compareLex compareParts a.entries b.entries

/-- The MessagePack form of an item. -/
def form : (t : PlainType) → t.Carrier → Msgpack.Value
  | text, (x : String) => .text x
  | long, (x : Int64) => .int x.toInt
  | natural, (x : UInt64) => .nat x.toNat
  | flag, (x : Bool) => .bool x
  | float, x => .float x.bits
  | optional, (x : Option Int64) => .ofOption (fun n => .int n.toInt) x
  | pair, (x : String × List UInt32) => .array [.text x.1, .array (x.2.map fun n => .nat n.toNat)]
  | dictionary, x => .map (x.entries.map fun (key, n) => (.text key, .int n.toInt))

/-- A signed word from its MessagePack form. -/
def longOf (v : Msgpack.Value) : Option Int64 :=
  v.toSigned?.map Int64.ofInt

/-- The item with a given MessagePack form. -/
def view : (t : PlainType) → Msgpack.Value → Option t.Carrier
  | text, v => v.toText?
  | long, v => longOf v
  | natural, v => v.toWord?.map UInt64.ofNat
  | flag, v => v.toBool?
  | float, v => v.toFloat?.map FloatPattern.mk
  | optional, v => v.toOption? longOf
  | pair, v => do
    match ← v.toTuple? 2 with
    | [first, items] =>
      let first ← first.toText?
      let items ← items.toItems?
      let numbers ← items.mapM fun item => item.toHalf?.map UInt32.ofNat
      pure (first, numbers)
    | _ => none
  | dictionary, v => do
    let entries ← v.toEntries?
    let entries ← entries.mapM fun (key, value) => do pure (← key.toText?, ← longOf value)
    pure (Dictionary.ofList entries)

/-- An item as messages spell it. -/
def spell : (t : PlainType) → t.Carrier → String
  | text, (x : String) => Text.quote x
  | long, (x : Int64) => toString x.toInt
  | natural, (x : UInt64) => toString x.toNat
  | flag, (x : Bool) => Text.ofBool x
  | float, x => Binary64.text x.bits
  | optional, (x : Option Int64) => Text.ofOption (fun n : Int64 => toString n.toInt) x
  | pair, (x : String × List UInt32) =>
    "(" ++ Text.quote x.1 ++ ", " ++ Text.ofList (fun n : UInt32 => toString n.toNat) x.2 ++ ")"
  | dictionary, x => Text.ofPairs (fun n : Int64 => toString n.toInt) x.entries

end PlainType

end FrozenTable
