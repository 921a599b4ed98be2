import FrozenTable.Item.Plain
import FrozenTable.Proofs.Lemmas.Records
import FrozenTable.Proofs.Lemmas.Sizing

/-!
# Plain items are found again in their MessagePack form

The form of an item is a regular value when its lengths are told by 32 bits, and the view of its type finds the item in it: a
text from its bytes, a number from the form of numbers, and a dictionary by inserting its entries in their order, each of which
comes to stand behind those before it.
-/

namespace FrozenTable

/-! ## Texts and numbers -/

/-- A text is found again from its bytes. -/
theorem Utf8.decode?_ofText (text : String) : decode? (Bytes.ofText text) = some text := by
  have hpack : (Bytes.ofText text).pack = text.toByteArray := by simp [Bytes.pack, Bytes.ofText]
  rw [decode?, hpack, String.fromUTF8?, dif_pos text.isValidUTF8]
  rfl

theorem Word64.isSigned_toInt (x : Int64) : IsSigned x.toInt :=
  ⟨Int64.le_toInt x, Int64.toInt_lt x⟩

namespace PlainType

open Msgpack

/-- A signed word is seen as itself. -/
theorem longOf_int (x : Int64) : longOf (.int x.toInt) = some x := by
  rw [longOf, Value.toSigned?_int (Word64.isSigned_toInt x), Option.map_some, Int64.ofInt_toInt]

/-- A word is seen as itself. -/
theorem wordOf_nat (x : UInt64) : (Value.nat x.toNat).toWord?.map UInt64.ofNat = some x := by
  rw [Value.toWord?_nat x.toNat_lt, Option.map_some, UInt64.ofNat_toNat]

/-- Signed words can be told. -/
theorem regular_int {levels : Nat} (x : Int64) : (Value.int x.toInt).Regular levels := by
  obtain ⟨hlow, hhigh⟩ := Word64.isSigned_toInt x
  rw [Value.Regular]
  omega

end PlainType

/-! ## Dictionaries -/

namespace Dictionary

/-- An entry with a key behind all others is put behind them. -/
theorem insertEntry_last {key : String} {value : Int64} {entries : List (String × Int64)} (h : ∀ e ∈ entries, e.1 < key) :
    insertEntry key value entries = entries ++ [(key, value)] := by
  induction entries with
  | nil => rfl
  | cons entry entries ih =>
    have hless : entry.1 < key := h entry List.mem_cons_self
    have hnot : ¬ key < entry.1 := String.lt_asymm hless
    have hother : key ≠ entry.1 := by
      rintro rfl
      exact String.lt_irrefl _ hless
    rw [insertEntry, if_neg hnot, if_neg hother, ih fun e he => h e (List.mem_cons_of_mem _ he)]
    rfl

/-- Entries in order, each put into a dictionary of the ones before it, come to stand behind it. -/
theorem entries_foldl (d : Dictionary) {entries : List (String × Int64)}
    (h : (d.entries ++ entries).Pairwise fun a b => a.1 < b.1) :
    (entries.foldl (fun d (key, value) => d.insert key value) d).entries = d.entries ++ entries := by
  induction entries generalizing d with
  | nil => simp
  | cons entry entries ih =>
    obtain ⟨-, -, hapart⟩ := List.pairwise_append.1 h
    have hlast : (d.insert entry.1 entry.2).entries = d.entries ++ [entry] :=
      insertEntry_last fun e he => hapart e he entry List.mem_cons_self
    have happend : (d.insert entry.1 entry.2).entries ++ entries = d.entries ++ entry :: entries := by simp [hlast]
    rw [List.foldl_cons, ih _ (happend ▸ h), happend]

/-- A dictionary is found again from its entries. -/
theorem ofList_entries (d : Dictionary) : ofList d.entries = d := by
  have hentries : (ofList d.entries).entries = d.entries := entries_foldl empty d.sorted
  cases hd : ofList d.entries
  cases d
  simp_all

end Dictionary

/-! ## Views -/

/-- Elements that are found again from what a function makes of them. -/
theorem mapM_map_eq_some {α β : Type} {f : β → Option α} {g : α → β} {xs : List α} (h : ∀ x ∈ xs, f (g x) = some x) :
    (xs.map g).mapM f = some xs := by
  refine Msgpack.Value.mapM_eq_some (by simp) fun i hi hi' => ?_
  rw [List.getElem_map]
  exact h _ (List.getElem_mem hi')

namespace PlainType

open Msgpack

/-- An item whose lengths are told by 32 bits, as MessagePack tells them. -/
def Measured : (t : PlainType) → t.Carrier → Prop
  | text, (x : String) => x.utf8ByteSize < 0x100000000
  | pair, (x : String × List UInt32) => x.1.utf8ByteSize < 0x100000000 ∧ x.2.length < 0x100000000
  | dictionary, x => x.entries.length < 0x100000000 ∧ ∀ e ∈ x.entries, e.1.utf8ByteSize < 0x100000000
  | long, _ | natural, _ | flag, _ | float, _ | optional, _ => True

/-- A text can be told as far as half a word tells its length. -/
theorem regular_utf8 {levels : Nat} {x : String} (h : x.utf8ByteSize < 0x100000000) : (Value.text x).Regular levels :=
  regular_text (by rwa [Bytes.length_ofText])

/-- The form of an item is a regular value of at most two levels. -/
theorem regular_form {levels : Nat} (t : PlainType) {x : t.Carrier} (h : t.Measured x) : (t.form x).Regular (levels + 2) := by
  cases t with
  | text => exact regular_utf8 h
  | long => exact regular_int x
  | natural => exact regular_nat (UInt64.toNat_lt x)
  | flag => exact trivial
  | float => exact trivial
  | optional => exact regular_ofOption fun y _ => regular_int y
  | pair =>
    obtain ⟨hfirst, hlength⟩ := h
    refine regular_array (by simp) ?_
    simp only [List.forall_mem_cons]
    refine ⟨regular_utf8 hfirst, regular_array (by simpa using hlength) ?_, nofun⟩
    intro v hv
    obtain ⟨n, -, rfl⟩ := List.mem_map.1 hv
    exact regular_nat (Nat.lt_trans n.toNat_lt (by decide))
  | dictionary =>
    obtain ⟨hlength, hkeys⟩ := h
    rw [form, Value.Regular, regularEntries_iff]
    refine ⟨Nat.succ_pos _, by simpa using hlength, ?_⟩
    intro v hv
    obtain ⟨e, he, rfl⟩ := List.mem_map.1 hv
    exact ⟨regular_utf8 (hkeys e he), regular_int e.2⟩

/-- An item is found again from its form. -/
theorem view_form (t : PlainType) (x : t.Carrier) : t.view (t.form x) = some x := by
  cases t with
  | text => exact Utf8.decode?_ofText x
  | long => exact longOf_int x
  | natural => exact wordOf_nat x
  | flag => rfl
  | float => rfl
  | optional => exact Value.optional_ofOption (x := x) fun y _ => ⟨nofun, longOf_int y⟩
  | pair =>
    obtain ⟨first, numbers⟩ := x
    have hfirst : (Value.text first).toText? = some first := Utf8.decode?_ofText first
    have hnumbers : (numbers.map fun n => Value.nat n.toNat).mapM (fun item => item.toHalf?.map UInt32.ofNat) =
        some numbers := by
      refine mapM_map_eq_some fun n _ => ?_
      rw [Value.toHalf?_nat n.toNat_lt, Option.map_some, UInt32.ofNat_toNat]
    simp [view, form, Value.toTuple?, Value.toArray?, Value.toItems?, hfirst, hnumbers, Option.filter]
  | dictionary =>
    have hentries : (x.entries.map fun e => (Value.text e.1, Value.int e.2.toInt)).mapM
        (fun v => do pure (← v.1.toText?, ← longOf v.2)) = some x.entries := by
      refine mapM_map_eq_some fun e _ => ?_
      have hkey : (Value.text e.1).toText? = some e.1 := Utf8.decode?_ofText e.1
      simp [hkey, longOf_int]
    have hview : view .dictionary (form .dictionary x) = (some x.entries).bind fun entries => some (.ofList entries) := by
      rw [← hentries]
      rfl
    exact hview.trans (congrArg some (Dictionary.ofList_entries x))

end PlainType

end FrozenTable
