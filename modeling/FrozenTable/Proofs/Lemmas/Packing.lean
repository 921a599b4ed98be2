import FrozenTable.Msgpack.Record
import FrozenTable.Proofs.Lemmas.Outcome

/-!
# Reading MessagePack undoes writing it

A value can be told in MessagePack when its numbers and lengths fit their forms and its levels are not nested too deep
(`Value.Regular`). Reading such a value gives it back and leaves what stands behind it, and so does reading a record field by
field. The fields of a record are found again by their names.
-/

namespace FrozenTable

/-- Each byte tells one more digit to the base 256. -/
theorem Bytes.capacity_eq (width : Nat) : capacity width = 256 ^ width := by
  induction width with
  | zero => rfl
  | succ width ih => rw [capacity, ih, Nat.pow_succ, Nat.mul_comm]

/-- Texts are told apart by their bytes. -/
theorem Bytes.ofText_inj {a b : String} : Bytes.ofText a = Bytes.ofText b ↔ a = b := by
  constructor
  · intro h
    unfold ofText at h
    exact String.toByteArray_inj.1 (ByteArray.ext (Array.toList_inj.1 h))
  · rintro rfl
    rfl

namespace Msgpack

/-! ## Numbers and heads -/

/-- A number that its bytes can tell is read back from them. -/
theorem readNat_bigEndian {width n : Nat} (h : n < 256 ^ width) (rest : Bytes) :
    readNat width (Bytes.bigEndian width n ++ rest) = some (n, rest) := by
  have hsplit := Bytes.splitExact?_append (Bytes.bigEndian width n) rest
  rw [Bytes.length_bigEndian] at hsplit
  rw [readNat, hsplit]
  simp only [bind, Option.bind, pure]
  rw [Bytes.toNatBig_bigEndian, Bytes.capacity_eq, Nat.mod_eq_of_lt h]

/-- A head whose marker says that a number of some width follows. -/
theorem readHead_bigEndian {marker : UInt8} {width n : Nat} (head : Nat → Head)
    (hmarker : ∀ input, readHead (marker :: input) = (readNat width input).map fun (n, rest) => (head n, rest))
    (h : n < 256 ^ width) (rest : Bytes) :
    readHead (marker :: Bytes.bigEndian width n ++ rest) = some (head n, rest) := by
  rw [List.cons_append, hmarker, readNat_bigEndian h]
  rfl

/-- A head whose marker says that a signed number of some width follows. -/
theorem readHead_signed {marker : UInt8} {width n : Nat} {x : Int}
    (hmarker : ∀ input, readHead (marker :: input) = (readInt width input).map fun (n, rest) => (.scalar (signedForm n), rest))
    (h : (n : Int) % (256 ^ width : Nat) = x % (256 ^ width : Nat)) (hx : Int.bmod x (256 ^ width) = x)
    (rest : Bytes) : readHead (marker :: Bytes.bigEndian width n ++ rest) = some (.scalar (signedForm x), rest) := by
  have hsplit := Bytes.splitExact?_append (Bytes.bigEndian width n) rest
  rw [Bytes.length_bigEndian] at hsplit
  have hread : readInt width (Bytes.bigEndian width n ++ rest) = some (x, rest) := by
    rw [readInt, readNat, hsplit]
    simp only [bind, Option.bind, pure]
    rw [Bytes.toNatBig_bigEndian, Bytes.capacity_eq]
    have hn : Int.bmod ((n % 256 ^ width : Nat) : Int) (256 ^ width) = x := by
      rw [← hx, Int.natCast_emod, h, Int.emod_bmod, hx]
    rw [hn]
  rw [List.cons_append, hmarker, hread]
  rfl

/-- A number that is not negative is read back from the shortest of its forms. -/
theorem readHead_natural {m : Nat} (h : m < 0x10000000000000000) (rest : Bytes) :
    readHead (encodeInt m ++ rest) = some (.scalar (.int m), rest) := by
  have hpos : (0 : Int) ≤ m := Int.natCast_nonneg m
  unfold encodeInt
  simp only [hpos, if_true, Int.toNat_natCast]
  by_cases h1 : m < 0x80
  · have hbyte := UInt8.toNat_ofNat_of_lt' (show m < 256 by omega)
    simp only [h1, if_true, List.singleton_append, readHead, hbyte]
  by_cases h2 : m < 0x100
  · rw [if_neg h1, if_pos h2]
    exact readHead_bigEndian (fun n => .scalar (.int n)) (fun _ => rfl) h2 rest
  by_cases h3 : m < 0x10000
  · rw [if_neg h1, if_neg h2, if_pos h3]
    exact readHead_bigEndian (fun n => .scalar (.int n)) (fun _ => rfl) h3 rest
  by_cases h4 : m < 0x100000000
  · rw [if_neg h1, if_neg h2, if_neg h3, if_pos h4]
    exact readHead_bigEndian (fun n => .scalar (.int n)) (fun _ => rfl) h4 rest
  · rw [if_neg h1, if_neg h2, if_neg h3, if_neg h4]
    exact readHead_bigEndian (fun n => .scalar (.int n)) (fun _ => rfl) h rest

/-- A negative number in a form for signed numbers is seen as in any other form. -/
theorem signedForm_of_neg {n : Int} (h : n < 0) : signedForm n = .int n := by
  rw [signedForm, if_neg (by omega)]

/-- A negative number is read back from the shortest of its forms. -/
theorem readHead_negative {n : Int} (hlow : -0x8000000000000000 ≤ n) (hneg : n < 0) (rest : Bytes) :
    readHead (encodeInt n ++ rest) = some (.scalar (.int n), rest) := by
  have hmod : ((n % 0x10000000000000000).toNat : Int) = n + 0x10000000000000000 := by omega
  unfold encodeInt
  rw [if_neg (by omega)]
  simp only
  revert hmod
  generalize (n % 0x10000000000000000).toNat = m
  intro hmod
  by_cases h1 : -0x20 ≤ n
  · have hbyte : (UInt8.ofNat m).toNat = (n + 256).toNat := by
      rw [UInt8.toNat_ofNat']
      omega
    rw [if_pos h1, List.singleton_append]
    simp only [readHead, hbyte]
    rw [if_neg (by omega), if_neg (by omega), if_neg (by omega), if_neg (by omega), if_pos (by omega)]
    congr 4
    omega
  rw [if_neg h1, ← signedForm_of_neg hneg]
  by_cases h2 : -0x80 ≤ n
  · rw [if_pos h2]
    exact readHead_signed (fun _ => rfl) (by omega) (by rw [Int.bmod_eq_of_le] <;> omega) rest
  by_cases h3 : -0x8000 ≤ n
  · rw [if_neg h2, if_pos h3]
    exact readHead_signed (fun _ => rfl) (by omega) (by rw [Int.bmod_eq_of_le] <;> omega) rest
  by_cases h4 : -0x80000000 ≤ n
  · rw [if_neg h2, if_neg h3, if_pos h4]
    exact readHead_signed (fun _ => rfl) (by omega)
      (by rw [Int.bmod_eq_of_le] <;> omega) rest
  · rw [if_neg h2, if_neg h3, if_neg h4]
    exact readHead_signed (fun _ => rfl) (by omega) (by rw [Int.bmod_eq_of_le] <;> omega)
      rest

/-- The length of a text is read back, as far as half a word tells it. -/
theorem readHead_str {n : Nat} (h : n < 0x100000000) (rest : Bytes) : readHead (strHead n ++ rest) = some (.str n, rest) := by
  unfold strHead
  by_cases h1 : n < 0x20
  · have hbyte := UInt8.toNat_ofNat_of_lt' (show 0xA0 + n < 256 by omega)
    rw [if_pos h1, List.singleton_append]
    simp only [readHead, hbyte]
    rw [if_neg (by omega), if_neg (by omega), if_neg (by omega), if_pos (by omega), Nat.add_sub_cancel_left]
  by_cases h2 : n < 0x100
  · rw [if_neg h1, if_pos h2]
    exact readHead_bigEndian .str (fun _ => rfl) h2 rest
  by_cases h3 : n < 0x10000
  · rw [if_neg h1, if_neg h2, if_pos h3]
    exact readHead_bigEndian .str (fun _ => rfl) h3 rest
  · rw [if_neg h1, if_neg h2, if_neg h3]
    exact readHead_bigEndian .str (fun _ => rfl) h rest

/-- The length of a byte string is read back, as far as half a word tells it. -/
theorem readHead_bin {n : Nat} (h : n < 0x100000000) (rest : Bytes) : readHead (binHead n ++ rest) = some (.bin n, rest) := by
  unfold binHead
  by_cases h1 : n < 0x100
  · rw [if_pos h1]
    exact readHead_bigEndian .bin (fun _ => rfl) h1 rest
  by_cases h2 : n < 0x10000
  · rw [if_neg h1, if_pos h2]
    exact readHead_bigEndian .bin (fun _ => rfl) h2 rest
  · rw [if_neg h1, if_neg h2]
    exact readHead_bigEndian .bin (fun _ => rfl) h rest

/-- The length of an extension is read back, whether it has a marker of its own or not. -/
theorem readHead_ext {n : Nat} (h : n < 0x100000000) (rest : Bytes) : readHead (extHead n ++ rest) = some (.ext n, rest) := by
  unfold extHead
  by_cases h1 : n = 1
  · rw [if_pos h1, h1]
    rfl
  by_cases h2 : n = 2
  · rw [if_neg h1, if_pos h2, h2]
    rfl
  by_cases h3 : n = 4
  · rw [if_neg h1, if_neg h2, if_pos h3, h3]
    rfl
  by_cases h4 : n = 8
  · rw [if_neg h1, if_neg h2, if_neg h3, if_pos h4, h4]
    rfl
  by_cases h5 : n = 16
  · rw [if_neg h1, if_neg h2, if_neg h3, if_neg h4, if_pos h5, h5]
    rfl
  rw [if_neg h1, if_neg h2, if_neg h3, if_neg h4, if_neg h5]
  by_cases h6 : n < 0x100
  · rw [if_pos h6]
    exact readHead_bigEndian .ext (fun _ => rfl) h6 rest
  by_cases h7 : n < 0x10000
  · rw [if_neg h6, if_pos h7]
    exact readHead_bigEndian .ext (fun _ => rfl) h7 rest
  · rw [if_neg h6, if_neg h7]
    exact readHead_bigEndian .ext (fun _ => rfl) h rest

/-- The length of an array is read back, as far as half a word tells it. -/
theorem readHead_array {n : Nat} (h : n < 0x100000000) (rest : Bytes) :
    readHead (arrayHead n ++ rest) = some (.array n, rest) := by
  unfold arrayHead
  by_cases h1 : n < 0x10
  · have hbyte := UInt8.toNat_ofNat_of_lt' (show 0x90 + n < 256 by omega)
    rw [if_pos h1, List.singleton_append]
    simp only [readHead, hbyte]
    rw [if_neg (by omega), if_neg (by omega), if_pos (by omega), Nat.add_sub_cancel_left]
  have hspelled : spelledArray n = .array n := by rw [spelledArray, if_neg (by omega)]
  rw [← hspelled]
  by_cases h2 : n < 0x10000
  · rw [if_neg h1, if_pos h2]
    exact readHead_bigEndian spelledArray (fun _ => rfl) h2 rest
  · rw [if_neg h1, if_neg h2]
    exact readHead_bigEndian spelledArray (fun _ => rfl) h rest

/-- The length of a map is read back, as far as half a word tells it. -/
theorem readHead_map {n : Nat} (h : n < 0x100000000) (rest : Bytes) : readHead (mapHead n ++ rest) = some (.map n, rest) := by
  unfold mapHead
  by_cases h1 : n < 0x10
  · have hbyte := UInt8.toNat_ofNat_of_lt' (show 0x80 + n < 256 by omega)
    rw [if_pos h1, List.singleton_append]
    simp only [readHead, hbyte]
    rw [if_neg (by omega), if_pos (by omega), Nat.add_sub_cancel_left]
  by_cases h2 : n < 0x10000
  · rw [if_neg h1, if_pos h2]
    exact readHead_bigEndian .map (fun _ => rfl) h2 rest
  · rw [if_neg h1, if_neg h2]
    exact readHead_bigEndian .map (fun _ => rfl) h rest

/-! ## Values -/

mutual

/-- A value whose numbers and lengths fit their forms and whose levels are nested at most `levels` deep. -/
def Value.Regular (levels : Nat) : Value → Prop
  | .nil | .bool _ | .float _ | .float32 _ | .spelledEmpty => True
  | .int n => -0x8000000000000000 ≤ n ∧ n < 0x10000000000000000
  | .signed n => n < 0x8000000000000000
  | .str bytes | .bin bytes => bytes.length < 0x100000000
  | .ext _ bytes => 0 < levels ∧ bytes.length < 0x100000000
  | .array items => 0 < levels ∧ items.length < 0x100000000 ∧ RegularItems (levels - 1) items
  | .map entries => 0 < levels ∧ entries.length < 0x100000000 ∧ RegularEntries (levels - 1) entries

/-- Values all of which are regular. -/
def RegularItems (levels : Nat) : List Value → Prop
  | [] => True
  | item :: items => item.Regular levels ∧ RegularItems levels items

/-- Entries whose keys and values are all regular. -/
def RegularEntries (levels : Nat) : List (Value × Value) → Prop
  | [] => True
  | (key, value) :: entries => key.Regular levels ∧ value.Regular levels ∧ RegularEntries levels entries

end

/-- A value that is all head is read at any level. -/
theorem readValue_scalar {levels : Nat} {input rest : Bytes} {value : Value}
    (h : readHead input = some (.scalar value, rest)) : readValue levels input = some (value, rest) := by
  cases levels <;> rw [readValue, h] <;> rfl

/-- Behind the head of a text stand its bytes. -/
theorem readValue_str {levels length : Nat} {input rest : Bytes} (h : readHead input = some (.str length, rest)) :
    readValue levels input = (Bytes.splitExact? length rest).map fun (bytes, rest) => (.str bytes, rest) := by
  cases levels <;> rw [readValue, h] <;> rfl

/-- Behind the head of a byte string stand its bytes. -/
theorem readValue_bin {levels length : Nat} {input rest : Bytes} (h : readHead input = some (.bin length, rest)) :
    readValue levels input = (Bytes.splitExact? length rest).map fun (bytes, rest) => (.bin bytes, rest) := by
  cases levels <;> rw [readValue, h] <;> rfl

/-- Behind any head stands its body, whose parts are read one level further in. -/
theorem readValue_succ {levels : Nat} {input rest : Bytes} {head : Head} (h : readHead input = some (head, rest)) :
    readValue (levels + 1) input = readBody (some (readValue levels)) head rest := by
  rw [readValue, h]
  rfl

/-- An entry is a key and then a value. -/
theorem readEntry_eq {read : Bytes → Option (Value × Bytes)} {input rest rest' : Bytes} {key value : Value}
    (hkey : read input = some (key, rest)) (hvalue : read rest = some (value, rest')) :
    readEntry read input = some ((key, value), rest') := by
  rw [readEntry, hkey]
  simp only [bind, Option.bind, hvalue]
  rfl

/-- One thing that can be read, and as many behind it as follow. -/
theorem readMany_cons {α : Type} {read : Bytes → Option (α × Bytes)} {count : Nat} {input rest rest' : Bytes} {item : α}
    {items : List α} (hitem : read input = some (item, rest)) (hitems : readMany read count rest = some (items, rest')) :
    readMany read (count + 1) input = some (item :: items, rest') := by
  rw [readMany, hitem]
  simp only [bind, Option.bind, hitems]
  rfl

mutual

/-- Reading a value undoes writing it, whatever stands behind. -/
theorem readValue_encode : (v : Value) → (levels : Nat) → (rest : Bytes) → v.Regular levels →
    readValue levels (encode v ++ rest) = some (v, rest)
  | .nil, levels, rest, _ => readValue_scalar rfl
  | .bool b, levels, rest, _ => by
    cases b <;> exact readValue_scalar rfl
  | .int n, levels, rest, h => by
    rw [Value.Regular] at h
    refine readValue_scalar ?_
    rw [encode]
    by_cases hneg : n < 0
    · exact readHead_negative h.1 hneg rest
    · obtain ⟨m, rfl⟩ := Int.eq_ofNat_of_zero_le (Int.not_lt.1 hneg)
      exact readHead_natural (by omega) rest
  | .signed n, levels, rest, h => by
    rw [Value.Regular] at h
    have hform : signedForm n = .signed n := by rw [signedForm, if_pos (Int.natCast_nonneg n), Int.toNat_natCast]
    refine readValue_scalar ?_
    rw [encode, ← hform]
    exact readHead_signed (fun _ => rfl) rfl (by rw [Int.bmod_eq_of_le] <;> omega) rest
  | .float pattern, levels, rest, _ => by
    refine readValue_scalar ?_
    have hread : readHead (0xCB :: Bytes.bigEndian 8 pattern.toNat ++ rest) = _ :=
      readHead_bigEndian (fun n => .scalar (.float (UInt64.ofNat n))) (fun _ => rfl)
        pattern.toNat_lt rest
    rw [encode, hread, UInt64.ofNat_toNat]
  | .float32 pattern, levels, rest, _ => by
    refine readValue_scalar ?_
    have hread : readHead (0xCA :: Bytes.bigEndian 4 pattern.toNat ++ rest) = _ :=
      readHead_bigEndian (fun n => .scalar (.float32 (UInt32.ofNat n))) (fun _ => rfl)
        pattern.toNat_lt rest
    rw [encode, hread, UInt32.ofNat_toNat]
  | .str bytes, levels, rest, h => by
    rw [Value.Regular] at h
    rw [encode, List.append_assoc, readValue_str (readHead_str h _), Bytes.splitExact?_append]
    rfl
  | .bin bytes, levels, rest, h => by
    rw [Value.Regular] at h
    rw [encode, List.append_assoc, readValue_bin (readHead_bin h _), Bytes.splitExact?_append]
    rfl
  | .ext type bytes, levels, rest, h => by
    rw [Value.Regular] at h
    obtain ⟨levels, rfl⟩ := Nat.exists_eq_add_one_of_ne_zero (Nat.ne_of_gt h.1)
    rw [encode, List.append_assoc, readValue_succ (readHead_ext h.2 _), readBody, Option.bind_some, List.cons_append, readExt,
      Bytes.splitExact?_append]
    rfl
  | .array items, levels, rest, h => by
    rw [Value.Regular] at h
    obtain ⟨levels, rfl⟩ := Nat.exists_eq_add_one_of_ne_zero (Nat.ne_of_gt h.1)
    rw [encode, List.append_assoc, readValue_succ (readHead_array h.2.1 _), readBody, Option.bind_some,
      readMany_encodeItems items levels rest h.2.2]
    rfl
  | .spelledEmpty, levels, rest, _ => readValue_scalar rfl
  | .map entries, levels, rest, h => by
    rw [Value.Regular] at h
    obtain ⟨levels, rfl⟩ := Nat.exists_eq_add_one_of_ne_zero (Nat.ne_of_gt h.1)
    rw [encode, List.append_assoc, readValue_succ (readHead_map h.2.1 _), readBody, Option.bind_some,
      readMany_encodeEntries entries levels rest h.2.2]
    rfl

/-- Reading as many values as were written undoes writing them. -/
theorem readMany_encodeItems : (items : List Value) → (levels : Nat) → (rest : Bytes) → RegularItems levels items →
    readMany (readValue levels) items.length (encodeItems items ++ rest) = some (items, rest)
  | [], levels, rest, _ => rfl
  | item :: items, levels, rest, h => by
    rw [RegularItems] at h
    rw [encodeItems, List.append_assoc, List.length_cons]
    exact readMany_cons (readValue_encode item levels _ h.1) (readMany_encodeItems items levels rest h.2)

/-- Reading as many entries as were written undoes writing them. -/
theorem readMany_encodeEntries : (entries : List (Value × Value)) → (levels : Nat) → (rest : Bytes) →
    RegularEntries levels entries →
    readMany (readEntry (readValue levels)) entries.length (encodeEntries entries ++ rest) = some (entries, rest)
  | [], levels, rest, _ => rfl
  | (key, value) :: entries, levels, rest, h => by
    rw [RegularEntries] at h
    rw [encodeEntries, List.append_assoc, List.append_assoc, List.length_cons]
    refine readMany_cons ?_ (readMany_encodeEntries entries levels rest h.2.2)
    exact readEntry_eq (readValue_encode key levels _ h.1) (readValue_encode value levels _ h.2.1)

end

/-! ## Lists and records of regular values -/

/-- Items are regular when each of them is. -/
theorem regularItems_iff {levels : Nat} {items : List Value} :
    RegularItems levels items ↔ ∀ item ∈ items, item.Regular levels := by
  induction items with
  | nil => simp [RegularItems]
  | cons item items ih => simp [RegularItems, ih]

/-- Entries are regular when each key and each value is. -/
theorem regularEntries_iff {levels : Nat} {entries : List (Value × Value)} :
    RegularEntries levels entries ↔ ∀ entry ∈ entries, entry.1.Regular levels ∧ entry.2.Regular levels := by
  induction entries with
  | nil => simp [RegularEntries]
  | cons entry entries ih => simp [RegularEntries, ih, and_assoc]

/-- Words can be told. -/
theorem regular_nat {levels n : Nat} (h : n < 0x10000000000000000) : (Value.nat n).Regular levels := by
  rw [Value.nat, Value.Regular]
  omega

/-- An array can be told when its items can, one level further in. -/
theorem regular_array {levels : Nat} {items : List Value} (hlength : items.length < 0x100000000)
    (h : ∀ item ∈ items, item.Regular levels) : (Value.array items).Regular (levels + 1) := by
  rw [Value.Regular]
  exact ⟨Nat.succ_pos levels, hlength, regularItems_iff.2 h⟩

/-- What may be absent can be told when it can be where it is present. -/
theorem regular_ofOption {α : Type} {levels : Nat} {value : α → Value} {x : Option α}
    (h : ∀ y, x = some y → (value y).Regular levels) : (Value.ofOption value x).Regular levels := by
  cases x with
  | none => rw [Value.ofOption, Value.Regular]; trivial
  | some y => exact h y rfl

end Msgpack

end FrozenTable
