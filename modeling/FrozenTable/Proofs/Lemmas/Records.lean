import FrozenTable.Proofs.Lemmas.Packing

/-!
# Records are read back field by field

A record is written as a map from the names of its fields. Reading it by readers of its fields gives the map back, and the
fields of the map are found again by their names, as long as no name is there twice. Where a record is written as the array of
its fields, these are found again by their places.
-/

namespace FrozenTable.Msgpack

/-! ## Readers -/

/-- Reading a value by a reader gives it back, whatever stands behind. -/
def Reads (reader : Reader) (levels : Nat) (v : Value) : Prop :=
  ∀ rest, reader levels (encode v ++ rest) = some (v, rest)

/-- A regular value is read back without expecting anything. -/
theorem reads_readValue {levels : Nat} {v : Value} (h : v.Regular levels) : Reads readValue levels v :=
  fun rest => readValue_encode v levels rest h

/-- A text can be told when half a word tells its length. -/
theorem regular_text {levels : Nat} {name : String} (h : (Bytes.ofText name).length < 0x100000000) :
    (Value.text name).Regular levels := by
  rw [Value.text, Value.Regular]
  exact h

/-- A named choice is written as a text, which is read like any other text. -/
theorem reads_readChoice {levels : Nat} {name : String} (h : (Bytes.ofText name).length < 0x100000000) :
    Reads readChoice levels (.text name) := by
  intro rest
  have hread := readValue_encode (.text name) levels rest (regular_text h)
  have hhead : readHead (encode (.text name) ++ rest) = some (.str (Bytes.ofText name).length, Bytes.ofText name ++ rest) := by
    rw [Value.text, encode, List.append_assoc, readHead_str h]
  unfold readChoice
  simp only [hhead]
  exact hread

/-- The first place with the bytes of a name is a place of that name. -/
theorem findIdx_ofText {names : List String} {name : String} (h : name ∈ names) :
    ∃ hlt : names.findIdx (fun n => Bytes.ofText n == Bytes.ofText name) < names.length,
      names[names.findIdx fun n => Bytes.ofText n == Bytes.ofText name] = name := by
  have hlt : names.findIdx (fun n => Bytes.ofText n == Bytes.ofText name) < names.length :=
    List.findIdx_lt_length_of_exists ⟨name, h, beq_self_eq_true _⟩
  have hat := List.findIdx_getElem (w := hlt)
  exact ⟨hlt, Bytes.ofText_inj.1 (beq_iff_eq.1 hat)⟩

/-- The reader of a field is found by its name. -/
theorem fieldReader_text (reader : String → Reader) {names : List String} {name : String} (h : name ∈ names) :
    fieldReader (names.map fun name => (name, reader name)) (.text name) = reader name := by
  obtain ⟨hlt, hat⟩ := findIdx_ofText h
  have hnames : (names.map fun name => (name, reader name)).map (·.1) = names := by
    rw [List.map_map]
    exact List.map_id _
  have hplace : (Value.text name).place? names = some (names.findIdx fun n => Bytes.ofText n == Bytes.ofText name) := rfl
  rw [fieldReader, hnames, hplace, Option.bind_some, List.getElem?_map, List.getElem?_eq_getElem hlt, hat]
  rfl

/-- A field is its name and then its value, which is read by the reader that goes with the name. -/
theorem readField_eq {readers : List (String × Reader)} {levels : Nat} {name : String} {v : Value}
    (hname : (Bytes.ofText name).length < 0x100000000) (hv : Reads (fieldReader readers (.text name)) levels v)
    (rest : Bytes) :
    readField readers levels (encode (.text name) ++ (encode v ++ rest)) = some ((.text name, v), rest) := by
  have hkey := readValue_encode (.text name) levels (encode v ++ rest) (regular_text hname)
  rw [readField, hkey]
  simp only [bind, Option.bind]
  rw [hv rest]
  rfl

/-- Fields are read back one after the other, each by its own reader. -/
theorem readMany_readField {readers : List (String × Reader)} {levels : Nat} {fields : List (String × Value)}
    (h : ∀ field ∈ fields, (Bytes.ofText field.1).length < 0x100000000 ∧
      Reads (fieldReader readers (.text field.1)) levels field.2) (rest : Bytes) :
    readMany (readField readers levels) fields.length
        (encodeEntries (fields.map fun (name, value) => (.text name, value)) ++ rest) =
      some (fields.map fun (name, value) => (.text name, value), rest) := by
  induction fields with
  | nil => rfl
  | cons field fields ih =>
    obtain ⟨hname, hv⟩ := h field List.mem_cons_self
    rw [List.map_cons, encodeEntries, List.append_assoc, List.append_assoc, List.length_cons]
    exact readMany_cons (readField_eq hname hv _) (ih fun field hfield => h field (List.mem_cons_of_mem _ hfield))

/-- Reading a record by the readers of its fields gives it back. -/
theorem reads_record {readers : List (String × Reader)} {levels : Nat} {fields : List (String × Value)}
    (hlength : fields.length < 0x100000000)
    (h : ∀ field ∈ fields, (Bytes.ofText field.1).length < 0x100000000 ∧
      Reads (fieldReader readers (.text field.1)) levels field.2) :
    Reads (readRecord readers) (levels + 1) (.record fields) := by
  intro rest
  have hmap : (fields.map fun (name, value) => (Value.text name, value)).length = fields.length := List.length_map _
  rw [Value.record, encode, List.append_assoc, hmap]
  unfold readRecord
  simp only [readHead_map hlength, readMany_readField h]
  rfl

/-- A record can be told when its names and its fields can, one level further in. -/
theorem regular_record {levels : Nat} {fields : List (String × Value)} :
    (Value.record fields).Regular (levels + 1) ↔ fields.length < 0x100000000 ∧
      ∀ field ∈ fields, (Bytes.ofText field.1).length < 0x100000000 ∧ field.2.Regular levels := by
  rw [Value.record, Value.Regular, List.length_map, regularEntries_iff, List.forall_mem_map, Nat.add_sub_cancel]
  simp only [Nat.succ_pos, true_and]
  simp only [Value.text, Value.Regular]

/-- The two ways in which records are written: by the names of their fields and by the places of these. -/
def IsShape (shape : List (String × Value) → Value) : Prop :=
  shape = .record ∨ shape = .tuple

/-- A record can be told in both of its shapes. -/
theorem regular_shape {shape : List (String × Value) → Value} (hshape : IsShape shape) {levels : Nat}
    {fields : List (String × Value)} (hlength : fields.length < 0x100000000)
    (h : ∀ field ∈ fields, (Bytes.ofText field.1).length < 0x100000000 ∧ field.2.Regular levels) :
    (shape fields).Regular (levels + 1) := by
  rcases hshape with rfl | rfl
  · exact regular_record.2 ⟨hlength, h⟩
  · refine regular_array (by rw [List.length_map]; exact hlength) ?_
    intro item hitem
    obtain ⟨field, hfield, rfl⟩ := List.mem_map.1 hitem
    exact (h field hfield).2

/-- Reading a record by readers that go by the names of its fields gives it back. -/
theorem reads_record_zip {names : List String} {values : List Value} {reader : String → Reader} {levels : Nat}
    (hregular : (Value.record (names.zip values)).Regular (levels + 1))
    (hread : ∀ field ∈ names.zip values, field.2.Regular levels → Reads (reader field.1) levels field.2) :
    Reads (readRecord (names.map fun name => (name, reader name))) (levels + 1) (.record (names.zip values)) := by
  obtain ⟨hcount, hfields⟩ := regular_record.1 hregular
  refine reads_record hcount ?_
  intro field hfield
  obtain ⟨hname, hvalue⟩ := hfields field hfield
  rw [fieldReader_text reader (List.of_mem_zip hfield).1]
  exact ⟨hname, hread field hfield hvalue⟩

/-! ## Fields -/

namespace Value

/-- A map that may fail ends well when each step does. -/
theorem mapM_eq_some {α β : Type} {f : α → Option β} {xs : List α} {ys : List β} (hlength : ys.length = xs.length)
    (h : ∀ (i : Nat) (hi : i < xs.length) (hi' : i < ys.length), f xs[i] = some ys[i]) : xs.mapM f = some ys := by
  induction xs generalizing ys with
  | nil =>
    rw [List.eq_nil_of_length_eq_zero hlength]
    rfl
  | cons x xs ih =>
    cases ys with
    | nil => exact nomatch hlength
    | cons y ys =>
      have hx := h 0 (Nat.succ_pos _) (Nat.succ_pos _)
      have hxs := ih (Nat.succ.inj hlength) fun i hi hi' => h (i + 1) (Nat.succ_lt_succ hi) (Nat.succ_lt_succ hi')
      rw [List.getElem_cons_zero, List.getElem_cons_zero] at hx
      rw [List.mapM_cons, hx, hxs]
      rfl

/-- Looking up a place in a numbered list gives what stands there. -/
theorem lookup_zip_range' {α : Type} (xs : List α) (start i : Nat) :
    ((List.range' start xs.length).zip xs).lookup (start + i) = xs[i]? := by
  induction xs generalizing start i with
  | nil => rfl
  | cons x xs ih =>
    rw [List.length_cons, List.range'_succ, List.zip_cons_cons, List.lookup_cons]
    cases i with
    | zero => rw [Nat.add_zero, beq_self_eq_true, List.getElem?_cons_zero]
    | succ i =>
      have hne : (start + (i + 1) == start) = false := by
        rw [beq_eq_false_iff_ne]
        omega
      have hnext := ih (start + 1) i
      rw [Nat.add_assoc, Nat.add_comm 1 i] at hnext
      rw [hne, List.getElem?_cons_succ]
      exact hnext

/-- A name of a field has the place of the field. -/
theorem place?_getElem {names : List String} (hnodup : names.Nodup) {i : Nat} (hi : i < names.length) :
    (text names[i]).place? names = some i := by
  obtain ⟨hlt, hat⟩ := findIdx_ofText (List.getElem_mem hi)
  have hplace : (text names[i]).place? names =
      some (names.findIdx fun n => Bytes.ofText n == Bytes.ofText names[i]) := rfl
  rw [hplace, Option.some.injEq]
  rcases Nat.lt_trichotomy (names.findIdx fun n => Bytes.ofText n == Bytes.ofText names[i]) i with h | h | h
  · exact absurd hat (List.pairwise_iff_getElem.1 hnodup _ _ hlt hi h)
  · exact h
  · exact absurd hat.symm (List.pairwise_iff_getElem.1 hnodup _ _ hi hlt h)

/-- The fields of a record are found again. -/
theorem toFields?_record {names : List String} (values : List Value) (hnodup : names.Nodup)
    (hlength : values.length = names.length) : (record (names.zip values)).toFields? names = some (values.map some) := by
  have hplaced : ((names.zip values).map fun field => (text field.1, field.2)).mapM
      (fun field => do pure (← field.1.place? names, field.2)) = some ((List.range' 0 values.length).zip values) := by
    refine mapM_eq_some (by simp [hlength]) ?_
    intro i hi hi'
    have hi₁ : i < names.length := by
      simp [hlength] at hi
      exact hi
    rw [List.getElem_map, List.getElem_zip, List.getElem_zip]
    simp only [place?_getElem hnodup hi₁]
    simp
  have hkeys : ((List.range' 0 values.length).zip values).map Prod.fst = List.range values.length := by
    rw [List.map_fst_zip (by simp), List.range_eq_range']
  have honce : ((List.range' 0 values.length).zip values).all (fun entry => names.length ≤ entry.1 ||
      (((List.range' 0 values.length).zip values).filter (·.1 == entry.1)).length == 1) = true := by
    rw [List.all_eq_true]
    intro entry hentry
    have hmem : entry.1 ∈ List.range values.length := hkeys ▸ List.mem_map_of_mem hentry
    have hcount : (((List.range' 0 values.length).zip values).filter (·.1 == entry.1)).length =
        (List.range values.length).count entry.1 := by
      rw [← List.countP_eq_length_filter, ← hkeys, List.count, List.countP_map]
      rfl
    rw [hcount, List.nodup_range.count, if_pos hmem]
    simp
  have hlookup : (List.range names.length).map (fun place => ((List.range' 0 values.length).zip values).lookup place) =
      values.map some := by
    refine List.ext_getElem (by simp [hlength]) ?_
    intro i hi hi'
    have hlt : i < values.length := by simpa using hi'
    have hat := lookup_zip_range' values 0 i
    rw [Nat.zero_add, List.getElem?_eq_getElem hlt] at hat
    rw [List.getElem_map, List.getElem_range, List.getElem_map, hat]
  have hfields : (record (names.zip values)).toFields? names =
      Option.bind (((names.zip values).map fun field => (text field.1, field.2)).mapM
        fun field => do pure (← field.1.place? names, field.2)) fun (placed : List (Nat × Value)) =>
          if placed.all fun entry => names.length ≤ entry.1 || (placed.filter (·.1 == entry.1)).length == 1 then
            some ((List.range names.length).map fun place => placed.lookup place)
          else none := rfl
  rw [hfields, hplaced, Option.bind_some, hlookup]
  exact if_pos honce

/-- The fields of an array of the right length are its items in order. -/
theorem toFields?_tuple {names : List String} (values : List Value) (hlength : values.length = names.length) :
    (tuple (names.zip values)).toFields? names = some (values.map some) := by
  have hvalues : (names.zip values).map Prod.snd = values := List.map_snd_zip (Nat.le_of_eq hlength)
  have hfields (items : List Value) : (array items).toFields? names =
      ((some items).filter fun items => items.length == names.length).map fun items => items.map some := rfl
  rw [tuple, hvalues, hfields, Option.filter_some, if_pos (beq_iff_eq.2 hlength), Option.map_some]

/-- The fields of a record are found again in either way of writing it. -/
theorem toFields?_shape {shape : List (String × Value) → Value} (hshape : IsShape shape) {names : List String}
    (values : List Value) (hnodup : names.Nodup) (hlength : values.length = names.length) :
    (shape (names.zip values)).toFields? names = some (values.map some) := by
  rcases hshape with rfl | rfl
  · exact toFields?_record values hnodup hlength
  · exact toFields?_tuple values hlength

/-! ## Typed views -/

/-- An integer is seen as itself within bounds. -/
theorem toInt?_int {low high n : Int} (h : low ≤ n ∧ n < high) : (int n).toInt? low high = some n :=
  if_pos h

/-- A signed word is seen as itself. -/
theorem toSigned?_int {n : Int} (h : Word64.IsSigned n) : (int n).toSigned? = some n :=
  toInt?_int h

/-- A natural number is seen as itself below a bound. -/
theorem toNat?_nat {bound n : Nat} (h : n < bound) : (nat n).toNat? bound = some n := by
  rw [toNat?, nat, toInt?_int ⟨Int.natCast_nonneg n, Int.ofNat_lt.2 h⟩, Option.map_some, Int.toNat_natCast]

/-- A word is seen as itself. -/
theorem toWord?_nat {n : Nat} (h : n < 0x10000000000000000) : (nat n).toWord? = some n :=
  toNat?_nat h

/-- Half a word is seen as itself. -/
theorem toHalf?_nat {n : Nat} (h : n < 0x100000000) : (nat n).toHalf? = some n :=
  toNat?_nat h

/-- What may be absent is found again, if what is there does not look absent. -/
theorem optional_ofOption {α : Type} {form : α → Value} {view : Value → Option α} {x : Option α}
    (h : ∀ y, x = some y → form y ≠ .nil ∧ view (form y) = some y) : optional view (some (ofOption form x)) = some x := by
  cases x with
  | none => rfl
  | some y =>
    obtain ⟨hne, hview⟩ := h y rfl
    have hopt : (form y).toOption? view = (view (form y)).map some := by
      unfold toOption?
      split
      · rename_i hnil
        exact absurd hnil hne
      · rfl
    rw [ofOption, optional, hopt, hview]
    rfl

end Value

end FrozenTable.Msgpack
