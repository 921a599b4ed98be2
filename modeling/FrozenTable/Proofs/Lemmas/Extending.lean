import FrozenTable.Proofs.Lemmas.Persisting

/-!
# Readers look no further than what they read

What a reader makes of an input, it makes of every longer input as well, and the additional bytes are left behind what was left
before. More levels change nothing of it either. So no proper front of a value that can be read whole is a value of its own: a
descriptor that was cut short anywhere does not decode.
-/

namespace FrozenTable

namespace Msgpack

/-- What one reader makes of an input, another one makes of every longer input, with the additional bytes left. -/
def Extends {α : Type} (read more : Bytes → Option (α × Bytes)) : Prop :=
  ∀ input item rest, read input = some (item, rest) → ∀ behind, more (input ++ behind) = some (item, rest ++ behind)

/-- What looks at no input at all is the same for any input. -/
theorem extends_done {α : Type} (x : α) : Extends (fun rest => some (x, rest)) (fun rest => some (x, rest)) := by
  intro input item rest hread behind
  cases hread
  rfl

namespace Extends

variable {α β : Type} {read more : Bytes → Option (α × Bytes)}

/-- One reader after another. -/
theorem bind (h : Extends read more) {next next' : α → Bytes → Option (β × Bytes)} (hnext : ∀ x, Extends (next x) (next' x)) :
    Extends (fun input => (read input).bind fun (x, rest) => next x rest)
      (fun input => (more input).bind fun (x, rest) => next' x rest) := by
  intro input item rest hread behind
  obtain ⟨⟨x, between⟩, hx, hitem⟩ := Option.bind_eq_some_iff.1 hread
  simp only [h input x between hx behind, Option.bind_some]
  exact hnext x between item rest hitem behind

/-- What is made of a thing that was read, if the bytes behind it are left alone. -/
theorem map (h : Extends read more) {f : α × Bytes → β × Bytes}
    (hf : ∀ x rest behind, f (x, rest ++ behind) = ((f (x, rest)).1, (f (x, rest)).2 ++ behind)) :
    Extends (fun input => (read input).map f) (fun input => (more input).map f) := by
  intro input item rest hread behind
  obtain ⟨⟨x, between⟩, hx, hitem⟩ := Option.map_eq_some_iff.1 hread
  simp only [h input x between hx behind, Option.map_some, hf, hitem]

/-- As many things as are asked for. -/
theorem readMany (h : Extends read more) (count : Nat) : Extends (readMany read count) (readMany more count) := by
  induction count with
  | zero => exact extends_done []
  | succ count ih => exact h.bind fun item => ih.bind fun items => extends_done (item :: items)

end Extends

/-- Bytes in front stay in front when there are more behind. -/
theorem extends_splitExact? (n : Nat) : Extends (Bytes.splitExact? n) (Bytes.splitExact? n) := by
  intro input front rest hsplit behind
  unfold Bytes.splitExact? at hsplit
  dsimp only at hsplit
  split at hsplit
  · rename_i hlength
    cases hsplit
    have hwhole := Bytes.splitExact?_append (input.take n) (input.drop n ++ behind)
    rw [hlength, ← List.append_assoc, List.take_append_drop] at hwhole
    exact hwhole
  · exact nomatch hsplit

/-- A number of some width is read from the same bytes. -/
theorem extends_readNat (width : Nat) : Extends (readNat width) (readNat width) :=
  (extends_splitExact? width).bind fun front => extends_done (Bytes.toNatBig front)

/-- A signed number of some width is read from the same bytes. -/
theorem extends_readInt (width : Nat) : Extends (readInt width) (readInt width) :=
  (extends_readNat width).bind fun n => extends_done (Int.bmod n (Bytes.capacity width))

/-- A marker says all by itself, or is followed by a number of some width. -/
theorem extends_readHead : Extends readHead readHead := by
  suffices hmarker : ∀ marker, Extends (fun rest => readHead (marker :: rest)) (fun rest => readHead (marker :: rest)) by
    intro input head rest hread behind
    cases input with
    | nil => exact nomatch hread
    | cons marker input => exact hmarker marker input head rest hread behind
  intro marker
  unfold readHead
  dsimp only
  split
  · exact extends_done _
  split
  · exact extends_done _
  split
  · exact extends_done _
  split
  · exact extends_done _
  split
  · exact extends_done _
  split
  case h_32 => exact fun _ _ _ h => nomatch h
  all_goals first
    | exact extends_done _
    | exact (extends_readNat _).map fun _ _ _ => rfl
    | exact (extends_readInt _).map fun _ _ _ => rfl

/-! ## Values -/

/-- The body of an extension is read from the same bytes. -/
theorem extends_readExt (length : Nat) : Extends (readExt length) (readExt length) := by
  intro input value rest hread behind
  cases input with
  | nil => cases hread
  | cons type input =>
    have hbytes : Extends (fun rest => (Bytes.splitExact? length rest).map (Prod.map (Value.ext type) id))
        (fun rest => (Bytes.splitExact? length rest).map (Prod.map (Value.ext type) id)) :=
      (extends_splitExact? length).map fun _ _ _ => rfl
    exact hbytes input value rest hread behind

/-- Entries are read from longer inputs when their keys and values are. -/
theorem Extends.readEntry {read more : Bytes → Option (Value × Bytes)} (h : Extends read more) :
    Extends (readEntry read) (readEntry more) :=
  h.bind fun key => h.bind fun value => extends_done (key, value)

/-- Where parts can be read, more of them can. -/
theorem extends_readBody {inner outer : Option (Bytes → Option (Value × Bytes))}
    (h : ∀ read, inner = some read → ∃ more, outer = some more ∧ Extends read more) (head : Head) :
    Extends (readBody inner head) (readBody outer head) := by
  have hinner {next : (Bytes → Option (Value × Bytes)) → Bytes → Option (Value × Bytes)}
      (hnext : ∀ read more, Extends read more → Extends (next read) (next more)) :
      Extends (fun rest => inner.bind fun read => next read rest) (fun rest => outer.bind fun read => next read rest) := by
    cases inner with
    | none => exact fun _ _ _ hnone => nomatch hnone
    | some read =>
      obtain ⟨more, rfl, hextends⟩ := h read rfl
      exact hnext read more hextends
  cases head with
  | scalar value => exact extends_done value
  | str length => exact (extends_splitExact? length).map fun _ _ _ => rfl
  | bin length => exact (extends_splitExact? length).map fun _ _ _ => rfl
  | ext length => exact hinner fun _ _ _ => extends_readExt length
  | array length => exact hinner fun _ _ hread => (hread.readMany length).map fun _ _ _ => rfl
  | map length => exact hinner fun _ _ hread => (hread.readEntry.readMany length).map fun _ _ _ => rfl

/-- A reader that with more levels makes the same of what it could read with fewer, and looks no further. -/
def Reader.Steady (reader : Reader) : Prop :=
  ∀ levels levels', levels ≤ levels' → Extends (reader levels) (reader levels')

/-- What reads the parts of a value that may have so many levels, if it may have parts at all. -/
def partsReader : (levels : Nat) → Option (Bytes → Option (Value × Bytes))
  | 0 => none
  | levels + 1 => some (readValue levels)

/-- A value is a head and then a body, whose parts are one level further in. -/
theorem readValue_eq (levels : Nat) (input : Bytes) :
    readValue levels input = (readHead input).bind fun (head, rest) => readBody (partsReader levels) head rest := by
  cases levels <;> rfl

/-- Values are read from longer inputs, with as many levels or more. -/
theorem steady_readValue : Reader.Steady readValue := by
  intro levels
  induction levels with
  | zero =>
    intro levels' _
    have hbody (head : Head) : Extends (readBody none head) (readBody (partsReader levels') head) :=
      extends_readBody (by rintro _ ⟨⟩) head
    rw [funext (readValue_eq levels')]
    exact extends_readHead.bind hbody
  | succ levels ih =>
    intro levels' hle
    obtain ⟨levels', rfl⟩ := Nat.exists_eq_add_one_of_ne_zero (Nat.ne_of_gt (Nat.lt_of_lt_of_le (Nat.succ_pos _) hle))
    refine extends_readHead.bind (extends_readBody ?_)
    rintro _ ⟨⟩
    exact ⟨_, rfl, ih levels' (Nat.le_of_succ_le_succ hle)⟩

end Msgpack

/-! ## Descriptors -/

namespace Descriptor

variable {κ ν : Type}

variable [HashLibrary] {finder : CodecFinder κ ν} {paths : TablePaths}

/-- What it takes for bytes to be a descriptor. Bytes that are none are invalid data. -/
theorem decode_cases (finder : CodecFinder κ ν) (paths : TablePaths) (bytes : Bytes) :
    Outcome.Invalid (decode finder paths bytes) ∨
      ∃ d, decode finder paths bytes = .ok d ∧ headerSize ≤ bytes.length ∧
        ∃ v rest, Msgpack.decodeBy reader (bytes.drop headerSize) = some (v, rest) ∧ view finder paths v = some d := by
  by_cases hlength : bytes.length < headerSize
  · exact .inl ⟨.descriptorTruncated bytes.length, by rw [decode, if_pos hlength]; rfl, rfl⟩
  by_cases hmagic : bytes.take 8 = magic
  · by_cases hversion : Bytes.toNatBig ((bytes.drop 8).take 4) = formatVersion
    · simp only [decode, if_neg hlength, hmagic, hversion, ne_eq, not_true_eq_false, if_false]
      cases hread : Msgpack.decodeBy reader (bytes.drop headerSize) with
      | none => exact .inl ⟨.descriptorUndecodable, rfl, rfl⟩
      | some found =>
        obtain ⟨v, rest⟩ := found
        dsimp only
        cases hview : view finder paths v with
        | none => exact .inl ⟨.descriptorUndecodable, rfl, rfl⟩
        | some d =>
          dsimp only
          split
          · exact .inl ⟨.offsetsUnresolved, rfl, rfl⟩
          · exact .inr ⟨d, rfl, Nat.not_lt.1 hlength, v, rest, rfl, hview⟩
    · refine .inl ⟨.badVersion (Bytes.toNatBig ((bytes.drop 8).take 4)), ?_, rfl⟩
      simp only [decode, if_neg hlength, hmagic, ne_eq, not_true_eq_false, if_false, hversion, not_false_eq_true, if_true]
      rfl
  · refine .inl ⟨.badMagic (Bytes.toNatBig (bytes.take 8)), ?_, rfl⟩
    simp only [decode, if_neg hlength, hmagic, ne_eq, not_false_eq_true, if_true]
    rfl

/-- A descriptor that was read stands where it was read, and its settings were read with it. -/
theorem parts_of_decode {d : Descriptor κ ν} {bytes : Bytes} (h : decode finder paths bytes = .ok d) :
    d.paths = paths ∧ ∃ v, Settings.view finder v = some d.settings := by
  rcases decode_cases finder paths bytes with ⟨fault, hfault, -⟩ | ⟨found, hfound, -, v, -, -, hview⟩
  · exact nomatch h.symm.trans hfault
  cases h.symm.trans hfound
  unfold view at hview
  obtain ⟨_, -, hview⟩ := Option.bind_eq_some_iff.1 hview
  split at hview
  · obtain ⟨_, -, hview⟩ := Option.bind_eq_some_iff.1 hview
    obtain ⟨_, hsettings, hview⟩ := Option.bind_eq_some_iff.1 hview
    obtain ⟨_, -, hview⟩ := Option.bind_eq_some_iff.1 hview
    obtain ⟨_, -, hview⟩ := Option.bind_eq_some_iff.1 hview
    obtain ⟨_, -, hview⟩ := Option.bind_eq_some_iff.1 hview
    obtain ⟨_, -, hview⟩ := Option.bind_eq_some_iff.1 hview
    obtain ⟨_, -, hview⟩ := Option.bind_eq_some_iff.1 hview
    obtain ⟨_, -, hview⟩ := Option.bind_eq_some_iff.1 hview
    obtain ⟨_, -, hview⟩ := Option.bind_eq_some_iff.1 hview
    cases hview
    exact ⟨rfl, _, hsettings⟩
  · exact nomatch hview

end Descriptor

end FrozenTable
