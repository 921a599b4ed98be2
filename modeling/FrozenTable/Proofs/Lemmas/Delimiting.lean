import FrozenTable.Codec.Spec
import FrozenTable.Proofs.Lemmas.Extending
import FrozenTable.Proofs.Lemmas.Supporting
import FrozenTable.Proofs.Lemmas.Viewing

/-!
# Codecs mark where their items end

A reader is steady when what it makes of an input it makes of every longer one, with the additional bytes left. A steady reader
that reads back what was written cannot read a front of it: what it made of the front it would make of the whole as well, with
bytes left over. All codecs of this library have steady readers, and read back every item whose lengths can be told.
-/

namespace FrozenTable

/-! ## Steady readers -/

namespace Codec

variable {α β : Type}

/-- What a reader makes of an input, it makes of every longer input, with the additional bytes left. -/
def Steady (read : Bytes → Except Fault (α × Bytes)) : Prop :=
  ∀ input x rest, read input = .ok (x, rest) → ∀ behind, read (input ++ behind) = .ok (x, rest ++ behind)

/-- What reads nothing is steady. -/
theorem steady_pure (x : α) : Steady fun rest => .ok (x, rest) := by
  rintro input _ rest ⟨⟩ behind
  rfl

/-- What always fails is steady. -/
theorem steady_error (fault : Fault) : Steady (α := α) fun _ => .error fault := by
  rintro input x rest ⟨⟩

namespace Steady

variable {read : Bytes → Except Fault (α × Bytes)}

/-- One reader after another. -/
theorem bind (h : Steady read) {next : α → Bytes → Except Fault (β × Bytes)} (hnext : ∀ x, Steady (next x)) :
    Steady fun input => read input >>= fun (x, rest) => next x rest := by
  intro input y rest hread behind
  obtain ⟨⟨x, between⟩, hx, hy⟩ := Outcome.bind_eq_ok.1 hread
  simp only [h input x between hx behind, Outcome.ok_bind]
  exact hnext x between y rest hy behind

/-- As many items as are asked for. -/
theorem readMany (h : Steady read) (count : Nat) : Steady (readMany read count) := by
  induction count with
  | zero => exact steady_pure []
  | succ count ih => exact h.bind fun item => ih.bind fun items => steady_pure (item :: items)

/-- Of what a steady reader reads to the end it can read no front. -/
theorem fails_on_front (h : Steady read) {bytes front : Bytes} {x : α} (hread : read bytes = .ok (x, []))
    (hfront : front <+: bytes) (hne : front ≠ bytes) : ∃ fault, read front = .error fault := by
  rcases hresult : read front with fault | ⟨y, rest⟩
  · exact ⟨fault, rfl⟩
  · obtain ⟨behind, rfl⟩ := hfront
    have hwhole := h front y rest hresult behind
    rw [hread, Except.ok.injEq, Prod.mk.injEq] at hwhole
    have hnone : behind = [] := (List.append_eq_nil_iff.1 hwhole.2.symm).2
    exact absurd (by simp [hnone]) hne

end Steady

/-- The groups of a varint end where their last one does. -/
theorem steady_decodeGroups (groups : Nat) : Steady (Varint.decodeGroups groups) := by
  induction groups with
  | zero => exact steady_error _
  | succ groups ih =>
    intro input n rest hread behind
    cases input with
    | nil => exact nomatch hread
    | cons b input =>
      rw [List.cons_append]
      unfold Varint.decodeGroups at hread ⊢
      by_cases hlast : b < 128
      · rw [if_pos hlast] at hread ⊢
        cases hread
        rfl
      · rw [if_neg hlast] at hread ⊢
        exact (ih.bind fun high => steady_pure (b.toNat % 128 + 128 * high)) input n rest hread behind

/-- Varints mark where they end. -/
theorem steady_decode : Steady Varint.decode :=
  (steady_decodeGroups 10).bind fun n => steady_pure (n % 0x10000000000000000)

/-- Eight bytes are eight bytes, whatever follows. -/
theorem steady_readLong : Steady readLong := by
  intro input x rest hread behind
  unfold readLong at hread ⊢
  rcases hsplit : Bytes.splitExact? 8 input with _ | ⟨front, between⟩
  · simp [hsplit] at hread
  · have hwhole := Msgpack.extends_splitExact? 8 input front between hsplit behind
    simp only [hsplit] at hread
    cases hread
    simp [hwhole]

/-- Texts mark where they end by their lengths. -/
theorem steady_string : Steady string.read := by
  intro input text rest hread behind
  obtain ⟨⟨length, between⟩, hlength, hread⟩ := Outcome.bind_eq_ok.1 hread
  have hlength := steady_decode input length between hlength behind
  dsimp only at hread
  rcases hsplit : Bytes.splitExact? length between with _ | ⟨bytes, tail⟩
  · simp [hsplit] at hread
  · simp only [hsplit] at hread
    obtain ⟨text, htext, hpure⟩ := Outcome.bind_eq_ok.1 hread
    cases hpure
    have hwhole := Msgpack.extends_splitExact? length between bytes rest hsplit behind
    simp only [string, hlength, Outcome.ok_bind, hwhole, htext]
    rfl

/-- MessagePack forms mark where they end. -/
theorem steady_packed (form : α → Msgpack.Value) (view : Msgpack.Value → Option α) (typeName : String) :
    Steady (packed form view typeName).read := by
  intro input x rest hread behind
  unfold packed at hread ⊢
  rcases hdecode : Msgpack.decode input with _ | ⟨value, between⟩
  · simp [hdecode] at hread
  · have hwhole := Msgpack.steady_readValue _ _ (Nat.le_refl _) input value between hdecode behind
    rcases hview : view value with _ | y
    · simp [hdecode, hview] at hread
    · simp only [hdecode, hview] at hread
      cases hread
      simp [Msgpack.decode, hwhole, hview]

/-- The readers of this library are steady. -/
theorem steady_read {t : ItemType} (spec : CodecSpec t) : Steady spec.codec.read := by
  induction spec with
  | unit => exact steady_pure ()
  | long => exact steady_readLong
  | varLong => exact steady_decode.bind fun n => steady_pure (Int64.ofInt (Varint.unzigzag n))
  | string => exact steady_string
  | list element ih => exact steady_decode.bind ih.readMany
  | packed type => exact steady_packed _ _ _
  | declaring spec line ih => exact ih

end Codec

/-! ## Round trips -/

namespace Codec

variable {α : Type}

/-- An item that is written, and read back whatever stands behind it. -/
def Returns (c : Codec α) (x : α) : Prop :=
  ∃ bytes, c.write x = .ok bytes ∧ ∀ rest, c.read (bytes ++ rest) = .ok (x, rest)

/-- Every signed varint is read back. -/
theorem returns_varLong (x : Int64) : varLong.Returns x := by
  refine ⟨_, rfl, fun rest => ?_⟩
  have hdecode := Varint.decode_encode _ rest (Varint.zigzag_lt (Word64.isSigned_toInt x))
  simp only [varLong, List.flatten_singleton, hdecode, Outcome.ok_bind, Varint.unzigzag_zigzag, Int64.ofInt_toInt]
  rfl

/-- A text is read back as far as a word tells its length. -/
theorem returns_string {x : String} (h : x.utf8ByteSize < 0x10000000000000000) : string.Returns x := by
  refine ⟨_, rfl, fun rest => ?_⟩
  have hsplit : Bytes.splitExact? x.utf8ByteSize (Bytes.ofText x ++ rest) = some (Bytes.ofText x, rest) := by
    rw [← Bytes.length_ofText]
    exact Bytes.splitExact?_append _ _
  have htext : textOf (Bytes.ofText x) = .ok x := by rw [textOf, Utf8.decode?_ofText]
  simp only [string, List.flatten_cons, List.flatten_nil, List.append_nil, List.append_assoc,
    Varint.decode_encode _ _ h, Outcome.ok_bind, hsplit, htext]
  rfl

/-- The elements of a list are written one after the other, and read back so. -/
theorem exists_elements {c : Codec α} {xs : List α} (h : ∀ x ∈ xs, c.Returns x) :
    ∃ pieces, allPieces c.pieces xs = .ok pieces ∧
      ∀ rest, readMany c.read xs.length (pieces.flatten ++ rest) = .ok (xs, rest) := by
  induction xs with
  | nil => exact ⟨[], rfl, fun rest => rfl⟩
  | cons x xs ih =>
    obtain ⟨bytes, hbytes, hread⟩ := h x List.mem_cons_self
    obtain ⟨back, hback, hrest⟩ := ih fun y hy => h y (List.mem_cons_of_mem _ hy)
    obtain ⟨front, hfront, hflat⟩ := Outcome.bind_eq_ok.1 hbytes
    cases hflat
    refine ⟨front ++ back, ?_, fun rest => ?_⟩
    · rw [allPieces, hfront, hback]
      rfl
    · rw [List.flatten_append, List.append_assoc, List.length_cons, readMany, hread, Outcome.ok_bind]
      dsimp only
      rw [hrest]
      rfl

/-- A list is read back when its items are, as far as a word tells how many there are. -/
theorem returns_list {c : Codec α} {xs : List α} (hlength : xs.length < 0x10000000000000000) (h : ∀ x ∈ xs, c.Returns x) :
    c.list.Returns xs := by
  obtain ⟨pieces, hpieces, hread⟩ := exists_elements h
  refine ⟨(Varint.encode xs.length :: pieces).flatten, ?_, fun rest => ?_⟩
  · rw [write, list]
    simp only [hpieces]
    rfl
  · simp only [list, List.flatten_cons, List.append_assoc, Varint.decode_encode _ _ hlength, Outcome.ok_bind, hread]

/-- What has a regular form that it is found again in is read back. -/
theorem returns_packed {form : α → Msgpack.Value} {view : Msgpack.Value → Option α} {typeName : String} {x : α}
    (hregular : (form x).Regular Msgpack.maxLevels) (hview : view (form x) = some x) :
    (packed form view typeName).Returns x := by
  refine ⟨_, rfl, fun rest => ?_⟩
  simp only [packed, List.flatten_singleton, Msgpack.decode, Msgpack.readValue_encode _ _ rest hregular, hview]

end Codec

namespace CodecSpec

/-- An item whose lengths the codec can tell: those of texts and lists by words, those inside a MessagePack form by halves of
words. -/
def Measured : {t : ItemType} → CodecSpec t → t.Carrier → Prop
  | _, unit, _ => True
  | _, long, _ => True
  | _, varLong, _ => True
  | _, string, (x : String) => x.utf8ByteSize < 0x10000000000000000
  | _, list (t := t) element, (xs : List t.Carrier) => xs.length < 0x10000000000000000 ∧ ∀ x ∈ xs, element.Measured x
  | _, packed type, x => type.Measured x
  | _, declaring codec _, x => codec.Measured x

/-- The codecs of this library read back what they have written. -/
theorem returns {t : ItemType} {spec : CodecSpec t} {x : t.Carrier} (h : spec.Measured x) : spec.codec.Returns x := by
  induction spec with
  | unit => exact ⟨[], rfl, fun rest => rfl⟩
  | long => exact ⟨_, rfl, fun rest => Codec.faithful_long x _ rest rfl⟩
  | varLong => exact Codec.returns_varLong x
  | string => exact Codec.returns_string h
  | list element ih => exact Codec.returns_list h.1 fun y hy => ih (h.2 y hy)
  | packed type => exact Codec.returns_packed (type.regular_form h) (type.view_form x)
  | declaring spec line ih => exact ih h

end CodecSpec

end FrozenTable
