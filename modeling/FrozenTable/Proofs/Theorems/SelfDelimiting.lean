import FrozenTable.Proofs.Lemmas.Delimiting

/-!
# Items are read back and cannot be cut

Records stand back to back without marks between them, so a codec has to stop where its item ends, however the next one begins,
and has to notice when the data end too early. Both hold for all codecs of this library, lists of any depth included, as far as
MessagePack can tell the lengths inside of its forms: what is longer is written all the same, with a length that was cut.
-/

namespace FrozenTable.CodecSpec

/-- Reading undoes writing, and every codec marks where its items end.

An item is written, and from its bytes with anything behind them the item is read and exactly what stood behind is left. From a
proper front of its bytes nothing is read. The lengths of the item are those that the formats can tell: a text or a list tells
its own by a word, and a text, a list or a dictionary inside a MessagePack form by half a word. -/
theorem reading_undoes_writing {t : ItemType} (spec : CodecSpec t) {x : t.Carrier} (hmeasured : spec.Measured x) :
    ∃ bytes, spec.codec.write x = .ok bytes ∧
      (∀ rest, spec.codec.read (bytes ++ rest) = .ok (x, rest)) ∧
      ∀ front, front <+: bytes → front ≠ bytes → ∃ fault, spec.codec.read front = .error fault := by
  obtain ⟨bytes, hwrite, hread⟩ := returns hmeasured
  have hwhole : spec.codec.read bytes = .ok (x, []) := by
    rw [← List.append_nil bytes]
    exact hread []
  refine ⟨bytes, hwrite, hread, ?_⟩
  intro front hfront hne
  exact (Codec.steady_read spec).fails_on_front hwhole hfront hne

/-- A list of lists of pairs, and a list of nothings, with another item behind. -/
theorem reads_nested_lists_back :
    (∃ bytes, (list (list (packed .pair))).codec.write [[("key", [0, 300])], []] = .ok bytes ∧
      (list (list (packed .pair))).codec.read (bytes ++ [1, 2]) = .ok ([[("key", [0, 300])], []], [1, 2]) ∧
      ∃ fault, (list (list (packed .pair))).codec.read bytes.dropLast = .error fault) ∧
    ∃ bytes, (list unit).codec.write [(), ()] = .ok bytes ∧
      (list unit).codec.read (bytes ++ [0x80]) = .ok ([(), ()], [0x80]) := by
  constructor
  · have hmeasured : (list (list (packed .pair))).Measured [[("key", [0, 300])], []] := by
      have hpair : (packed .pair).Measured ("key", [0, 300]) := ⟨by decide +kernel, by decide⟩
      refine ⟨by decide, fun pairs hpairs => ?_⟩
      rcases List.mem_cons.1 hpairs with rfl | hpairs
      · refine ⟨by decide, fun pair hmem => ?_⟩
        cases List.mem_singleton.1 hmem
        exact hpair
      · cases List.mem_singleton.1 hpairs
        exact ⟨by decide, nofun⟩
    obtain ⟨bytes, hwrite, hread, hfront⟩ := reading_undoes_writing (list (list (packed .pair))) hmeasured
    refine ⟨bytes, hwrite, hread [1, 2], hfront _ (List.dropLast_prefix bytes) ?_⟩
    intro hsame
    cases hwrite
    exact absurd hsame (by decide +kernel)
  · have hmeasured : (list unit).Measured [(), ()] := ⟨by decide, fun _ _ => trivial⟩
    obtain ⟨bytes, hwrite, hread, -⟩ := reading_undoes_writing (list unit) hmeasured
    exact ⟨bytes, hwrite, hread [0x80]⟩

/-- There are texts of any length. -/
theorem exists_text (n : Nat) : ∃ x : String, x.utf8ByteSize = n := by
  induction n with
  | zero => exact ⟨"", rfl⟩
  | succ n ih =>
    obtain ⟨x, rfl⟩ := ih
    exact ⟨x.push 'a', String.utf8ByteSize_push⟩

/-- A text of 2^32 bytes inside a MessagePack form is lost: its length is cut to half a word, which is nothing, so that an empty
text is read and all its bytes are left. -/
theorem loses_text_of_half_word : ∃ (x : String) (bytes : Bytes), x.utf8ByteSize = 0x100000000 ∧
    (packed .text).codec.write x = .ok bytes ∧ (packed .text).codec.read bytes = .ok ("", Bytes.ofText x) ∧ x ≠ "" := by
  obtain ⟨x, hx⟩ := exists_text 0x100000000
  have hform : Msgpack.encode (PlainType.form .text x) = [0xDB, 0, 0, 0, 0] ++ Bytes.ofText x := by
    have hlength : (Bytes.ofText x).length = 0x100000000 := (Bytes.length_ofText x).trans hx
    rw [PlainType.form, Msgpack.Value.text, Msgpack.encode, hlength]
    rfl
  have hdecode : Msgpack.decode ([0xDB, 0, 0, 0, 0] ++ Bytes.ofText x) = some (.str [], Bytes.ofText x) := rfl
  refine ⟨x, _, hx, rfl, ?_, ?_⟩
  · simp only [codec, Codec.packed, List.flatten_singleton, hform, hdecode]
    rfl
  · rintro rfl
    cases hx

end FrozenTable.CodecSpec
