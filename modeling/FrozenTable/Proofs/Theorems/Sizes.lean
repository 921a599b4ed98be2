import FrozenTable.Proofs.Lemmas.Sizing

/-!
# Sizes are told as they are written

The planning of a table goes by the sizes that codecs tell, and its offsets by the line that records are said to lie on, while
its data are what codecs write. For the codecs of this library the two agree for every item, and so they do for records under
every way of changing the settings: with keys stored or dropped, with values or without.
-/

namespace FrozenTable.Settings

/-- What is told of sizes is what is written.

A variable-length integer takes as many bytes as its size. Each codec of this library writes every item, in as many bytes as it
tells, and the line it declares, if any, has that size. With such codecs the size told for a record is that of its bytes, which
fail to be written only where the key is stored and no codec for it was set, and it is on the line that the settings keep, if
the entry has a value where the settings ask for one. -/
theorem sizes_are_those_written :
    (∀ n, Varint.size n = (Varint.encode n).length) ∧
    (∀ {α : Type} {c : Codec α}, c.Provided → ∀ x, ∃ bytes, c.write x = .ok bytes ∧ c.sizeOf x = .ok bytes.length ∧
      ∀ line, c.sizeLine = some line → line.fits bytes.length = true) ∧
    ∀ {κ ν : Type} {s : Settings κ ν} {changes : List (Change κ ν)}, s = initial.changed changes →
      (∀ change ∈ changes, change.Provided) →
      ∀ entry : Entry κ ν, (s.hasValues = true → entry.value.isSome = true) →
        s.recordSize entry = (s.record entry).map List.length ∧
        ((s.storesKeys = true → s.keyCodec.isSome = true) → ∃ record, s.record entry = .ok record) ∧
        ∀ record, s.record entry = .ok record → s.entryLine.fits record.length = true := by
  refine ⟨fun n => (Varint.length_encode n).symm, ?_, ?_⟩
  · intro α c hprovided x
    obtain ⟨htotal, hexact⟩ := hprovided.total_exact
    obtain ⟨bytes, hbytes⟩ := htotal x
    exact ⟨bytes, hbytes, hexact.sizeOf_eq x bytes hbytes, fun line hline => hexact.fits line hline x bytes hbytes⟩
  · rintro κ ν s changes rfl hchanges entry hvalue
    have hprovided : (initial.changed changes).Provided := provided_changed hchanges
    refine ⟨hprovided.recordSize_eq_map entry, fun hcodec => hprovided.exists_record hcodec entry, ?_⟩
    intro record hrecord
    have hneed : (initial.changed changes).needValue entry = .ok () := by
      refine if_neg ?_
      rintro ⟨hvalues, hnone⟩
      have hsome := hvalue hvalues
      simp [Option.isNone_iff_eq_none.1 hnone] at hsome
    rw [entryLine_changed]
    exact hprovided.exact.fits_record hneed hrecord

/-- Lists of lists of integers, and records of texts that keep no key. -/
theorem sizes_of_nested_lists :
    (∃ bytes, Codec.varLong.list.list.write [[-1, 64], []] = .ok bytes ∧
      Codec.varLong.list.list.sizeOf [[-1, 64], []] = .ok bytes.length ∧ bytes.length = 6) ∧
    ∃ record, (initial.changed [.keyCodec .string, .valueCodec Codec.long.list, .keyStorage .implicit]).record
        ⟨"key", some [1, 2]⟩ = .ok record ∧
      (initial.changed [.keyCodec .string, .valueCodec Codec.long.list, .keyStorage .implicit]).entryLine.fits
        record.length = true := by
  obtain ⟨hvarint, hcodec, hrecord⟩ := sizes_are_those_written
  constructor
  · obtain ⟨bytes, hbytes, hsize, -⟩ := hcodec (.list (.list .varLong)) [[-1, 64], []]
    cases hbytes
    exact ⟨_, rfl, hsize, by decide +kernel⟩
  · have hprovided : ∀ change ∈ [Change.keyCodec .string, .valueCodec Codec.long.list, .keyStorage .implicit],
        change.Provided := by
      simp only [List.forall_mem_cons]
      exact ⟨.string, .list .long, trivial, nofun⟩
    obtain ⟨-, hexists, hfits⟩ := hrecord rfl hprovided ⟨"key", some [1, 2]⟩ fun _ => rfl
    obtain ⟨record, hrecord⟩ := hexists nofun
    exact ⟨record, hrecord, hfits record hrecord⟩

end FrozenTable.Settings
