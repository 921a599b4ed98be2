import FrozenTable.Proofs.Lemmas.Fitting

/-!
# The codecs of this library tell the sizes they write

`Varint.size` is a closed form, while `Varint.encode` takes one group after the other; both count the same groups. From it
every codec of this library, lists of lists included, writes each of its items and takes as many bytes for it as it tells. So
do settings that were made by changes with such codecs, and the line that they keep is the line of those codecs.
-/

namespace FrozenTable

/-- A text has as many bytes as its encoding. -/
theorem Bytes.length_ofText (text : String) : (ofText text).length = text.utf8ByteSize := by
  simp [ofText]

/-! ## Groups of seven bits -/

namespace Varint

/-- Setting the lowest bit of a number that is not zero leaves its highest bit where it is. -/
theorem log2_lowest {n : Nat} (h : n ≠ 0) : Nat.log2 (n ||| 1) = Nat.log2 n := by
  have hpos : n ||| 1 ≠ 0 := by simp
  rw [Nat.log2_eq_iff hpos]
  refine ⟨Nat.le_trans (Nat.log2_self_le h) Nat.left_le_or, Nat.or_lt_two_pow Nat.lt_log2_self ?_⟩
  exact Nat.one_lt_two_pow (Nat.succ_ne_zero _)

/-- A group fewer is seven bits fewer. -/
theorem log2_group {n : Nat} (h : 128 ≤ n) : Nat.log2 n = Nat.log2 (n / 128) + 7 := by
  have hhigh : n / 128 ≠ 0 := by omega
  have hlow := Nat.log2_self_le hhigh
  have hless := Nat.lt_log2_self (n := n / 128)
  rw [Nat.log2_eq_iff (by omega)]
  simp only [Nat.pow_succ] at hless ⊢
  omega

/-- A number below 128 takes one byte. -/
theorem size_of_lt {n : Nat} (h : n < 128) : size n = 1 := by
  have hbits : n ||| 1 < 2 ^ 7 := Nat.or_lt_two_pow h (by decide)
  have hlog : Nat.log2 (n ||| 1) < 7 := (Nat.log2_lt (by simp)).2 hbits
  rw [size, Nat.div_eq_of_lt hlog]

/-- Seven more bits take one more byte. -/
theorem size_of_ge {n : Nat} (h : 128 ≤ n) : size n = size (n / 128) + 1 := by
  have hhigh : n / 128 ≠ 0 := by omega
  rw [size, size, log2_lowest (by omega), log2_lowest hhigh, log2_group h, Nat.add_div_right _ (by decide)]

/-- A number takes as many bytes as its size says. -/
theorem length_encode (n : Nat) : (encode n).length = size n := by
  induction n using Nat.strongRecOn with
  | ind n ih =>
    rw [encode]
    by_cases hsmall : n < 128
    · simp [hsmall, size_of_lt hsmall]
    · have hless : n / 128 < n := by omega
      simp [hsmall, ih _ hless, size_of_ge (Nat.not_lt.1 hsmall)]

end Varint

/-! ## Codecs -/

namespace Codec

variable {α : Type} {c : Codec α}

/-- The codecs of this library. Of a codec that is said to have its sizes on a line nothing is known, so `declaring` is not
among them. -/
inductive Provided : {α : Type} → Codec α → Prop where
  | unit : Provided unit
  | long : Provided long
  | varLong : Provided varLong
  | string : Provided string
  | list {α : Type} {element : Codec α} (h : Provided element) : Provided element.list
  | packed {α : Type} (form : α → Msgpack.Value) (view : Msgpack.Value → Option α) (typeName : String) :
    Provided (packed form view typeName)

/-- The pieces of items that can all be written, and the bytes they take together. -/
theorem exists_allPieces (htotal : c.Total) (hexact : c.Exact) (xs : List α) :
    ∃ pieces, allPieces c.pieces xs = .ok pieces ∧ sumSizes c.sizeOf xs = .ok pieces.flatten.length := by
  induction xs with
  | nil => exact ⟨[], rfl, rfl⟩
  | cons x xs ih =>
    obtain ⟨bytes, hbytes⟩ := htotal x
    have hsize := hexact.sizeOf_eq x bytes hbytes
    obtain ⟨front, hfront, hflat⟩ := Outcome.bind_eq_ok.1 hbytes
    cases hflat
    obtain ⟨back, hback, hsizes⟩ := ih
    refine ⟨front ++ back, ?_, ?_⟩
    · rw [allPieces, hfront, hback]
      rfl
    · rw [sumSizes, hsize, hsizes, List.flatten_append, List.length_append]
      rfl

/-- A codec without a line tells the truth about sizes when it does so about single items. -/
theorem exact_of_sizes (hline : c.sizeLine = none) (hsize : ∀ x bytes, c.write x = .ok bytes → c.sizeOf x = .ok bytes.length) :
    c.Exact := by
  refine ⟨hsize, ?_, ?_⟩
  · intro line h
    exact nomatch hline.symm.trans h
  · intro line h
    exact nomatch hline.symm.trans h

/-- A codec whose items all take the same number of bytes. -/
theorem exact_of_always (size : Nat) (hline : c.sizeLine = some (.always size)) (hsizeOf : ∀ x, c.sizeOf x = .ok size)
    (hsize : ∀ x bytes, c.write x = .ok bytes → bytes.length = size) : c.Exact := by
  refine ⟨?_, ?_, ?_⟩
  · intro x bytes h
    rw [hsizeOf, hsize x bytes h]
  · intro line h
    cases hline.symm.trans h
    exact AffineSize.rises_always size
  · intro line h x bytes hbytes
    cases hline.symm.trans h
    rw [hsize x bytes hbytes, AffineSize.fits_always]

/-- Signed words have the size that their codec tells. -/
theorem exact_long : long.Exact := by
  refine exact_of_always 8 rfl (fun _ => rfl) ?_
  rintro x bytes h
  cases h
  simp [longBytes, Bytes.length_littleEndian]

namespace Provided

/-- Every item can be written, in as many bytes as the codec tells. -/
theorem total_exact (h : c.Provided) : c.Total ∧ c.Exact := by
  induction h with
  | unit =>
    refine ⟨fun x => ⟨[], rfl⟩, exact_of_always 0 rfl (fun _ => rfl) ?_⟩
    rintro x bytes h
    cases h
    rfl
  | long => exact ⟨fun x => ⟨_, rfl⟩, exact_long⟩
  | varLong =>
    refine ⟨fun x => ⟨_, rfl⟩, exact_of_sizes rfl ?_⟩
    rintro x bytes h
    cases h
    simp [Codec.varLong, Varint.length_encode]
  | string =>
    refine ⟨fun x => ⟨_, rfl⟩, exact_of_sizes rfl ?_⟩
    rintro x bytes h
    cases h
    simp [Codec.string, Varint.length_encode, Bytes.length_ofText]
  | @list α element h ih =>
    obtain ⟨htotal, hexact⟩ := ih
    have hwrite (xs : List α) : ∃ bytes, element.list.write xs = .ok bytes ∧ element.list.sizeOf xs = .ok bytes.length := by
      obtain ⟨pieces, hpieces, hsizes⟩ := exists_allPieces htotal hexact xs
      refine ⟨(Varint.encode xs.length :: pieces).flatten, ?_, ?_⟩
      · simp only [write, Codec.list, hpieces]
        rfl
      · simp only [Codec.list, hsizes, List.flatten_cons, List.length_append, Varint.length_encode]
        rfl
    refine ⟨fun xs => ?_, exact_of_sizes rfl ?_⟩
    · obtain ⟨bytes, hbytes, -⟩ := hwrite xs
      exact ⟨bytes, hbytes⟩
    · intro xs bytes hbytes
      obtain ⟨bytes', hbytes', hsize⟩ := hwrite xs
      cases hbytes.symm.trans hbytes'
      exact hsize
  | packed form view typeName =>
    refine ⟨fun x => ⟨_, rfl⟩, exact_of_sizes rfl ?_⟩
    rintro x bytes h
    cases h
    simp [Codec.packed]

end Provided

end Codec

/-! ## Settings -/

namespace Settings

variable {κ ν : Type} {s : Settings κ ν}

/-- A change by which settings get no codec but those of this library. -/
def Change.Provided : Change κ ν → Prop
  | .keyCodec codec => codec.Provided
  | .valueCodec codec => codec.Provided
  | _ => True

/-- The codecs of settings are of this library. -/
structure Provided (s : Settings κ ν) : Prop where
  key : ∀ codec, s.keyCodec = some codec → codec.Provided
  value : ∀ codec, s.valueCodec = some codec → codec.Provided

/-- Changes to codecs of this library keep settings so. -/
theorem provided_change (h : s.Provided) {change : Change κ ν} (hchange : change.Provided) : (s.change change).Provided := by
  cases change with
  | keyCodec codec =>
    refine ⟨?_, h.value⟩
    rintro _ ⟨⟩
    exact hchange
  | valueCodec codec =>
    refine ⟨h.key, ?_⟩
    rintro _ ⟨⟩
    exact hchange
  | validation | keyStorage | offsetStorage | rangeChecking | signatureWidth | maxHeap | maxDataHeap | shardSize
    | describeDuplicates => exact ⟨h.key, h.value⟩

/-- Settings that were made by changes have no codecs but those of the changes. -/
theorem provided_changed {changes : List (Change κ ν)} (h : ∀ change ∈ changes, change.Provided) :
    (initial.changed changes).Provided := by
  refine List.foldlRecOn changes change ⟨nofun, nofun⟩ ?_
  intro s hs change hchange
  exact provided_change hs (h change hchange)

namespace Provided

/-- What codecs of this library say about sizes is true. -/
theorem exact (h : s.Provided) : s.Exact :=
  ⟨fun codec hcodec => (h.key codec hcodec).total_exact.2, fun codec hcodec => (h.value codec hcodec).total_exact.2⟩

/-- Every value can be written. -/
theorem exists_valuePart (h : s.Provided) (value : Option ν) : ∃ bytes, s.valuePart value = .ok bytes := by
  unfold valuePart
  rcases hcodec : s.valueCodec with _ | codec
  · exact ⟨[], rfl⟩
  · rcases value with _ | item
    · exact ⟨[], rfl⟩
    · exact (h.value codec hcodec).total_exact.1 item

/-- A key that is stored can be written when there is a codec for it. -/
theorem exists_keyPart (h : s.Provided) (hcodec : s.storesKeys = true → s.keyCodec.isSome = true) (key : κ) :
    ∃ bytes, s.keyPart key = .ok bytes := by
  unfold keyPart
  by_cases hstores : s.storesKeys = true
  · obtain ⟨codec, hsome⟩ := Option.isSome_iff_exists.1 (hcodec hstores)
    obtain ⟨bytes, hbytes⟩ := (h.key codec hsome).total_exact.1 key
    exact ⟨bytes, by simp only [hstores, if_true, keyBytes, needKeyCodec, hsome, Outcome.ok_bind, hbytes]⟩
  · exact ⟨[], by simp [hstores]⟩

/-- Every entry can be written, if there is a codec for its key where keys are stored. -/
theorem exists_record (h : s.Provided) (hcodec : s.storesKeys = true → s.keyCodec.isSome = true) (entry : Entry κ ν) :
    ∃ record, s.record entry = .ok record := by
  obtain ⟨front, hfront⟩ := h.exists_keyPart hcodec entry.key
  obtain ⟨back, hback⟩ := h.exists_valuePart entry.value
  exact ⟨front ++ back, by rw [record_eq, hfront, Outcome.ok_bind, hback]; rfl⟩

/-- What is told of the size of a record is the size of its bytes, and fails where they do. -/
theorem recordSize_eq_map (h : s.Provided) (entry : Entry κ ν) : s.recordSize entry = (s.record entry).map List.length := by
  by_cases hcodec : s.storesKeys = true → s.keyCodec.isSome = true
  · obtain ⟨record, hrecord⟩ := h.exists_record hcodec entry
    rw [hrecord, h.exact.recordSize_eq_ok hrecord]
    rfl
  · simp only [Classical.not_imp, Bool.not_eq_true, Option.isSome_eq_false_iff, Option.isNone_iff_eq_none] at hcodec
    obtain ⟨hstores, hnone⟩ := hcodec
    rw [recordSize_eq, record_eq, keySize, keyPart, if_pos hstores, if_pos hstores, keyBytes, needKeyCodec, hnone]
    rfl

end Provided

end Settings

end FrozenTable
