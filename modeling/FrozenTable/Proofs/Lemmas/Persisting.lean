import FrozenTable.Descriptor.Image
import FrozenTable.Proofs.Lemmas.Offsets
import FrozenTable.Proofs.Lemmas.Records

/-!
# A descriptor is read back as it was written

Each part of a descriptor is found again in its MessagePack form, and so is the descriptor as a whole. `Descriptor.Readable`
says what that takes: its form must be one that MessagePack can hold, and what comes from outside of a descriptor, its codecs
and the function of its hash, must be found again by whoever reads it.
-/

namespace FrozenTable

open Msgpack

/-! ## Parts -/

/-- The parts of a line make the line. -/
theorem AffineSize.view_eq {v slope constant : Value} {e : AffineSize}
    (hfields : v.toFields? ["slope", "constant"] = some [some slope, some constant]) (hslope : slope.toSigned? = some e.slope)
    (hconstant : constant.toSigned? = some e.constant) : view v = some e := by
  rw [view, hfields]
  simp only [bind, Option.bind, hslope, hconstant]
  rfl

/-- A line of signed words is seen as itself. -/
theorem AffineSize.view_form {e : AffineSize} (hslope : Word64.IsSigned e.slope) (hconstant : Word64.IsSigned e.constant) :
    view e.form = some e :=
  view_eq (Value.toFields?_record [.int e.slope, .int e.constant] (by decide) rfl) (Value.toSigned?_int hslope)
    (Value.toSigned?_int hconstant)

/-- Words are seen as themselves. -/
theorem wordsView_wordsForm (words : Array UInt64) : wordsView (wordsForm words) = some words := by
  have hitems : (words.toList.map fun w => Value.nat w.toNat).mapM (fun item => item.toWord?.map UInt64.ofNat) =
      some words.toList := by
    refine Value.mapM_eq_some (by rw [List.length_map]) ?_
    intro i hi hi'
    rw [List.getElem_map, Value.toWord?_nat (UInt64.toNat_lt _), Option.map_some, UInt64.ofNat_toNat]
  have hview (items : List Value) : wordsView (.array items) =
      Option.bind (items.mapM fun item => item.toWord?.map UInt64.ofNat) fun words => some words.toArray := rfl
  rw [wordsForm, hview, hitems, Option.bind_some, Array.toArray_toList]

/-- The parts of a packed array make the array. -/
theorem PackedArray.view_eq {v width length words : Value} {a : PackedArray}
    (hfields : v.toFields? ["width", "len", "words"] = some [some width, some length, some words])
    (hwidth : width.toHalf? = some a.width) (hlength : length.toWord? = some a.length)
    (hwords : wordsView words = some a.words) : view v = some a := by
  rw [view, hfields]
  simp only [bind, Option.bind, hwidth, hlength, hwords]
  rfl

/-- A packed array is seen as itself in both shapes of a record. -/
theorem PackedArray.view_fields {shape : List (String × Value) → Value} (hshape : IsShape shape) {a : PackedArray}
    (hwidth : a.width < 0x100000000) (hlength : a.length < 0x10000000000000000) : view (shape a.fields) = some a :=
  view_eq (Value.toFields?_shape hshape [.nat a.width, .nat a.length, wordsForm a.words] (by decide) rfl)
    (Value.toHalf?_nat hwidth) (Value.toWord?_nat hlength) (wordsView_wordsForm a.words)

namespace SelectIndex

/-- An index as a MessagePack value, `shape` being the way in which records are written. -/
def formBy (shape : List (String × Value) → Value) (s : SelectIndex) : Value :=
  shape [("num_bits", .nat s.numBits), ("words", wordsForm s.block.words)]

/-- A MessagePack value that tells a number of bits and words. -/
def IsImage (v : Value) (numBits : Nat) (words : Array UInt64) : Prop :=
  ∃ first second, v.toFields? ["num_bits", "words"] = some [some first, some second] ∧ first.toWord? = some numBits ∧
    wordsView second = some words

/-- The form of an index is its record by names. -/
theorem formBy_record (s : SelectIndex) : s.formBy .record = s.form := rfl

/-- An index has an image in both shapes of a record. -/
theorem isImage_formBy {shape : List (String × Value) → Value} (hshape : IsShape shape) {s : SelectIndex}
    (hbits : s.numBits < 0x10000000000000000) : IsImage (s.formBy shape) s.numBits s.block.words :=
  ⟨_, _, Value.toFields?_shape hshape [.nat s.numBits, wordsForm s.block.words] (by decide) rfl, Value.toWord?_nat hbits,
    wordsView_wordsForm _⟩

/-- An image is accepted exactly when its words can hold its bits; the directory of the index is made anew. -/
theorem view_of_isImage {v : Value} {numBits : Nat} {words : Array UInt64} (h : IsImage v numBits words) :
    view v = if numBits ≤ 64 * words.size then some (ofBlock (.owned words) numBits) else none := by
  have hwords : wordsFor numBits ≤ words.size ↔ numBits ≤ 64 * words.size := by
    unfold wordsFor
    omega
  obtain ⟨first, second, hfields, hfirst, hsecond⟩ := h
  rw [view, hfields]
  simp only [bind, Option.bind, hfirst, hsecond, hwords]
  rfl

/-- An index that owns its words is seen as itself, as long as these hold its bits. -/
theorem view_form {words : Array UInt64} {bits : Nat} (hbits : bits < 0x10000000000000000)
    (hwords : wordsFor bits ≤ words.size) : view (ofBlock (.owned words) bits).form = some (ofBlock (.owned words) bits) := by
  have hheld := wordsFor_mul bits
  have himage : IsImage ((ofBlock (.owned words) bits).formBy .record) bits words := isImage_formBy (.inl rfl) hbits
  rw [← formBy_record, view_of_isImage himage, if_pos (by omega)]

end SelectIndex

/-- The bytes of a key that is kept are read back. -/
theorem Descriptor.optional_keyForm (key : Option Bytes) :
    Value.optional Value.toByteList? (some (keyForm key)) = some key := by
  refine Value.optional_ofOption fun bytes _ => ⟨nofun, ?_⟩
  have hitems : (bytes.map fun b => Value.nat b.toNat).mapM (fun item => (item.toNat? 256).map UInt8.ofNat) =
      some bytes := by
    refine Value.mapM_eq_some (by rw [List.length_map]) ?_
    intro i hi hi'
    rw [List.getElem_map, Value.toNat?_nat (UInt8.toNat_lt _), Option.map_some, UInt8.ofNat_toNat]
  exact hitems

/-! ## Perfect hashes -/

/-- A perfect hash whose function is there when there are buckets and is found again by its bytes. -/
structure PerfectHash.Loadable [HashLibrary] (h : PerfectHash) : Prop where
  function_eq_none : h.function = none ↔ h.length = 0
  functionBytes_length : h.functionBytes.length = h.functionSize
  load_eq : ∀ f, h.function = some f → HashLibrary.load f.bytes = some f

/-- The parts of a hash make the hash. -/
theorem PerfectHash.view_eq [HashLibrary] {v length function signatures : Value} {h : PerfectHash} (hload : h.Loadable)
    (hfields : v.toFields? ["len", "function", "signatures"] = some [some length, some function, some signatures])
    (hlength : length.toWord? = some h.length) (hfunction : function.toBytes? = some h.functionBytes)
    (hsignatures : PackedArray.view signatures = some h.signatures) : view v = some h := by
  rw [view, hfields]
  simp only [bind, Option.bind, hlength, hfunction, hsignatures]
  rw [hload.functionBytes_length]
  cases hf : h.function with
  | none =>
    rw [if_pos (hload.function_eq_none.1 hf)]
    cases h
    cases hf
    rfl
  | some f =>
    have hne : h.length ≠ 0 := fun hzero => nomatch hf.symm.trans (hload.function_eq_none.2 hzero)
    have hbytes : h.functionBytes = f.bytes := by rw [functionBytes, hf, Option.map_some, Option.getD_some]
    rw [if_neg hne, hbytes, hload.load_eq f hf]
    cases h
    cases hf
    rfl

/-- A hash whose function is found again is seen as itself. -/
theorem PerfectHash.view_form [HashLibrary] {shape : List (String × Value) → Value} (hshape : IsShape shape) {h : PerfectHash}
    (hload : h.Loadable) (hlength : h.length < 0x10000000000000000) (hwidth : h.signatures.width < 0x100000000)
    (hcount : h.signatures.length < 0x10000000000000000) : view (h.form shape) = some h :=
  view_eq hload
    (Value.toFields?_shape hshape [.nat h.length, .bin h.functionBytes, shape h.signatures.fields] (by decide) rfl)
    (Value.toWord?_nat hlength) rfl (PackedArray.view_fields hshape hwidth hcount)

/-! ## Settings -/

/-- A choice is found again by its name, where no two choices have the same one. -/
theorem Value.toChoice?_nameIn {α : Type} [DecidableEq α] {names : List (String × α)} (hnodup : (names.map (·.1)).Nodup)
    {x : α} (hx : x ∈ names.map (·.2)) : (Value.text (nameIn names x)).toChoice? names = some x := by
  obtain ⟨entry, hentry, hchoice⟩ := List.mem_map.1 hx
  cases hfind : names.find? fun entry => decide (entry.2 = x) with
  | none => exact absurd (decide_eq_true hchoice) (List.find?_eq_none.1 hfind entry hentry)
  | some found =>
    have hfound := List.find?_some hfind
    obtain ⟨i, hi, rfl⟩ := List.mem_iff_getElem.1 (List.mem_of_find?_eq_some hfind)
    have hplace := Value.place?_getElem hnodup (i := i) (by rw [List.length_map]; exact hi)
    rw [List.getElem_map] at hplace
    have hread : (Value.text names[i].1).toChoice? names =
        (Value.text names[i].1).place? (names.map (·.1)) >>= fun place => names[place]?.map (·.2) := rfl
    rw [nameIn, hfind, hread, hplace, Option.bind_eq_bind, Option.bind_some, List.getElem?_eq_getElem hi, Option.map_some,
      of_decide_eq_true hfound]

/-- A reader of tables finds the codecs of some settings by their forms, none of which looks absent. -/
structure CodecFinder.Knows {κ ν : Type} (finder : CodecFinder κ ν) (s : Settings κ ν) : Prop where
  key : ∀ codec, s.keyCodec = some codec → codec.form ≠ .nil ∧ finder.key codec.form = some codec
  value : ∀ codec, s.valueCodec = some codec → codec.form ≠ .nil ∧ finder.value codec.form = some codec

/-- The forms of the codecs of some settings are ones that MessagePack can hold inside of a descriptor. -/
structure Settings.Held {κ ν : Type} (s : Settings κ ν) : Prop where
  key : ∀ codec, s.keyCodec = some codec → codec.form.Regular 1021
  value : ∀ codec, s.valueCodec = some codec → codec.form.Regular 1021

namespace Settings

variable {κ ν : Type}

/-- Settings whose numbers fit their types. -/
structure Bounded (s : Settings κ ν) : Prop where
  signatureWidth : s.signatureWidth < 0x100000000
  maxHeap : s.maxHeap < 0x10000000000000000
  maxDataHeap : s.maxDataHeap < 0x10000000000000000
  shardSize : s.shardSize < 0x10000000000000000
  slope : Word64.IsSigned s.entryLine.slope
  constant : Word64.IsSigned s.entryLine.constant

/-- The parts of settings make the settings. -/
theorem view_eq {finder : CodecFinder κ ν} {s : Settings κ ν} {v : Value} {keyCodec valueCodec : Option Value}
    {validation keyStorage offsetStorage rangeChecking signatureWidth maxHeap maxDataHeap shardSize describeDuplicates
      entryLine : Value}
    (hfields : v.toFields? fieldNames = some [keyCodec, valueCodec, some validation, some keyStorage, some offsetStorage,
      some rangeChecking, some signatureWidth, some maxHeap, some maxDataHeap, some shardSize, some describeDuplicates,
      some entryLine])
    (hkeyCodec : Value.optional finder.key keyCodec = some s.keyCodec)
    (hvalueCodec : Value.optional finder.value valueCodec = some s.valueCodec)
    (hvalidation : validation.toChoice? KeyValidation.names = some s.validation)
    (hkeyStorage : keyStorage.toChoice? KeyStorage.names = some s.keyStorage)
    (hoffsetStorage : offsetStorage.toChoice? OffsetStorage.names = some s.offsetStorage)
    (hrangeChecking : rangeChecking.toChoice? RangeChecking.names = some s.rangeChecking)
    (hsignatureWidth : signatureWidth.toHalf? = some s.signatureWidth) (hmaxHeap : maxHeap.toWord? = some s.maxHeap)
    (hmaxDataHeap : maxDataHeap.toWord? = some s.maxDataHeap) (hshardSize : shardSize.toWord? = some s.shardSize)
    (hdescribeDuplicates : describeDuplicates.toBool? = some s.describeDuplicates)
    (hentryLine : AffineSize.view entryLine = some s.entryLine) : view finder v = some s := by
  rw [view, hfields]
  simp only [bind, Option.bind, hkeyCodec, hvalueCodec, hvalidation, hkeyStorage, hoffsetStorage, hrangeChecking,
    hsignatureWidth, hmaxHeap, hmaxDataHeap, hshardSize, hdescribeDuplicates, hentryLine]
  rfl

/-- Settings are seen as themselves by a reader that knows their codecs. -/
theorem view_form {finder : CodecFinder κ ν} {s : Settings κ ν} (hknown : finder.Knows s) (hbounded : s.Bounded) :
    view finder s.form = some s :=
  view_eq (Value.toFields?_record _ (by decide) rfl) (Value.optional_ofOption hknown.key)
    (Value.optional_ofOption hknown.value) (Value.toChoice?_nameIn (by decide) (by cases s.validation <;> decide))
    (Value.toChoice?_nameIn (by decide) (by cases s.keyStorage <;> decide))
    (Value.toChoice?_nameIn (by decide) (by cases s.offsetStorage <;> decide))
    (Value.toChoice?_nameIn (by decide) (by cases s.rangeChecking <;> decide)) (Value.toHalf?_nat hbounded.signatureWidth)
    (Value.toWord?_nat hbounded.maxHeap) (Value.toWord?_nat hbounded.maxDataHeap) (Value.toWord?_nat hbounded.shardSize) rfl
    (AffineSize.view_form hbounded.slope hbounded.constant)

/-- The choices among settings are written as texts and read as choices, all other fields are read like any value. -/
theorem reads_form {levels : Nat} {s : Settings κ ν} (h : s.form.Regular (levels + 1)) : Reads reader (levels + 1) s.form := by
  refine reads_record_zip h ?_
  intro field hfield hregular
  by_cases hchoice : choiceNames.contains field.1
  · have htext : ∃ name, field.2 = .text name := by
      clear hregular
      revert field
      simp only [fieldNames, List.zip_cons_cons, List.zip_nil_left, List.forall_mem_cons, List.not_mem_nil, false_imp_iff,
        implies_true, and_true]
      have habsent {name : String} {value : Value} (hname : choiceNames.contains name = false) :
          choiceNames.contains name = true → ∃ text, value = .text text :=
        fun hcontains => nomatch hcontains.symm.trans hname
      exact ⟨habsent (by decide), habsent (by decide), fun _ => ⟨_, rfl⟩, fun _ => ⟨_, rfl⟩, fun _ => ⟨_, rfl⟩,
        fun _ => ⟨_, rfl⟩, habsent (by decide), habsent (by decide), habsent (by decide), habsent (by decide),
        habsent (by decide), habsent (by decide)⟩
    obtain ⟨name, hname⟩ := htext
    rw [if_pos hchoice, hname]
    rw [hname, Value.text, Value.Regular] at hregular
    exact reads_readChoice hregular
  · rw [if_neg hchoice]
    exact reads_readValue hregular

end Settings

/-! ## Descriptors -/

namespace Descriptor

variable {κ ν : Type}

/-- A descriptor that a reader of its table can make sense of. -/
structure Readable [HashLibrary] (finder : CodecFinder κ ν) (d : Descriptor κ ν) : Prop where
  version_eq : d.version = formatVersion
  /-- MessagePack has a form for each number and each length in the descriptor. -/
  regular : d.form.Regular maxLevels
  known : finder.Knows d.settings
  bounded : d.settings.Bounded
  hash : d.hash.Loadable
  width_lt : d.hash.signatures.width < 0x100000000
  offsetWidth_lt : d.offsetWidth < 0x100000000
  select : ∀ select, d.select = some select →
    ∃ words bits, select = .ofBlock (.owned words) bits ∧ wordsFor bits ≤ words.size
  resolved : d.settings.offsetStorage ≠ .automatic

/-- The form of a descriptor is read back field by field. -/
theorem reads_form {levels : Nat} {d : Descriptor κ ν} (h : d.form.Regular (levels + 2)) :
    Reads reader (levels + 2) d.form := by
  refine reads_record_zip h ?_
  intro field hfield hregular
  by_cases hconfig : field.1 = "config"
  · have hsettings : field.2 = d.settings.form := by
      revert field
      simp [fieldNames]
    rw [if_pos (beq_iff_eq.2 hconfig), hsettings]
    exact Settings.reads_form (hsettings ▸ hregular)
  · rw [if_neg fun h => hconfig (beq_iff_eq.1 h)]
    exact reads_readValue hregular

/-- The parts of a descriptor make the descriptor. -/
theorem view_eq [HashLibrary] {finder : CodecFinder κ ν} {d : Descriptor κ ν} {v : Value}
    {version settings hash dataSize offsetWidth timestamp : Value} {select minKey maxKey : Option Value}
    (hfields : v.toFields? fieldNames = some [some version, some settings, some hash, select, some dataSize, some offsetWidth,
      some timestamp, minKey, maxKey])
    (hversion : version.toHalf? = some d.version) (hsettings : Settings.view finder settings = some d.settings)
    (hhash : PerfectHash.view hash = some d.hash) (hselect : Value.optional SelectIndex.view select = some d.select)
    (hdataSize : dataSize.toWord? = some d.dataSize) (hoffsetWidth : offsetWidth.toHalf? = some d.offsetWidth)
    (htimestamp : timestamp.toWord? = some d.timestamp) (hminKey : Value.optional Value.toByteList? minKey = some d.minKey)
    (hmaxKey : Value.optional Value.toByteList? maxKey = some d.maxKey) : view finder d.paths v = some d := by
  rw [view, hfields]
  simp only [bind, Option.bind, hversion, hsettings, hhash, hselect, hdataSize, hoffsetWidth, htimestamp, hminKey, hmaxKey]
  rfl

/-- A regular number is a 64-bit word. -/
theorem lt_of_regular_nat {levels n : Nat} (h : (Value.nat n).Regular levels) : n < 0x10000000000000000 := by
  rw [Value.nat, Value.Regular] at h
  exact Int.ofNat_lt.1 h.2

/-- A descriptor that can be read is seen as itself. -/
theorem view_form [HashLibrary] {finder : CodecFinder κ ν} {d : Descriptor κ ν} (h : d.Readable finder) :
    view finder d.paths d.form = some d := by
  have hfields := (regular_record.1 h.regular).2
  have hhash := (hfields ("mph", d.hash.form .record) (by simp [fieldNames])).2
  have hselect := (hfields ("select", .ofOption SelectIndex.form d.select) (by simp [fieldNames])).2
  have hdataSize := (hfields ("data_size", .nat d.dataSize) (by simp [fieldNames])).2
  have htimestamp := (hfields ("timestamp", .nat d.timestamp) (by simp [fieldNames])).2
  have hparts := (regular_record.1 hhash).2
  have hlength := (hparts ("len", .nat d.hash.length) (by simp)).2
  have hsignatures := (hparts ("signatures", .record d.hash.signatures.fields) (by simp)).2
  have hcount := ((regular_record.1 hsignatures).2 ("len", .nat d.hash.signatures.length) (by simp [PackedArray.fields])).2
  have hversion : d.version < 0x100000000 := by rw [h.version_eq]; decide
  refine view_eq (Value.toFields?_record _ (by decide) rfl) (Value.toHalf?_nat hversion) (Settings.view_form h.known h.bounded)
    (PerfectHash.view_form (.inl rfl) h.hash (lt_of_regular_nat hlength) h.width_lt (lt_of_regular_nat hcount)) ?_
    (Value.toWord?_nat (lt_of_regular_nat hdataSize)) (Value.toHalf?_nat h.offsetWidth_lt)
    (Value.toWord?_nat (lt_of_regular_nat htimestamp)) (optional_keyForm d.minKey) (optional_keyForm d.maxKey)
  refine Value.optional_ofOption fun select hsome => ⟨nofun, ?_⟩
  obtain ⟨words, bits, rfl, hwords⟩ := h.select select hsome
  rw [hsome] at hselect
  have hbits := ((regular_record.1 hselect).2 ("num_bits", .nat bits) (by simp [SelectIndex.ofBlock])).2
  exact SelectIndex.view_form (lt_of_regular_nat hbits) hwords

/-- Bytes that start with the letters and the version and go on with the value of a descriptor are the descriptor's. -/
theorem decode_eq [HashLibrary] {finder : CodecFinder κ ν} {d : Descriptor κ ν} {bytes rest : Bytes} {v : Value}
    (hlength : headerSize ≤ bytes.length) (hmagic : bytes.take 8 = magic)
    (hversion : Bytes.toNatBig ((bytes.drop 8).take 4) = formatVersion)
    (hread : decodeBy reader (bytes.drop headerSize) = some (v, rest)) (hview : view finder d.paths v = some d)
    (hresolved : d.settings.offsetStorage ≠ .automatic) : decode finder d.paths bytes = .ok d := by
  simp only [decode, if_neg (Nat.not_lt.2 hlength), hmagic, hversion, hread, hview, if_neg hresolved, ne_eq,
    not_true_eq_false, if_false]
  rfl

/-- Reading a descriptor file gives back the descriptor that was written to it. -/
theorem decode_encode [HashLibrary] {finder : CodecFinder κ ν} {d : Descriptor κ ν} (h : d.Readable finder) :
    decode finder d.paths d.encode = .ok d := by
  have hmagic : magic.length = 8 := by decide
  have hversion : (Bytes.bigEndian 4 d.version).length = 4 := Bytes.length_bigEndian 4 _
  have hheader : (magic ++ Bytes.bigEndian 4 d.version).length = headerSize := by
    rw [List.length_append, hmagic, hversion]
    rfl
  have hread : decodeBy reader (Msgpack.encode d.form) = some (d.form, []) := by
    have hform := reads_form h.regular []
    rwa [List.append_nil] at hform
  have hlong : headerSize ≤ d.encode.length := by
    rw [encode, List.length_append, hheader]
    exact Nat.le_add_right _ _
  have htake : d.encode.take 8 = magic := by rw [encode, List.append_assoc, List.take_left' hmagic]
  have hnumber : Bytes.toNatBig ((d.encode.drop 8).take 4) = formatVersion := by
    rw [encode, List.append_assoc, List.drop_left' hmagic, List.take_left' hversion, Bytes.toNatBig_bigEndian, h.version_eq]
    rfl
  have hdrop : d.encode.drop headerSize = Msgpack.encode d.form := by rw [encode, List.drop_left' hheader]
  exact decode_eq hlong htake hnumber (hdrop ▸ hread) (view_form h) h.resolved

end Descriptor

/-! ## Descriptors that MessagePack can hold -/

/-- A line of signed words can be told. -/
theorem AffineSize.regular_form {levels : Nat} {e : AffineSize} (hslope : Word64.IsSigned e.slope)
    (hconstant : Word64.IsSigned e.constant) : e.form.Regular (levels + 1) := by
  have hint : ∀ n, Word64.IsSigned n → (Value.int n).Regular levels := by
    intro n hn
    rw [Value.Regular]
    exact ⟨hn.1, Int.lt_trans hn.2 (by decide)⟩
  rw [form, regular_record]
  refine ⟨(by decide : 2 < 0x100000000), ?_⟩
  simp only [List.forall_mem_cons, List.not_mem_nil, false_imp_iff, implies_true, and_true]
  exact ⟨⟨by decide, hint _ hslope⟩, by decide, hint _ hconstant⟩

/-- Words can be told, as far as half a word tells how many they are. -/
theorem regular_wordsForm {levels : Nat} {words : Array UInt64} (h : words.size < 0x100000000) :
    (wordsForm words).Regular (levels + 1) := by
  refine regular_array (by rw [List.length_map]; exact h) ?_
  intro item hitem
  obtain ⟨w, -, rfl⟩ := List.mem_map.1 hitem
  exact regular_nat w.toNat_lt

/-- Settings can be told when their codecs can and their numbers are words. -/
theorem Settings.regular_form {κ ν : Type} {levels : Nat} {s : Settings κ ν} (hbounded : s.Bounded)
    (hkey : ∀ codec, s.keyCodec = some codec → codec.form.Regular (levels + 1))
    (hvalue : ∀ codec, s.valueCodec = some codec → codec.form.Regular (levels + 1)) : s.form.Regular (levels + 2) := by
  have hchoices : (Value.text s.validation.name).Regular (levels + 1) ∧ (Value.text s.keyStorage.name).Regular (levels + 1) ∧
      (Value.text s.offsetStorage.name).Regular (levels + 1) ∧ (Value.text s.rangeChecking.name).Regular (levels + 1) := by
    refine ⟨regular_text ?_, regular_text ?_, regular_text ?_, regular_text ?_⟩
    · cases s.validation <;> decide
    · cases s.keyStorage <;> decide
    · cases s.offsetStorage <;> decide
    · cases s.rangeChecking <;> decide
  obtain ⟨hvalidation, hkeyStorage, hoffsetStorage, hrangeChecking⟩ := hchoices
  have hbool : (Value.bool s.describeDuplicates).Regular (levels + 1) := by
    rw [Value.Regular]
    trivial
  rw [form, regular_record]
  refine ⟨(by decide : 12 < 0x100000000), ?_⟩
  simp only [fieldNames, List.zip_cons_cons, List.zip_nil_right, List.forall_mem_cons, List.not_mem_nil, false_imp_iff,
    implies_true, and_true]
  refine ⟨⟨by decide, regular_ofOption hkey⟩, ⟨by decide, regular_ofOption hvalue⟩, ⟨by decide, hvalidation⟩,
    ⟨by decide, hkeyStorage⟩, ⟨by decide, hoffsetStorage⟩, ⟨by decide, hrangeChecking⟩, ⟨by decide, regular_nat ?_⟩,
    ⟨by decide, regular_nat hbounded.maxHeap⟩, ⟨by decide, regular_nat hbounded.maxDataHeap⟩,
    ⟨by decide, regular_nat hbounded.shardSize⟩, ⟨by decide, hbool⟩, by decide,
    AffineSize.regular_form hbounded.slope hbounded.constant⟩
  exact Nat.lt_trans hbounded.signatureWidth (by decide)

namespace Settings

variable {κ ν : Type}

/-- Persisted settings are read back with the line that was persisted, be it that of their codecs or another one. -/
theorem decode_encode {finder : CodecFinder κ ν} {s : Settings κ ν} (hknown : finder.Knows s) (hbounded : s.Bounded)
    (hregular : s.form.Regular maxLevels) : decode finder s.encode = some s := by
  have hread : Msgpack.decodeBy reader s.encode = some (s.form, []) := by
    have hform := reads_form hregular []
    rwa [List.append_nil] at hform
  rw [decode, hread]
  exact view_form hknown hbounded

/-- Settings stay within bounds with any line of signed words. -/
theorem Bounded.lined {s : Settings κ ν} (h : s.Bounded) {line : AffineSize} (hslope : Word64.IsSigned line.slope)
    (hconstant : Word64.IsSigned line.constant) : Bounded { s with entryLine := line } :=
  ⟨h.signatureWidth, h.maxHeap, h.maxDataHeap, h.shardSize, hslope, hconstant⟩

/-- Where offsets are not fixed any line of signed words passes: settings are read back with it, and with no more flaws. -/
theorem decode_lined {finder : CodecFinder κ ν} {s : Settings κ ν} (hknown : finder.Knows s) (hbounded : s.Bounded)
    (hkey : ∀ codec, s.keyCodec = some codec → codec.form.Regular 1022)
    (hvalue : ∀ codec, s.valueCodec = some codec → codec.form.Regular 1022) (hstorage : s.offsetStorage ≠ .fixed)
    (line : AffineSize) (hslope : Word64.IsSigned line.slope) (hconstant : Word64.IsSigned line.constant) :
    decode finder (encode { s with entryLine := line }) = some { s with entryLine := line } ∧
      validate { s with entryLine := line } = s.validate := by
  have hbounded := hbounded.lined hslope hconstant
  refine ⟨decode_encode ⟨hknown.key, hknown.value⟩ hbounded (regular_form hbounded hkey hvalue), ?_⟩
  simp only [validate, flaw, hstorage, false_and, if_false]

end Settings

/-- A hash can be told when half a word tells the lengths of its parts. -/
theorem PerfectHash.regular_form {shape : List (String × Value) → Value} (hshape : IsShape shape) {levels : Nat}
    {h : PerfectHash} (hlength : h.length < 0x10000000000000000) (hfunction : h.functionBytes.length < 0x100000000)
    (hwidth : h.signatures.width < 0x10000000000000000) (hcount : h.signatures.length < 0x10000000000000000)
    (hwords : h.signatures.words.size < 0x100000000) : (h.form shape).Regular (levels + 3) := by
  have hbytes : (Value.bin h.functionBytes).Regular (levels + 2) := by
    rw [Value.Regular]
    exact hfunction
  have hsignatures : (shape h.signatures.fields).Regular (levels + 2) := by
    refine regular_shape hshape (by decide : 3 < 0x100000000) ?_
    simp only [PackedArray.fields, List.forall_mem_cons, List.not_mem_nil, false_imp_iff, implies_true, and_true]
    exact ⟨⟨by decide, regular_nat hwidth⟩, ⟨by decide, regular_nat hcount⟩, by decide, regular_wordsForm hwords⟩
  refine regular_shape hshape (by decide : 3 < 0x100000000) ?_
  simp only [List.forall_mem_cons, List.not_mem_nil, false_imp_iff, implies_true, and_true]
  exact ⟨⟨by decide, regular_nat hlength⟩, ⟨by decide, hbytes⟩, by decide, hsignatures⟩

/-- An index can be told, as far as half a word tells how many words it has. -/
theorem SelectIndex.regular_formBy {shape : List (String × Value) → Value} (hshape : IsShape shape) {levels : Nat}
    {s : SelectIndex} (hbits : s.numBits < 0x10000000000000000) (hwords : s.block.words.size < 0x100000000) :
    (s.formBy shape).Regular (levels + 2) := by
  refine regular_shape hshape (by decide : 2 < 0x100000000) ?_
  simp only [List.forall_mem_cons, List.not_mem_nil, false_imp_iff, implies_true, and_true]
  exact ⟨⟨by decide, regular_nat hbits⟩, by decide, regular_wordsForm hwords⟩

/-- A key of the range can be told, as far as half a word tells its length. -/
theorem Descriptor.regular_keyForm {levels : Nat} {key : Option Bytes}
    (h : ∀ bytes, key = some bytes → bytes.length < 0x100000000) : (keyForm key).Regular (levels + 1) := by
  refine regular_ofOption ?_
  intro bytes hbytes
  refine regular_array (by rw [List.length_map]; exact h bytes hbytes) ?_
  intro item hitem
  obtain ⟨b, -, rfl⟩ := List.mem_map.1 hitem
  exact regular_nat (Nat.lt_trans b.toNat_lt (by decide))

/-- A descriptor has a form if its parts have one, its numbers are words, and no sequence in it has 2^32 parts. -/
theorem Descriptor.regular_form {κ ν : Type} {levels : Nat} {d : Descriptor κ ν}
    (hversion : d.version < 0x10000000000000000) (hsettings : d.settings.form.Regular (levels + 3))
    (hhash : (d.hash.form .record).Regular (levels + 3))
    (hselect : ∀ select, d.select = some select → select.form.Regular (levels + 3))
    (hdataSize : d.dataSize < 0x10000000000000000) (hoffsetWidth : d.offsetWidth < 0x10000000000000000)
    (htimestamp : d.timestamp < 0x10000000000000000)
    (hminKey : ∀ bytes, d.minKey = some bytes → bytes.length < 0x100000000)
    (hmaxKey : ∀ bytes, d.maxKey = some bytes → bytes.length < 0x100000000) : d.form.Regular (levels + 4) := by
  rw [form, regular_record]
  refine ⟨(by decide : 9 < 0x100000000), ?_⟩
  simp only [fieldNames, List.zip_cons_cons, List.zip_nil_right, List.forall_mem_cons, List.not_mem_nil, false_imp_iff,
    implies_true, and_true]
  exact ⟨⟨by decide, regular_nat hversion⟩, ⟨by decide, hsettings⟩, ⟨by decide, hhash⟩, ⟨by decide, regular_ofOption hselect⟩,
    ⟨by decide, regular_nat hdataSize⟩, ⟨by decide, regular_nat hoffsetWidth⟩, ⟨by decide, regular_nat htimestamp⟩,
    ⟨by decide, regular_keyForm hminKey⟩, by decide, regular_keyForm hmaxKey⟩

end FrozenTable
