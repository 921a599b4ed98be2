import FrozenTable.Proofs.Lemmas.Lookups
import FrozenTable.Resident.Image

/-!
# Images are read from what they say about themselves

An image is a header and three sections. The header alone decides whether an image is refused for its size, and where the
sections end. What stands in the last section is told by the descriptor: plain offsets, the words of selected ones, or nothing.
A table that is put together from the sections of another one holds the same bytes in other places, so it reads the same
records, and its own sections are these again.
-/

namespace FrozenTable

variable {κ ν : Type}

/-! ## Bytes in other places -/

namespace Region

variable {r r' : Region}

/-- Reads depend on the bytes alone, wherever they are. -/
theorem from?_congr (h : r.bytes = r'.bytes) (offset : Nat) : r.from? offset = r'.from? offset := by
  rw [from?_eq, from?_eq, h]

/-- A region of bytes is as large as they are many. -/
theorem size_ofBytes (bytes : Bytes) : (ofBytes bytes).size = bytes.length :=
  size_eq _

/-- Numbers are read from the bytes of a region alone, wherever these are kept. -/
theorem readNat_congr (h : r.bytes = r'.bytes) (offset width : Nat) : r.readNat offset width = r'.readNat offset width := by
  have hsize : r.size = r'.size := by rw [size_eq, size_eq, h]
  rw [readNat, readNat, slice?, slice?, hsize, from?_congr h]

end Region

/-- Indices of the same words, wherever these are. -/
structure SelectIndex.Alike (s s' : SelectIndex) : Prop where
  words : s.block.words = s'.block.words
  ranks : s.ranks = s'.ranks

/-- Indexes of the same words are alike. -/
theorem SelectIndex.alike_ofBlock {block block' : WordBlock} (h : block.words = block'.words) (numBits : Nat) :
    (ofBlock block numBits).Alike (ofBlock block' numBits) :=
  ⟨h, by rw [ofBlock, ofBlock, h]⟩

/-- Indexes that are alike find the same bits. -/
theorem SelectIndex.Alike.select_eq {s s' : SelectIndex} (h : s.Alike s') (rank : Nat) : s.select rank = s'.select rank := by
  obtain ⟨numBits, ⟨words, viewed⟩, ranks⟩ := s
  obtain ⟨numBits', ⟨words', viewed'⟩, ranks'⟩ := s'
  obtain ⟨hwords, hranks⟩ := h
  cases hwords
  cases hranks
  rfl

/-- Storages with the same bytes of data and of offsets, and the same words of selected ones. -/
structure Storage.Alike (s s' : Storage) : Prop where
  data : s.data.bytes = s'.data.bytes
  offsets : Option.Rel (fun r r' => r.bytes = r'.bytes) s.offsets s'.offsets
  select : Option.Rel SelectIndex.Alike s.select s'.select

namespace Storage.Alike

variable {s s' : Storage}

/-- Storages that are alike have the same offsets section. -/
theorem offsetsBytes_eq (h : s.Alike s') : Table.offsetsBytes s = Table.offsetsBytes s' := by
  obtain ⟨data, offsets, select⟩ := s
  obtain ⟨data', offsets', select'⟩ := s'
  obtain ⟨-, hoffsets, hselect⟩ := h
  dsimp only at hoffsets hselect
  cases hoffsets with
  | some hbytes => exact hbytes
  | none =>
    cases hselect with
    | some halike => exact congrArg wordsBytes halike.words
    | none => rfl

/-- Each bucket has the same offset in both. -/
theorem offsetOf_eq (h : s.Alike s') (d : Descriptor κ ν) (bucket : Nat) :
    d.offsetOf bucket s.offsets s.select = d.offsetOf bucket s'.offsets s'.select := by
  obtain ⟨data, offsets, select⟩ := s
  obtain ⟨data', offsets', select'⟩ := s'
  obtain ⟨-, hoffsets, hselect⟩ := h
  dsimp only at hoffsets hselect ⊢
  unfold Descriptor.offsetOf
  cases d.settings.offsetStorage with
  | automatic | fixed => rfl
  | indexed =>
    cases hoffsets with
    | some hbytes => simp only [Region.readNat_congr hbytes]
    | none => rfl
  | selected =>
    cases hselect with
    | some halike => simp only [Option.some_or, halike.select_eq]
    | none => rfl

end Storage.Alike

/-- A descriptor with other paths. -/
def Descriptor.moved (d : Descriptor κ ν) (paths : TablePaths) : Descriptor κ ν :=
  { d with paths }

/-- Where the files of a table are is not written into its descriptor. -/
theorem Descriptor.form_moved (d : Descriptor κ ν) (paths : TablePaths) : (d.moved paths).form = d.form := rfl

/-- Where the files are is not written into a descriptor. -/
theorem Descriptor.encode_moved (d : Descriptor κ ν) (paths : TablePaths) : (d.moved paths).encode = d.encode := rfl

/-- Where the files are does not matter for reading a descriptor. -/
theorem Descriptor.Readable.moved [HashLibrary] {finder : CodecFinder κ ν} {d : Descriptor κ ν} (h : d.Readable finder)
    (paths : TablePaths) : (d.moved paths).Readable finder where
  version_eq := h.version_eq
  regular := by
    rw [form_moved]
    exact h.regular
  known := h.known
  bounded := h.bounded
  hash := h.hash
  width_lt := h.width_lt
  offsetWidth_lt := h.offsetWidth_lt
  select := h.select
  resolved := h.resolved

/-- Reading a descriptor gives it back with the paths that it was read from. -/
theorem Descriptor.Readable.decode_eq [HashLibrary] {finder : CodecFinder κ ν} {d : Descriptor κ ν} (h : d.Readable finder)
    (paths : TablePaths) : decode finder paths d.encode = .ok (d.moved paths) := by
  have hdecode := decode_encode (h.moved paths)
  rw [encode_moved] at hdecode
  exact hdecode

/-- What is seen of a file that was opened is what would be read of it. -/
theorem FileStore.read_of_openFile {store : FileStore} {path : Path} {heap : Bool} {r : Region}
    (h : Region.openFile store path heap = .ok r) : store.read path = .ok r.bytes := by
  obtain ⟨⟨place, node⟩, hresolve, h⟩ := Outcome.bind_eq_ok.1 h
  cases node with
  | directory => exact nomatch h
  | file bytes locked =>
    cases h
    rw [FileStore.read, hresolve]
    rfl

namespace Table

/-! ## Putting tables together -/

/-- What it takes for a table to be put together from a descriptor and bytes. -/
theorem assemble_eq_ok [DecidableEq κ] {d : Descriptor κ ν} {data : Region} {offsets : Option Region} {t : Table κ ν} :
    assemble d data offsets none = .ok t ↔ data.size = d.dataSize ∧ ∃ o s range, arrangeOffsets d offsets = .ok (o, s) ∧
      d.keyRange = .ok range ∧ t = fresh d ⟨data, o, s⟩ range := by
  unfold assemble
  by_cases hsize : data.size = d.dataSize
  · rw [if_neg (not_not_intro hsize)]
    constructor
    · intro h
      obtain ⟨⟨o, s⟩, harrange, h⟩ := Outcome.bind_eq_ok.1 h
      obtain ⟨range, hrange, h⟩ := Outcome.bind_eq_ok.1 h
      cases h
      exact ⟨hsize, o, s, range, harrange, hrange, rfl⟩
    · rintro ⟨-, o, s, range, harrange, hrange, rfl⟩
      simp only [harrange, hrange, Outcome.ok_bind]
      rfl
  · rw [if_pos hsize]
    constructor
    · rintro ⟨⟩
    · intro h
      exact absurd h.1 hsize

/-- A table keeps the descriptor and the bytes that it is put together from, and has counted nothing yet. -/
theorem parts_of_assemble [DecidableEq κ] {d : Descriptor κ ν} {data : Region} {offsets : Option Region}
    {acceptance : Option (Acceptance κ ν)} {t : Table κ ν} (h : assemble d data offsets acceptance = .ok t) :
    t.descriptor = d ∧ t.tally = .zero ∧
      ∃ o s, arrangeOffsets d offsets = .ok (o, s) ∧ t.storage = some ⟨data, o, s⟩ := by
  unfold assemble at h
  by_cases hsize : data.size = d.dataSize
  · rw [if_neg (not_not_intro hsize)] at h
    obtain ⟨⟨o, s⟩, harrange, h⟩ := Outcome.bind_eq_ok.1 h
    obtain ⟨_, -, h⟩ := Outcome.bind_eq_ok.1 h
    cases h
    exact ⟨rfl, rfl, o, s, harrange, rfl⟩
  · rw [if_pos hsize] at h
    exact nomatch h

/-- However a table is opened, it is put together from the descriptor that was read, and from the offsets file where the
descriptor asks for one. -/
theorem exists_offsets_of_openAt [HashLibrary] [DecidableEq κ] {finder : CodecFinder κ ν} {store : FileStore} {path : Path}
    {options : OpenOptions κ ν} {t : Table κ ν} (h : openAt finder store path options = .ok t) :
    ∃ d data offsets, Descriptor.load finder store path options.offsets options.data = .ok d ∧
      offsets.isSome = d.needsOffsetsFile ∧ (∀ region ∈ offsets, store.read d.paths.offsets = .ok region.bytes) ∧
      assemble d data offsets options.acceptance = .ok t := by
  obtain ⟨d, hload, h⟩ := Outcome.bind_eq_ok.1 h
  dsimp only at h
  split at h
  · rename_i hneeds
    obtain ⟨_, -, h⟩ := Outcome.bind_eq_ok.1 h
    obtain ⟨region, hregion, h⟩ := Outcome.bind_eq_ok.1 h
    rw [pure_bind] at h
    obtain ⟨_, -, h⟩ := Outcome.bind_eq_ok.1 h
    obtain ⟨data, -, h⟩ := Outcome.bind_eq_ok.1 h
    refine ⟨d, data, some region, hload, hneeds.symm, ?_, h⟩
    rintro _ ⟨⟩
    exact FileStore.read_of_openFile (Outcome.mapError_eq_ok.1 hregion)
  · rename_i hneeds
    rw [pure_bind] at h
    obtain ⟨_, -, h⟩ := Outcome.bind_eq_ok.1 h
    obtain ⟨data, -, h⟩ := Outcome.bind_eq_ok.1 h
    exact ⟨d, data, none, hload, (Bool.eq_false_of_not_eq_true hneeds).symm, nofun, h⟩

/-- However a table is opened, it is put together from the descriptor that was read. -/
theorem exists_assemble_of_openAt [HashLibrary] [DecidableEq κ] {finder : CodecFinder κ ν} {store : FileStore} {path : Path}
    {options : OpenOptions κ ν} {t : Table κ ν} (h : openAt finder store path options = .ok t) :
    ∃ d data offsets, Descriptor.load finder store path options.offsets options.data = .ok d ∧
      assemble d data offsets options.acceptance = .ok t := by
  obtain ⟨d, data, offsets, hload, -, -, hassemble⟩ := exists_offsets_of_openAt h
  exact ⟨d, data, offsets, hload, hassemble⟩

/-- Offsets of the same bytes are arranged alike, or fail for the same fault. -/
theorem arrangeOffsets_alike (d : Descriptor κ ν) {offsets offsets' : Option Region}
    (h : offsets.map Region.bytes = offsets'.map Region.bytes) :
    (∃ fault, arrangeOffsets d offsets = .error fault ∧ arrangeOffsets d offsets' = .error fault) ∨
      ∃ o s o' s', arrangeOffsets d offsets = .ok (o, s) ∧ arrangeOffsets d offsets' = .ok (o', s') ∧
        Option.Rel (fun r r' => r.bytes = r'.bytes) o o' ∧ Option.Rel SelectIndex.Alike s s' := by
  rcases offsets with _ | r <;> rcases offsets' with _ | r'
  · cases harrange : arrangeOffsets d none with
    | error fault => exact .inl ⟨fault, rfl, rfl⟩
    | ok arranged =>
      obtain ⟨o, s⟩ := arranged
      cases arrangeOffsets_eq_ok.1 harrange
      exact .inr ⟨none, none, none, none, rfl, rfl, .none, .none⟩
  · cases h
  · cases h
  · have hbytes : r.bytes = r'.bytes := Option.some.inj h
    have hsize : r.size = r'.size := by rw [Region.size_eq, Region.size_eq, hbytes]
    unfold arrangeOffsets
    cases d.settings.offsetStorage with
    | automatic | fixed => exact .inl ⟨_, rfl, rfl⟩
    | indexed =>
      dsimp only
      rw [hsize]
      split
      · exact .inl ⟨_, rfl, rfl⟩
      · exact .inr ⟨_, _, _, _, rfl, rfl, .some hbytes, .none⟩
    | selected =>
      cases d.select with
      | some select => exact .inl ⟨_, rfl, rfl⟩
      | none =>
        cases d.selectBits with
        | error fault => exact .inl ⟨_, rfl, rfl⟩
        | ok bits =>
          simp only [Outcome.ok_bind, hsize]
          split
          · exact .inl ⟨_, rfl, rfl⟩
          · exact .inr ⟨_, _, _, _, rfl, rfl, .none, .some (SelectIndex.alike_ofBlock (by rw [hbytes]) bits)⟩

/-- The offsets section of a table, read back as its descriptor asks for it, is arranged as the offsets of the table were. -/
theorem arrangeOffsets_offsetsBytes {d : Descriptor κ ν} {offsets : Option Region} {o : Option Region} {s : Option SelectIndex}
    (h : arrangeOffsets d offsets = .ok (o, s)) (data : Region) :
    ∃ o' s', arrangeOffsets d (if d.needsOffsetsFile then some (.ofBytes (offsetsBytes ⟨data, o, s⟩)) else none) =
        .ok (o', s') ∧
      Storage.Alike ⟨.ofBytes data.bytes, o', s'⟩ ⟨data, o, s⟩ := by
  cases arrangeOffsets_eq_ok.1 h with
  | plain r hstorage hsize =>
    have hneeds : d.needsOffsetsFile = true := by rw [Descriptor.needsOffsetsFile, hstorage]
    have hsize' : Settings.indexedCost d.count d.dataSize ≤ (Region.ofBytes r.bytes).size := by
      rwa [Region.size_ofBytes, ← Region.size_eq]
    rw [hneeds, if_pos rfl]
    exact ⟨_, _, arrangeOffsets_eq_ok.2 (.plain _ hstorage hsize'), rfl, .some rfl, .none⟩
  | words r bits hstorage hselect hbits hsize =>
    have hneeds : d.needsOffsetsFile = true := by
      rw [Descriptor.needsOffsetsFile, hstorage, hselect]
      rfl
    -- the section has the words that were kept, which may be fewer bytes than the file had
    have hwords := words_ofBytes_wordsBytes (WordBlock.ofBytes r.bytes).words
    have hsize' : 8 * wordsFor bits ≤ (Region.ofBytes (wordsBytes (WordBlock.ofBytes r.bytes).words)).size := by
      rw [Region.size_eq] at hsize
      rw [Region.size_ofBytes, length_wordsBytes, WordBlock.size_ofBytes]
      omega
    rw [hneeds, if_pos rfl]
    exact ⟨_, _, arrangeOffsets_eq_ok.2 (.words _ bits hstorage hselect hbits hsize'), rfl, .none,
      .some (SelectIndex.alike_ofBlock hwords bits)⟩
  | absent hneeds =>
    rw [hneeds, if_neg Bool.false_ne_true]
    exact ⟨_, _, arrangeOffsets_eq_ok.2 (.absent hneeds), rfl, .none, .none⟩

end Table

/-! ## Images -/

namespace ResidentMap

/-- What stands in front of sections of these lengths. -/
def header (a b c : Nat) : Bytes :=
  magic ++ [a, b, c].flatMap (Bytes.bigEndian 8)

/-- The sections of an image: the descriptor, the data and the offsets. -/
structure Sections where
  descriptor : Bytes
  data : Bytes
  offsets : Bytes

/-- How many bytes the sections have together. -/
def Sections.size (x : Sections) : Nat :=
  x.descriptor.length + x.data.length + x.offsets.length

/-- The image with these sections. -/
def Sections.image (x : Sections) : Bytes :=
  header x.descriptor.length x.data.length x.offsets.length ++ (x.descriptor ++ (x.data ++ x.offsets))

/-- The sections of a map, unless its table is closed. -/
def sections? (m : ResidentMap κ ν) : Option Sections :=
  m.table.storage.map fun storage => ⟨m.table.descriptor.encode, storage.data.bytes, Table.offsetsBytes storage⟩

/-- A map is refused for the size of its sections, and for nothing else. -/
theorem encode_eq {m : ResidentMap κ ν} {x : Sections} (h : m.sections? = some x) :
    m.encode = if maxImage < x.size then .error (.imageTooLarge x.size) else .ok x.image := by
  obtain ⟨storage, hstorage, rfl⟩ := Option.map_eq_some_iff.1 h
  have hneed : m.table.needStorage = .ok storage := by rw [Table.needStorage, hstorage]
  rw [encode, hneed]
  rfl

/-- What reading an image does once it is past the header. -/
def readSections [HashLibrary] [DecidableEq κ] (finder : CodecFinder κ ν) (a b c : Nat) (input : Bytes) :
    Except Fault (ResidentMap κ ν × Bytes) := do
  let (descriptor, rest) ← needBytes a input
  let (data, rest) ← needBytes b rest
  let (offsets, rest) ← needBytes c rest
  let d ← Descriptor.decode finder noPaths descriptor
  let offsets := if d.needsOffsetsFile then some (Region.ofBytes offsets) else none
  pure (⟨← Table.assemble d (.ofBytes data) offsets none⟩, rest)

/-- Bytes in front are taken, and the others are left. -/
theorem needBytes_append (front rest : Bytes) : needBytes front.length (front ++ rest) = .ok (front, rest) := by
  rw [needBytes, Bytes.splitExact?_append]

theorem length_magic : magic.length = 8 := by decide

/-- A header is as long as it says. -/
theorem length_header (a b c : Nat) : (header a b c).length = headerSize := by
  rw [header, List.length_append, length_magic, length_flatMap_of_width (Bytes.length_bigEndian 8)]
  rfl

/-- Each length is found behind the letters, if it is a word. -/
theorem length_of_header {a b c i : Nat} (hi : i < [a, b, c].length) (hword : [a, b, c][i] < 0x10000000000000000) :
    Bytes.toNatBig (((header a b c).drop (8 * (i + 1))).take 8) = [a, b, c][i] := by
  have hcapacity : Bytes.capacity 8 = 0x10000000000000000 := by decide
  have hplace : 8 * (i + 1) = 8 + i * 8 := by omega
  rw [hplace, ← List.drop_drop, header, List.drop_left' length_magic, take_drop_flatMap (Bytes.length_bigEndian 8) hi,
    Bytes.toNatBig_bigEndian, hcapacity, Nat.mod_eq_of_lt hword]

/-- The header decides whether an image is refused for its size. -/
theorem decode_header [HashLibrary] [DecidableEq κ] (finder : CodecFinder κ ν) {a b c : Nat} (ha : a < 0x10000000000000000)
    (hb : b < 0x10000000000000000) (hc : c < 0x10000000000000000) (input : Bytes) :
    decode finder (header a b c ++ input) =
      if maxImage < a + b + c then .error .imageOversized else readSections finder a b c input := by
  have hheader : needBytes headerSize (header a b c ++ input) = .ok (header a b c, input) := by
    rw [← length_header a b c]
    exact needBytes_append _ _
  have htake : (header a b c).take 8 = magic := List.take_left' length_magic
  have hone : Bytes.toNatBig (((header a b c).drop (8 * 1)).take 8) = a := length_of_header (i := 0) (by simp) ha
  have htwo : Bytes.toNatBig (((header a b c).drop (8 * 2)).take 8) = b := length_of_header (i := 1) (by simp) hb
  have hthree : Bytes.toNatBig (((header a b c).drop (8 * 3)).take 8) = c := length_of_header (i := 2) (by simp) hc
  simp only [decode, hheader, Outcome.ok_bind, htake, ne_eq, not_true_eq_false, if_false, hone, htwo, hthree]
  split
  · rfl
  · rfl

/-- Sections that stand one after the other are read one after the other, and what stands behind them is left. -/
theorem readSections_append [HashLibrary] [DecidableEq κ] (finder : CodecFinder κ ν) (x : Sections) (rest : Bytes) :
    readSections finder x.descriptor.length x.data.length x.offsets.length (x.descriptor ++ (x.data ++ x.offsets) ++ rest) =
      (do
        let d ← Descriptor.decode finder noPaths x.descriptor
        let offsets := if d.needsOffsetsFile then some (Region.ofBytes x.offsets) else none
        pure (⟨← Table.assemble d (.ofBytes x.data) offsets none⟩, rest)) := by
  simp only [readSections, List.append_assoc, needBytes_append, Outcome.ok_bind]

/-- What was written for a map is read back by putting its sections together, and what stands behind it is left. -/
theorem decode_append [HashLibrary] [DecidableEq κ] {finder : CodecFinder κ ν} {m : ResidentMap κ ν}
    (hreadable : m.table.descriptor.Readable finder) {storage : Storage} (hstorage : m.table.storage = some storage)
    {bytes : Bytes} (hencode : m.encode = .ok bytes) (rest : Bytes) :
    decode finder (bytes ++ rest) =
      (Table.assemble (m.table.descriptor.moved noPaths) (.ofBytes storage.data.bytes)
        (if m.table.descriptor.needsOffsetsFile then some (.ofBytes (Table.offsetsBytes storage)) else none) none).map
        fun t => (⟨t⟩, rest) := by
  have hsections : m.sections? = some ⟨m.table.descriptor.encode, storage.data.bytes, Table.offsetsBytes storage⟩ := by
    rw [sections?, hstorage]
    rfl
  rw [encode_eq hsections] at hencode
  revert hencode
  generalize hx : (⟨m.table.descriptor.encode, storage.data.bytes, Table.offsetsBytes storage⟩ : Sections) = x
  intro hencode
  split at hencode
  · cases hencode
  rename_i hsize
  cases hencode
  -- lengths that pass as a whole are words
  have hmax : maxImage < 0x10000000000000000 := by decide
  have htotal : x.size = x.descriptor.length + x.data.length + x.offsets.length := rfl
  rw [Sections.image, List.append_assoc, decode_header finder (by omega) (by omega) (by omega), ← htotal, if_neg hsize,
    readSections_append, ← hx, hreadable.decode_eq noPaths]
  rfl

/-- However an image is read, its table is put together from the descriptor in it. -/
theorem exists_assemble_of_ofBytes [HashLibrary] [DecidableEq κ] {finder : CodecFinder κ ν} {bytes : Bytes}
    {m : ResidentMap κ ν} (h : ofBytes finder bytes = .ok m) : ∃ descriptor d data offsets,
      Descriptor.decode finder noPaths descriptor = .ok d ∧ Table.assemble d data offsets none = .ok m.table := by
  obtain ⟨⟨_, rest⟩, hdecode, rfl⟩ := Outcome.map_eq_ok.1 h
  unfold decode at hdecode
  obtain ⟨⟨header, input⟩, -, hdecode⟩ := Outcome.bind_eq_ok.1 hdecode
  dsimp only at hdecode
  split at hdecode
  · exact nomatch hdecode
  split at hdecode
  · exact nomatch hdecode
  obtain ⟨⟨descriptor, input⟩, -, hdecode⟩ := Outcome.bind_eq_ok.1 hdecode
  obtain ⟨⟨data, input⟩, -, hdecode⟩ := Outcome.bind_eq_ok.1 hdecode
  obtain ⟨⟨offsets, input⟩, -, hdecode⟩ := Outcome.bind_eq_ok.1 hdecode
  obtain ⟨d, hdescriptor, hdecode⟩ := Outcome.bind_eq_ok.1 hdecode
  obtain ⟨t, hassemble, hdecode⟩ := Outcome.bind_eq_ok.1 hdecode
  cases hdecode
  exact ⟨descriptor, d, _, _, hdescriptor, hassemble⟩

end ResidentMap

end FrozenTable
