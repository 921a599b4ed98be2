import FrozenTable.Proofs.Lemmas.Lookups

/-!
# Tables within the bounds of their format

Signed words have a codec that does what is asked of codecs. With it and a library for one key a table of one entry is built in
every mode, and its lengths keep to the bounds of their format.
-/

namespace FrozenTable

/-! ## Codecs of signed words -/

/-- Signed words are read back as they were written. -/
theorem Codec.faithful_long : long.Faithful := by
  intro x bytes rest h
  cases h
  have hcapacity : Bytes.capacity 8 = 0x10000000000000000 := by decide
  have hlength : (longBytes x).length = 8 := Bytes.length_littleEndian 8 _
  have hsplit : Bytes.splitExact? 8 (longBytes x ++ rest) = some (longBytes x, rest) := by
    rw [← hlength]
    exact Bytes.splitExact?_append _ _
  have hvalue : Bytes.toNatLittle (longBytes x) = x.toUInt64.toNat := by
    rw [longBytes, Bytes.toNatLittle_littleEndian, hcapacity]
    exact Nat.mod_eq_of_lt x.toUInt64.toNat_lt
  have hflatten : [longBytes x].flatten = longBytes x := List.flatten_singleton
  rw [hflatten]
  show readLong (longBytes x ++ rest) = _
  rw [readLong, hsplit]
  dsimp only
  rw [hvalue, UInt64.ofNat_toNat]
  rfl

/-- Every signed word can be written. -/
theorem Codec.total_long : long.Total :=
  fun _ => ⟨_, rfl⟩

/-! ## A table of one entry -/

/-- The library whose functions lead to the first bucket, which is all that one fingerprint asks for. -/
@[reducible] def HashLibrary.single : HashLibrary where
  train _ := ⟨fun _ => 0, []⟩
  load _ := some ⟨fun _ => 0, []⟩

/-- The hash of a single key is read back from no bytes. -/
theorem HashLibrary.restores_single : @HashLibrary.Restores .single :=
  fun _ _ => rfl

instance : Spelled Int64 :=
  ⟨fun x => toString x⟩

/-- A reader that knows tables of signed words only. -/
def CodecFinder.longs : CodecFinder Int64 Int64 where
  key _ := some .long
  value _ := some .long

/-- Settings for signed words, with the range of the keys where these are dropped. -/
def Settings.longs (keyStorage : KeyStorage) (offsetStorage : OffsetStorage) : Settings Int64 Int64 :=
  initial.changed [.keyCodec .long, .valueCodec .long, .keyStorage keyStorage, .rangeChecking .automatic, .signatureWidth 8,
    .offsetStorage offsetStorage]

/-- Signed words are read back. -/
theorem Settings.faithful_longs (keyStorage : KeyStorage) (offsetStorage : OffsetStorage) :
    (longs keyStorage offsetStorage).Faithful := by
  constructor
  all_goals
    intro codec hcodec
    cases hcodec
    exact Codec.faithful_long

/-- These settings come of changes. -/
theorem Settings.formed_longs (keyStorage : KeyStorage) (offsetStorage : OffsetStorage) :
    (longs keyStorage offsetStorage).Formed := by
  refine formed_changed ?_ ?_
  all_goals
    cases keyStorage <;> cases offsetStorage <;> decide

theorem Settings.held_longs (keyStorage : KeyStorage) (offsetStorage : OffsetStorage) :
    (longs keyStorage offsetStorage).Held := by
  constructor
  all_goals
    intro codec hcodec
    cases hcodec
    exact Msgpack.regular_array (by decide) nofun

/-- The reader knows their codecs. -/
theorem CodecFinder.knows_longs (keyStorage : KeyStorage) (offsetStorage : OffsetStorage) :
    longs.Knows (.longs keyStorage offsetStorage) := by
  constructor
  all_goals
    intro codec hcodec
    cases hcodec
    exact ⟨nofun, rfl⟩

namespace Build

/-- Builds a table of one entry. -/
def single (keyStorage : KeyStorage) (offsetStorage : OffsetStorage) :
    FileStore × Except Fault (Descriptor Int64 Int64) :=
  @run _ _ .single _ _ _ (.rooted ["work"]) (.longs keyStorage offsetStorage) none 0 ["work", "table"]
    (.ofEntries [⟨7, some 5⟩])

/-- The build of a table of one entry ends well in every mode, and the table is supported. -/
theorem single_eq_ok (keyStorage : KeyStorage) (offsetStorage : OffsetStorage) :
    ∃ store d, single keyStorage offsetStorage = (store, .ok d) ∧ d.Supported := by
  have hbounded : (single keyStorage offsetStorage).2.toOption.any (fun d => decide d.Bounded) = true := by
    cases keyStorage <;> cases offsetStorage <;> decide +kernel
  cases hsingle : single keyStorage offsetStorage with
  | mk store outcome =>
    rw [hsingle] at hbounded
    cases outcome with
    | error fault => exact nomatch hbounded
    | ok d =>
      let _ : HashLibrary := .single
      exact ⟨store, d, rfl, supported_of_run hsingle (by decide) (Settings.formed_longs _ _) (Settings.held_longs _ _)
        (of_decide_eq_true hbounded)⟩

end Build

end FrozenTable
