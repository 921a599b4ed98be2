import FrozenTable.Proofs.Lemmas.Extending
import FrozenTable.Proofs.Lemmas.Imaging
import FrozenTable.Proofs.Lemmas.Recovering
import FrozenTable.Lookup.Cursor

/-!
# Lookups that do not run out of bounds

A fatal fault is no answer. No codec of this library meets one, whatever the bytes are that it reads, and a lookup meets none
when the descriptor of its table is consistent: when signatures are words with bits for each bucket, and plain offsets are
words (`Descriptor.Consistent`). All else that bytes may say wrongly is told as a fault of the data.
-/

namespace FrozenTable

open Outcome

/-! ## Codecs -/

/-- A codec that meets no fatal fault: not by writing any item, and not by reading any bytes. -/
structure Codec.Tame {α : Type} (c : Codec α) : Prop where
  pieces : ∀ x, Outcome.Tame (c.pieces x)
  read : ∀ input, Outcome.Tame (c.read input)

/-- No varint is read with a fatal fault. -/
theorem Varint.tame_decode (input : Bytes) : Tame (decode input) := by
  have hgroups (groups : Nat) : ∀ input, Tame (decodeGroups groups input) := by
    induction groups with
    | zero => exact fun _ => rfl
    | succ groups ih =>
      intro input
      cases input with
      | nil => rfl
      | cons b rest =>
        rw [decodeGroups]
        split
        · rfl
        · exact (ih rest).bind fun _ _ => rfl
  exact (hgroups 10 input).bind fun _ _ => rfl

/-- Reading many items is as tame as reading one. -/
theorem tame_readMany {α : Type} {read : Bytes → Except Fault (α × Bytes)} (h : ∀ input, Tame (read input)) (count : Nat) :
    ∀ input, Tame (readMany read count input) := by
  induction count with
  | zero => exact fun _ => rfl
  | succ count ih =>
    intro input
    exact (h input).bind fun _ _ => (ih _).bind fun _ _ => rfl

namespace Codec

/-- Reading nothing is tame. -/
theorem tame_unit : unit.Tame :=
  ⟨fun _ => rfl, fun _ => rfl⟩

/-- Words of eight bytes are read without a fatal fault. -/
theorem tame_long : long.Tame := by
  refine ⟨fun _ => rfl, fun input => ?_⟩
  show Outcome.Tame (readLong input)
  unfold readLong
  split <;> rfl

/-- Signed varints are read without a fatal fault. -/
theorem tame_varLong : varLong.Tame :=
  ⟨fun _ => rfl, fun input => (Varint.tame_decode input).bind fun _ _ => rfl⟩

/-- Bytes that are no text are no fatal fault. -/
theorem tame_textOf (bytes : Bytes) : Outcome.Tame (textOf bytes) := by
  unfold textOf
  split <;> rfl

/-- Texts are read without a fatal fault. -/
theorem tame_string : string.Tame := by
  refine ⟨fun _ => rfl, fun input => (Varint.tame_decode input).bind fun ⟨length, rest⟩ _ => ?_⟩
  dsimp only
  split
  · rfl
  · exact (tame_textOf _).bind fun _ _ => rfl

/-- Lists are as tame as their items. -/
theorem Tame.list {α : Type} {c : Codec α} (h : c.Tame) : (Codec.list c).Tame := by
  have hpieces (xs : List α) : Outcome.Tame (allPieces c.pieces xs) := by
    induction xs with
    | nil => rfl
    | cons x xs ih => exact (h.pieces x).bind fun _ _ => ih.bind fun _ _ => rfl
  exact ⟨fun xs => (hpieces xs).bind fun _ _ => rfl, fun input =>
    (Varint.tame_decode input).bind fun _ _ => tame_readMany h.read _ _⟩

/-- Whatever does not fit a MessagePack form is no fatal fault. -/
theorem tame_packed {α : Type} (form : α → Msgpack.Value) (view : Msgpack.Value → Option α) (typeName : String) :
    (packed form view typeName).Tame := by
  refine ⟨fun _ => rfl, fun input => ?_⟩
  dsimp only [packed]
  split
  · split <;> rfl
  · rfl

/-- What a codec says of its sizes has no part in reading. -/
theorem Tame.declaring {α : Type} {c : Codec α} (h : c.Tame) (line : Option AffineSize) : (c.declaring line).Tame :=
  ⟨h.pieces, h.read⟩

end Codec

/-- No codec of this library meets a fatal fault. -/
theorem CodecSpec.tame_codec {t : ItemType} (spec : CodecSpec t) : spec.codec.Tame := by
  induction spec with
  | unit => exact Codec.tame_unit
  | long => exact Codec.tame_long
  | varLong => exact Codec.tame_varLong
  | string => exact Codec.tame_string
  | list element ih => exact ih.list
  | packed type => exact Codec.tame_packed _ _ _
  | declaring spec line ih => exact ih.declaring line

/-- A reader that finds codecs which meet no fatal fault, whatever the form is that it finds them by. -/
structure CodecFinder.Tame {κ ν : Type} (finder : CodecFinder κ ν) : Prop where
  key : ∀ v codec, finder.key v = some codec → codec.Tame
  value : ∀ v codec, finder.value v = some codec → codec.Tame

/-- The codecs that a finder of this library finds are tame. -/
theorem CodecSpec.tame_finder {t u : ItemType} (key : CodecSpec t) (value : CodecSpec u) : (finder key value).Tame := by
  constructor
  all_goals
    intro v codec hcodec
    obtain ⟨spec, -, rfl⟩ := Option.map_eq_some_iff.1 hcodec
    exact spec.tame_codec

/-! ## Settings -/

namespace Settings

variable {κ ν : Type}

/-- Settings whose codecs meet no fatal fault. -/
structure Tame (s : Settings κ ν) : Prop where
  key : ∀ codec, s.keyCodec = some codec → codec.Tame
  value : ∀ codec, s.valueCodec = some codec → codec.Tame

variable {s : Settings κ ν}

/-- Settings without a key codec are no fatal fault, and the codec of others is tame. -/
theorem Tame.needKeyCodec (h : s.Tame) : Outcome.Tame s.needKeyCodec ∧ ∀ codec, s.needKeyCodec = .ok codec → codec.Tame := by
  unfold Settings.needKeyCodec
  cases hcodec : s.keyCodec with
  | none => exact ⟨rfl, nofun⟩
  | some codec =>
    refine ⟨rfl, ?_⟩
    rintro _ ⟨⟩
    exact h.key codec hcodec

/-- Writing a key is tame. -/
theorem Tame.keyPieces (h : s.Tame) (key : κ) : Outcome.Tame (s.keyPieces key) :=
  h.needKeyCodec.1.bind fun codec hcodec => (h.needKeyCodec.2 codec hcodec).pieces key

/-- Reading the key of a record is tame. -/
theorem Tame.readKey (h : s.Tame) (input : Bytes) : Outcome.Tame (s.readKey input) := by
  unfold Settings.readKey
  split
  · exact h.needKeyCodec.1.bind fun codec hcodec => ((h.needKeyCodec.2 codec hcodec).read input).bind fun _ _ => rfl
  · rfl

/-- Reading the value of a record is tame. -/
theorem Tame.readValue (h : s.Tame) (input : Bytes) : Outcome.Tame (s.readValue input) := by
  unfold Settings.readValue
  split
  · rename_i codec hcodec
    exact ((h.value codec hcodec).read input).bind fun _ _ => rfl
  · rfl

/-- A codec that was read back is one that the reader has found. -/
theorem tame_of_view {finder : CodecFinder κ ν} (hfinder : finder.Tame) {v : Msgpack.Value} (h : view finder v = some s) :
    s.Tame := by
  have hoptional {α : Type} {find : Msgpack.Value → Option (Codec α)} (hfind : ∀ v codec, find v = some codec → codec.Tame)
      {field : Option Msgpack.Value} {found : Option (Codec α)} (hfound : Msgpack.Value.optional find field = some found) :
      ∀ codec, found = some codec → codec.Tame := by
    rintro codec rfl
    unfold Msgpack.Value.optional at hfound
    split at hfound
    · exact nomatch hfound
    · unfold Msgpack.Value.toOption? at hfound
      split at hfound
      · exact nomatch hfound
      · obtain ⟨_, hcodec, hsame⟩ := Option.map_eq_some_iff.1 hfound
        cases hsame
        exact hfind _ _ hcodec
  unfold view at h
  obtain ⟨_, -, h⟩ := Option.bind_eq_some_iff.1 h
  split at h
  · obtain ⟨_, hkey, h⟩ := Option.bind_eq_some_iff.1 h
    obtain ⟨_, hvalue, h⟩ := Option.bind_eq_some_iff.1 h
    -- the other fields say nothing about codecs
    iterate 10 obtain ⟨_, -, h⟩ := Option.bind_eq_some_iff.1 h
    cases h
    exact ⟨hoptional hfinder.key hkey, hoptional hfinder.value hvalue⟩
  · exact nomatch h

end Settings

/-! ## Descriptors -/

namespace Descriptor

variable {κ ν : Type} {d : Descriptor κ ν}

/-- The settings of a descriptor that was read back have the codecs that the reader has found. -/
theorem tame_of_decode [HashLibrary] {finder : CodecFinder κ ν} (hfinder : finder.Tame) {paths : TablePaths} {bytes : Bytes}
    (h : decode finder paths bytes = .ok d) : d.settings.Tame := by
  obtain ⟨-, v, hview⟩ := parts_of_decode h
  exact Settings.tame_of_view hfinder hview

/-- What a descriptor says about its signatures and its offsets goes together. This is not checked when a descriptor is
read. -/
structure Consistent (d : Descriptor κ ν) : Prop where
  /-- Signatures are words, and the words they stand in reach as far as the last bucket. -/
  signatures : d.hash.signatureWidth = 0 ∨
    d.hash.signatureWidth ≤ wordBits ∧ ∀ i < d.count, (d.hash.signatures.get? i).isSome = true
  /-- Plain offsets are words. -/
  offsets : d.settings.offsetStorage = .indexed → d.offsetWidth ≤ 8

/-- Signatures that reach as far as the last bucket can be compared. -/
theorem Consistent.slot (h : d.Consistent) (f : Fingerprint) : Tame (d.hash.slot f) := by
  unfold PerfectHash.slot
  split
  · rfl
  rename_i function hfunction
  dsimp only
  split
  · rfl
  rename_i hlength
  refine Tame.bind ?_ fun same _ => by cases same <;> rfl
  unfold PerfectHash.signatureMatches
  rcases h.signatures with hnone | ⟨hwidth, hreach⟩
  · rw [if_pos hnone]
    rfl
  split
  · rfl
  rw [if_neg (Nat.not_lt.2 hwidth)]
  obtain ⟨kept, hkept⟩ := Option.isSome_iff_exists.1 (hreach _ (Nat.not_le.1 hlength))
  rw [hkept]
  rfl

/-- Plain offsets that are words can be read. -/
theorem Consistent.offsetOf (h : d.Consistent) (bucket : Nat) (offsets : Option Region) (select : Option SelectIndex) :
    Tame (d.offsetOf bucket offsets select) := by
  unfold Descriptor.offsetOf
  split
  · rename_i hstorage
    split
    · rfl
    · refine Tame.bind ?_ fun found _ => by cases found <;> rfl
      unfold Region.readNat
      split
      · rfl
      · rw [if_pos (h.offsets hstorage)]
        rfl
  · split <;> rfl
  · rfl
  · rfl

end Descriptor

/-! ## Lookups -/

namespace Table

variable {κ ν : Type} {t : Table κ ν}

/-- Asking a closed table is no fatal fault. -/
theorem tame_needStorage : Tame t.needStorage := by
  unfold needStorage
  split <;> rfl

/-- A record is read without a fatal fault, wherever it is taken to start. -/
theorem tame_readRecord (hsettings : t.descriptor.settings.Tame) (storage : Storage) (offset : Nat) :
    Tame (t.readRecord storage offset) := by
  unfold readRecord
  split
  · rfl
  · exact (hsettings.readKey _).bind fun _ _ => (hsettings.readValue _).bind fun _ _ => rfl

/-- The record in a bucket is read without a fatal fault, whether the bucket is there or not. -/
theorem tame_readBucket (hsettings : t.descriptor.settings.Tame) (hconsistent : t.descriptor.Consistent) (storage : Storage)
    (bucket : Nat) : Tame (t.readBucket storage bucket) :=
  (hconsistent.offsetOf bucket _ _).bind fun _ _ => tame_readRecord hsettings storage _

/-- Asking for an entry by its bucket is tame. -/
theorem tame_entryAt (hsettings : t.descriptor.settings.Tame) (hconsistent : t.descriptor.Consistent) (bucket : Nat) :
    Tame (t.entryAt bucket) := by
  unfold entryAt
  split
  · rfl
  · exact tame_needStorage.bind fun storage _ => tame_readBucket hsettings hconsistent storage bucket

/-- Going from a key to its bucket is tame. -/
theorem tame_locate [Ord κ] (hsettings : t.descriptor.settings.Tame) (hconsistent : t.descriptor.Consistent) (key : κ) :
    Tame (t.locate key) := by
  unfold locate
  split
  · rfl
  · exact (hsettings.keyPieces key).bind fun _ _ => hconsistent.slot _

/-- Looking a key up is tame. -/
theorem tame_find [Ord κ] (hsettings : t.descriptor.settings.Tame) (hconsistent : t.descriptor.Consistent) (key : κ) :
    Tame (t.find key) := by
  refine tame_needStorage.bind fun storage _ => (tame_locate hsettings hconsistent key).bind fun place _ => ?_
  cases place with
  | none => rfl
  | some bucket =>
    refine (tame_readBucket hsettings hconsistent storage bucket).bind fun ⟨stored, value⟩ _ => ?_
    dsimp only
    split
    · rfl
    · split <;> rfl

end Table

end FrozenTable
