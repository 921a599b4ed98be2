import FrozenTable.Proofs.Lemmas.Delimiting
import FrozenTable.Proofs.Lemmas.Training

/-!
# A table of four entries whose records vary in size

The values of these entries take one byte or two, so that no single size tells where a record starts. The entries are built in
two ways. Settings that changes made have a line that rises by one, and a table of four entries is supported with it, in every
mode that takes records of different sizes. The other settings are the same but for the line: it falls, as only a line can that
was stored with settings and read back with them. They are in order for all that, the build checks the sizes of records by this
line and passes them, and then two records have the same number, by which the selected offset of one of them is lost.
-/

namespace FrozenTable

/-! ## Settings -/

/-- A reader that knows tables of signed words with values of different sizes. -/
def CodecFinder.varied : CodecFinder Int64 Int64 where
  key _ := some .long
  value _ := some .varLong

namespace Settings

/-- Settings for signed words with values of different sizes. -/
def varied (keyStorage : KeyStorage) (offsetStorage : OffsetStorage) (validation : KeyValidation) : Settings Int64 Int64 :=
  initial.changed [.keyCodec .long, .valueCodec .varLong, .keyStorage keyStorage, .validation validation,
    .rangeChecking .automatic, .signatureWidth 8, .offsetStorage offsetStorage]

/-- The same settings with another line in the place of the one that goes with their codecs. It falls from one byte more than
the smallest record, so that a record of any size lies on it, as far as it is not below that. -/
def falling (keyStorage : KeyStorage) (offsetStorage : OffsetStorage) (validation : KeyValidation) : Settings Int64 Int64 :=
  { varied keyStorage offsetStorage validation with entryLine := ⟨-1, if keyStorage = .explicit then 9 else 1⟩ }

variable (keyStorage : KeyStorage) (offsetStorage : OffsetStorage) (validation : KeyValidation)

/-- These settings come of changes. -/
theorem formed_varied : (varied keyStorage offsetStorage validation).Formed := by
  refine formed_changed ?_ ?_
  all_goals
    cases keyStorage <;> cases offsetStorage <;> cases validation <;> decide

theorem held_varied : (varied keyStorage offsetStorage validation).Held := by
  constructor
  all_goals
    intro codec hcodec
    cases hcodec
    exact Msgpack.regular_array (by decide) nofun

/-- Words and varints are read back. -/
theorem faithful_varied : (varied keyStorage offsetStorage validation).Faithful := by
  constructor
  · intro codec hcodec
    cases hcodec
    exact Codec.faithful_long
  · intro codec hcodec x bytes rest hbytes
    cases hcodec
    obtain ⟨written, hwrite, hread⟩ := Codec.returns_varLong x
    cases hwrite.symm.trans hbytes
    exact hread rest

/-- Every key can be written. -/
theorem total_varied : ∀ codec, (varied keyStorage offsetStorage validation).keyCodec = some codec → codec.Total := by
  intro codec hcodec
  cases hcodec
  exact Codec.total_long

/-- The reader knows their codecs. -/
theorem knows_varied : CodecFinder.varied.Knows (varied keyStorage offsetStorage validation) := by
  constructor
  all_goals
    intro codec hcodec
    cases hcodec
    exact ⟨nofun, rfl⟩

/-- Settings with a line that falls are what an image of them is read as, and validation has nothing against them. -/
theorem decode_falling (hstorage : offsetStorage ≠ .fixed) :
    decode .varied (falling keyStorage offsetStorage validation).encode = some (falling keyStorage offsetStorage validation) ∧
      (falling keyStorage offsetStorage validation).validate = .ok () := by
  have hbounds := (formed_varied keyStorage offsetStorage validation).bounded
  have hslope : Word64.IsSigned (-1) := by decide
  have hconstant : Word64.IsSigned (if keyStorage = .explicit then 9 else 1) := by
    cases keyStorage <;> decide
  have hvalid : (varied keyStorage offsetStorage validation).validate = .ok () := by
    cases keyStorage <;> cases offsetStorage <;> first | rfl | exact absurd rfl hstorage
  have hline := decode_lined (knows_varied keyStorage offsetStorage validation) hbounds ?_ ?_ hstorage
    ⟨-1, if keyStorage = .explicit then 9 else 1⟩ hslope hconstant
  · exact ⟨hline.1, hline.2.trans hvalid⟩
  all_goals
    intro codec hcodec
    cases hcodec
    exact Msgpack.regular_array (by decide) nofun

end Settings

namespace Build

/-! ## Entries -/

/-- Four entries, the values of two of which take a second byte. -/
def four : List (Entry Int64 Int64) :=
  [⟨1, some 1⟩, ⟨2, some 2⟩, ⟨3, some 100⟩, ⟨4, some 200⟩]

/-- The fingerprints of their keys in order, which is that of the buckets. -/
def printsOfFour : List Fingerprint :=
  [4, 1, 2, 3].map fun key => .ofBytes (Codec.longBytes key)

theorem increasing_printsOfFour : printsOfFour.Pairwise fun f g => f.toNat < g.toNat := by
  decide +kernel

theorem isSome_printsOfFour : (PerfectHash.ofSorted printsOfFour 8).toOption.isSome = true := by
  decide +kernel

theorem perm_printsOfFour : printsOfFour.Perm (four.map fun entry => .ofBytes (Codec.longBytes entry.key)).reverse := by
  decide +kernel

/-- Builds a table of the four entries. -/
def ofFour (settings : Settings Int64 Int64) : FileStore × Except Fault (Descriptor Int64 Int64) :=
  run (.rooted ["work"]) settings none 0 ["work", "table"] (.ofEntries four)

/-- Opens the table that was built of them. -/
def openFour (store : FileStore) (opening : Opening) : Except Fault (Table Int64 Int64) :=
  opening.open .varied store ["work", "table"]

/-- What the first pass finds in the four entries. -/
def scanOfFour (keyStorage : KeyStorage) : Scan Int64 where
  fingerprints := (four.map fun entry => Fingerprint.ofBytes (Codec.longBytes entry.key)).reverse
  dataSize := if keyStorage = .explicit then 38 else 6
  range := if keyStorage = .explicit then none else some (1, 4)

/-- Their hash. -/
def hashOfFour : PerfectHash :=
  (PerfectHash.ofSorted printsOfFour 8).toOption.get isSome_printsOfFour

/-- What a build of the four entries sets out to do. -/
def planOfFour (settings : Settings Int64 Int64) : BuildPlan Int64 Int64 :=
  let scan := scanOfFour settings.keyStorage
  match settings.resolved scan.fingerprints.length scan.dataSize with
  | .error fault => ⟨preparing ["work", "table"], .error fault⟩
  | .ok settings => planWriting settings hashOfFour scan.dataSize scan.range 0 ["work", "table"]
      (Source.ofEntries four).later

section

variable (keyStorage : KeyStorage) (offsetStorage : OffsetStorage) (validation : KeyValidation)
  (hstorage : offsetStorage ≠ .fixed)

include hstorage

/-- The build of the four entries comes to write, with either line. The fingerprints are put in order here, so that what is left
of it can be evaluated. -/
theorem ofFour_eq {settings : Settings Int64 Int64}
    (hsettings : settings = .varied keyStorage offsetStorage validation ∨
      settings = .falling keyStorage offsetStorage validation) :
    ofFour settings = carryOut (.rooted ["work"]) (planOfFour settings) := by
  have hbuilt : PerfectHash.build (scanOfFour keyStorage).fingerprints 8 = .ok hashOfFour :=
    (PerfectHash.build_perm perm_printsOfFour 8).symm.trans
      ((PerfectHash.build_of_increasing increasing_printsOfFour 8).trans (Outcome.eq_ok_get isSome_printsOfFour))
  have hhashed : Hashed settings none (.ofEntries four) (scanOfFour keyStorage) hashOfFour := by
    rcases hsettings with rfl | rfl <;> cases keyStorage <;> cases offsetStorage <;> cases validation <;>
      first | exact ⟨rfl, rfl, hbuilt⟩ | exact absurd rfl hstorage
  have hkeys : settings.keyStorage = keyStorage := by
    rcases hsettings with rfl | rfl <;> rfl
  rw [ofFour, run, plan_eq_ok.2 ⟨_, _, hhashed, rfl⟩, planOfFour, hkeys]
  cases hresolved : settings.resolved (scanOfFour keyStorage).fingerprints.length (scanOfFour keyStorage).dataSize
  all_goals
    dsimp only [Option.getD_none]
    rw [hresolved]

/-- A table of the four entries is built in every mode that takes records of different sizes, and it is supported. -/
theorem ofFour_varied : ∃ store d,
    ofFour (.varied keyStorage offsetStorage validation) = (store, .ok d) ∧ d.Supported := by
  have hends : (ofFour (.varied keyStorage offsetStorage validation)).2.toOption.any (fun d => decide d.Bounded) = true := by
    rw [ofFour_eq keyStorage offsetStorage validation hstorage (.inl rfl)]
    cases keyStorage <;> cases offsetStorage <;> cases validation <;> decide +kernel
  cases hrun : ofFour (.varied keyStorage offsetStorage validation) with
  | mk store outcome =>
    rw [hrun] at hends
    cases outcome with
    | error fault => cases hends
    | ok d =>
      exact ⟨store, d, rfl, supported_of_run hrun (by decide) (Settings.formed_varied _ _ _) (Settings.held_varied _ _ _)
        (of_decide_eq_true hends)⟩

/-- What evaluation finds of the table that is built of the four entries, with either line, holds of it. -/
theorem ofFour_of_evaluation {settings : Settings Int64 Int64}
    (hsettings : settings = .varied keyStorage offsetStorage validation ∨
      settings = .falling keyStorage offsetStorage validation)
    (opening : Opening) (found : Descriptor Int64 Int64 → Table Int64 Int64 → Prop) [∀ d t, Decidable (found d t)]
    (h : ((carryOut (.rooted ["work"]) (planOfFour settings)).2.toOption.any fun d =>
      (openFour (carryOut (.rooted ["work"]) (planOfFour settings)).1 opening).toOption.any fun t =>
        decide (found d t)) = true) :
    ∃ store d t, ofFour settings = (store, .ok d) ∧ openFour store opening = .ok t ∧ found d t := by
  rw [← ofFour_eq keyStorage offsetStorage validation hstorage hsettings] at h
  cases hrun : ofFour settings with
  | mk store outcome =>
    rw [hrun] at h
    cases outcome with
    | error fault => cases h
    | ok d =>
      cases hopen : openFour store opening with
      | error fault =>
        simp only [Except.toOption, Option.any_some, hopen, Option.any_none] at h
        cases h
      | ok t =>
        simp only [Except.toOption, Option.any_some, hopen] at h
        exact ⟨store, d, t, rfl, hopen, of_decide_eq_true h⟩

end

end Build

end FrozenTable
