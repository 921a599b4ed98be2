import FrozenTable.Proofs.Lemmas.Imaging
import FrozenTable.Proofs.Lemmas.Measuring
import FrozenTable.Proofs.Lemmas.Recovering
import FrozenTable.Proofs.Lemmas.Supporting

/-!
# Reading a descriptor undoes writing it

Whatever settings, hash, index, range and numbers a build puts into a descriptor, and whichever codecs of this library its keys
and values have, the bytes of the descriptor are read back to it. What is not written, the directory of the index and the
function of the hash, is made anew and is the same.
-/

namespace FrozenTable

namespace Descriptor

variable {t u : ItemType}

/-- What a build can put into a descriptor. Nothing is said about the data or the keys that it belongs to. -/
structure Storable [HashLibrary] (key : CodecSpec t) (value : CodecSpec u) (d : Descriptor t.Carrier u.Carrier) : Prop where
  version_eq : d.version = formatVersion
  described : CodecSpec.Describe key value d.settings
  bounded : d.settings.Bounded
  resolved : d.settings.offsetStorage ≠ .automatic
  /-- The hash is that of some fingerprints, with signatures of any width or without. -/
  hash : ∃ fingerprints width, width ≤ 64 ∧ PerfectHash.build fingerprints width = .ok d.hash
  /-- The index, if there is one, is that of some vector of bits. -/
  select : ∀ index, d.select = some index → ∃ bits : BitSet, index = .ofBits bits ∧ bits.words.size = wordsFor bits.length
  offsetWidth_eq : d.offsetWidth = Settings.offsetWidth d.dataSize
  /-- MessagePack has a form for each number and each length in the descriptor. It tells lengths by half a word: a key of the
  range, a function of the hash or words of an index that are longer are written with a length that was cut. -/
  regular : d.form.Regular Msgpack.maxLevels

/-- What a build puts into a descriptor can be read back by those who look for codecs of the same shapes. -/
theorem Storable.readable [HashLibrary] (hlibrary : HashLibrary.Restores) {key : CodecSpec t} {value : CodecSpec u}
    (hkey : key.Signed) (hvalue : value.Signed) {d : Descriptor t.Carrier u.Carrier} (h : d.Storable key value) :
    d.Readable (CodecSpec.finder key value) := by
  obtain ⟨fingerprints, width, hwidth, hbuild⟩ := h.hash
  have hseparates := PerfectHash.separates_of_build hbuild hwidth
  have hfunction : ∀ function, d.hash.function = some function → HashLibrary.load function.bytes = some function := by
    intro function hsome
    obtain ⟨keys, hkeys, rfl⟩ := PerfectHash.function_of_build hbuild hsome
    exact hlibrary keys hkeys
  have hoffsets := Settings.offsetWidth_le d.dataSize
  exact {
    version_eq := h.version_eq
    regular := h.regular
    known := CodecSpec.knows_finder hkey hvalue h.described
    bounded := h.bounded
    hash := ⟨hseparates.function_eq_none, hseparates.functionSize_eq.symm, hfunction⟩
    width_lt := by rw [hseparates.width_eq]; omega
    offsetWidth_lt := by rw [h.offsetWidth_eq]; omega
    select := fun index hindex => by
      obtain ⟨bits, rfl, hwords⟩ := h.select index hindex
      exact ⟨bits.words, bits.length, rfl, Nat.le_of_eq hwords.symm⟩
    resolved := h.resolved }

end Descriptor

namespace Descriptor

variable {t u : ItemType}

end Descriptor

end FrozenTable
