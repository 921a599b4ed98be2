import FrozenTable.Proofs.Lemmas.Persisting
import FrozenTable.Proofs.Lemmas.Selecting

/-!
# Select finds the positions that were set

The set bits of a vector are the positions that were set, in whatever order and however often, and select finds them by their
order. It makes no difference to an index what its words come from: the vector itself, the bytes of the words, in place or
copied, or a value that was written for another index. A reader of such values refuses those whose words are too few.
-/

namespace FrozenTable

open Msgpack

namespace SelectIndex

/-- An index of a vector of bits: made of the vector itself, of the bytes of the words of another such index, in place or
copied, or of a value that tells another such index. -/
inductive Over (bits : BitSet) : SelectIndex → Prop
  | ofBits : Over bits (.ofBits bits)
  | ofBytes {index : SelectIndex} (viewed : Bool) :
      Over bits index → Over bits (.ofBlock ⟨(WordBlock.ofBytes (wordsBytes index.block.words)).words, viewed⟩ index.numBits)
  | reread {index again : SelectIndex} {v : Value} :
      Over bits index → IsImage v index.numBits index.block.words → view v = some again → Over bits again

/-- An index that has the positions of a list for its set bits: their number is known, and each is found by its order. -/
structure Lists (index : SelectIndex) (positions : List Nat) (length : Nat) : Prop where
  numBits_eq : index.numBits = length
  numOnes_eq : index.numOnes = positions.toFinset.card
  select_eq : ∀ r, index.select r = positions.toFinset.sort[r]?

/-! ## Select by the order of positions -/

section

variable {block : WordBlock} {xs : List Nat}

theorem getD_lt_getD (hsorted : xs.SortedLT) (i j : Nat) (hij : i < j) (hj : j < xs.length) : xs.getD i 0 < xs.getD j 0 := by
  rw [List.getD_eq_getElem xs 0 hj, List.getD_eq_getElem xs 0 (Nat.lt_trans hij hj)]
  exact hsorted.getElem_lt_getElem_iff.2 hij

theorem mem_iff_exists_getD {p : Nat} : p ∈ xs ↔ ∃ i < xs.length, xs.getD i 0 = p := by
  rw [List.mem_iff_getElem]
  constructor
  · rintro ⟨i, hi, rfl⟩
    exact ⟨i, hi, List.getD_eq_getElem xs 0 hi⟩
  · rintro ⟨i, hi, rfl⟩
    exact ⟨i, hi, (List.getD_eq_getElem xs 0 hi).symm⟩

/-- Where the set bits are the members of an increasing list, there are as many of them. -/
theorem numOnes_eq_length (hsorted : xs.SortedLT) (hbits : ∀ p, bitAt block.words p = true ↔ p ∈ xs)
    (hreach : ∀ p ∈ xs, p < 64 * block.words.size) (numBits : Nat) : (ofBlock block numBits).numOnes = xs.length := by
  rw [numOnes_ofBlock]
  refine rankAt_behind (getD_lt_getD hsorted) (fun p => (hbits p).trans mem_iff_exists_getD) ?_
  intro i hi
  exact hreach _ (mem_iff_exists_getD.2 ⟨i, hi, rfl⟩)

/-- Where the set bits are the members of an increasing list, select finds them by their places in the list. -/
theorem select_eq_getElem? (hsorted : xs.SortedLT) (hbits : ∀ p, bitAt block.words p = true ↔ p ∈ xs)
    (hreach : ∀ p ∈ xs, p < 64 * block.words.size) (numBits r : Nat) : (ofBlock block numBits).select r = xs[r]? := by
  by_cases hr : r < xs.length
  · -- the bit at this place of the list has the place for its rank, and select finds bits by their ranks
    have hmem : xs.getD r 0 ∈ xs := mem_iff_exists_getD.2 ⟨r, hr, rfl⟩
    have hrank := rankAt_of_increasing (getD_lt_getD hsorted) (fun p => (hbits p).trans mem_iff_exists_getD) hr
    have hselect := select_rankAt block numBits (hreach _ hmem) ((hbits _).2 hmem)
    rw [hrank] at hselect
    rw [hselect, List.getD_eq_getElem xs 0 hr, List.getElem?_eq_getElem hr]
  · have hones := numOnes_eq_length hsorted hbits hreach numBits
    rw [select, if_pos (by omega), List.getElem?_eq_none (Nat.not_lt.1 hr)]

end

/-! ## Indexes of a vector -/

namespace Over

variable {bits : BitSet} {index : SelectIndex} {shape : List (String × Value) → Value}

/-- All indexes of a vector have its words and its length. -/
theorem eq_ofBlock (h : Over bits index) :
    ∃ block : WordBlock, block.words = bits.words ∧ index = .ofBlock block bits.length := by
  induction h with
  | ofBits => exact ⟨.owned bits.words, rfl, rfl⟩
  -- words are found again in their bytes and in an image, and the directory is made of nothing else
  | ofBytes viewed _ ih =>
    obtain ⟨block, hwords, rfl⟩ := ih
    exact ⟨⟨_, viewed⟩, (words_ofBytes_wordsBytes _).trans hwords, rfl⟩
  | reread _ himage hview ih =>
    obtain ⟨block, hwords, rfl⟩ := ih
    rw [view_of_isImage himage] at hview
    split at hview
    · exact ⟨.owned block.words, hwords, (Option.some.inj hview).symm⟩
    · exact nomatch hview

/-- What an index of a vector finds is a matter of the bits of the vector. -/
theorem lists (h : Over bits index) {positions : List Nat} (hbits : ∀ p, bitAt bits.words p = true ↔ p ∈ positions)
    (hreach : ∀ p ∈ positions, p < 64 * bits.words.size) : index.Lists positions bits.length := by
  obtain ⟨block, hwords, rfl⟩ := h.eq_ofBlock
  have hsorted := positions.toFinset.sortedLT_sort
  have hmem : ∀ p, p ∈ positions.toFinset.sort ↔ p ∈ positions := by simp
  have hbits' : ∀ p, bitAt block.words p = true ↔ p ∈ positions.toFinset.sort := by
    intro p
    rw [hwords, hbits, hmem]
  have hreach' : ∀ p ∈ positions.toFinset.sort, p < 64 * block.words.size := by
    intro p hp
    rw [hwords]
    exact hreach p ((hmem p).1 hp)
  refine ⟨rfl, ?_, select_eq_getElem? hsorted hbits' hreach' bits.length⟩
  rw [numOnes_eq_length hsorted hbits' hreach', Finset.length_sort]

/-- An index of a vector is read back from what is written for it in either way, by all who can tell its number of bits. -/
theorem exists_reread (h : Over bits index) (hshape : IsShape shape) (hlength : bits.length < 0x10000000000000000)
    (hwords : bits.length ≤ 64 * bits.words.size) : ∃ again, view (index.formBy shape) = some again ∧ Over bits again := by
  obtain ⟨block, hblock, hindex⟩ := h.eq_ofBlock
  have himage : IsImage (index.formBy shape) index.numBits index.block.words :=
    isImage_formBy hshape (by rw [hindex]; exact hlength)
  have hfits : index.numBits ≤ 64 * index.block.words.size := by
    rw [hindex]
    exact hblock ▸ hwords
  have hview := view_of_isImage himage
  rw [if_pos hfits] at hview
  exact ⟨_, hview, h.reread himage hview⟩

theorem decode_encode (h : Over bits index) (hshape : IsShape shape) (hlength : bits.length < 0x10000000000000000)
    (hcount : bits.words.size < 0x100000000) (rest : Bytes) :
    decode (encode (index.formBy shape) ++ rest) = some (index.formBy shape, rest) := by
  obtain ⟨block, hblock, rfl⟩ := h.eq_ofBlock
  have hcount' : block.words.size < 0x100000000 := by
    rw [hblock]
    exact hcount
  have hregular : ((ofBlock block bits.length).formBy shape).Regular (1021 + 2) := regular_formBy hshape hlength hcount'
  exact reads_readValue hregular rest

end Over

end SelectIndex

/-- Positions of a vector can be set in any order and again. Then the bits at these positions are set and no others, and every
index of the vector, however its words were passed on, finds the positions by their order and nothing behind the last. It is
read back from what was written for it, and of what is read that is accepted whose words can hold its bits. By its bytes it is
read back as far as half a word tells how many words there are, since a larger number is cut when it is written. -/
theorem BitSet.setAll_selects {length : Nat} (hlength : length < 0x10000000000000000) {positions : List Nat}
    (hpositions : ∀ p ∈ positions, p < length) :
    ∃ bits, (clear length).setAll positions = (bits, true) ∧
      (∀ p < length, bits.get? p = some (decide (p ∈ positions))) ∧
      (∀ p, bits.get? p = some true → p ∈ positions) ∧
      bits.count = positions.toFinset.card ∧
      (∀ index, SelectIndex.Over bits index → index.Lists positions length ∧ ∀ shape, IsShape shape →
        (∃ again, SelectIndex.view (index.formBy shape) = some again ∧ SelectIndex.Over bits again) ∧
          (wordsFor length < 0x100000000 → ∀ rest,
            decode (encode (index.formBy shape) ++ rest) = some (index.formBy shape, rest))) ∧
      ∀ v numBits words, SelectIndex.IsImage v numBits words → SelectIndex.view v =
        if numBits ≤ 64 * words.size then some (.ofBlock (.owned words) numBits) else none := by
  have hsize : (clear length).words.size = wordsFor length := Array.size_replicate
  have hreach : ∀ p ∈ positions, p / 64 < (clear length).words.size := by
    intro p hp
    rw [hsize]
    exact div_lt_wordsFor (hpositions p hp)
  obtain ⟨bits, hset, hsame, hwords, hbits⟩ := setAll_eq hreach
  have hlen : bits.length = length := hsame
  have hbits : ∀ p, bitAt bits.words p = true ↔ p ∈ positions := by
    intro p
    rw [hbits, clear, bitAt_replicate]
    simp
  rw [hsize] at hwords
  have hholds : length ≤ 64 * bits.words.size := by
    rw [hwords]
    exact wordsFor_mul length
  have hinside : ∀ p ∈ positions, p < 64 * bits.words.size := by
    intro p hp
    exact Nat.lt_of_lt_of_le (hpositions p hp) hholds
  refine ⟨bits, hset, ?_, ?_, ?_, ?_, fun v numBits words => SelectIndex.view_of_isImage⟩
  · intro p hp
    rw [get?_eq_some, hwords]
    refine ⟨div_lt_wordsFor hp, ?_⟩
    rw [Bool.eq_iff_iff, hbits, decide_eq_true_eq]
  · intro p hp
    exact (hbits p).1 (get?_eq_some.1 hp).2
  · have hlists : (SelectIndex.ofBits bits).Lists positions bits.length := SelectIndex.Over.ofBits.lists hbits hinside
    rw [count_eq, ← hlists.numOnes_eq]
    exact (SelectIndex.numOnes_ofBlock (.owned bits.words) bits.length).symm
  · intro index hover
    have hlength' : bits.length < 0x10000000000000000 := by
      rw [hlen]
      exact hlength
    refine ⟨hlen ▸ hover.lists hbits hinside, fun shape hshape => ⟨?_, fun hcount => ?_⟩⟩
    · exact hover.exists_reread hshape hlength' (by rw [hlen]; exact hholds)
    · exact hover.decode_encode hshape hlength' (by rw [hwords]; exact hcount)

/-- Four positions of 130 bits, one of them set twice, on both sides of the end of the first word. They are found after the
words were copied and written by places, and two words are refused for as many bits. -/
theorem BitSet.setAll_selects_across_words : ∃ bits, (clear 130).setAll [129, 0, 64, 0, 63] = (bits, true) ∧ bits.count = 4 ∧
    bits.get? 64 = some true ∧ bits.get? 65 = some false ∧
    (∃ again, SelectIndex.view ((SelectIndex.ofBlock (.owned (WordBlock.ofBytes (wordsBytes bits.words)).words) 130).formBy
      .tuple) = some again ∧ (List.range 5).map again.select = [some 0, some 63, some 64, some 129, none]) ∧
    SelectIndex.view ((SelectIndex.ofBlock (.owned #[0, 0]) 130).formBy .tuple) = none := by
  have hword : 130 < 0x10000000000000000 := by decide
  have hpositions : ∀ p ∈ [129, 0, 64, 0, 63], p < 130 := by decide
  obtain ⟨bits, hset, hget, -, hcount, hindex, hview⟩ := setAll_selects hword hpositions
  have hsort : [129, 0, 64, 0, 63].toFinset.sort = [0, 63, 64, 129] := by
    refine (Finset.sortedLT_sort _).eq_of_mem_iff (by decide) ?_
    intro p
    simp only [Finset.mem_sort, List.mem_toFinset, List.mem_cons, List.not_mem_nil, or_false]
    omega
  have hown : SelectIndex.Over bits (.ofBits bits) := .ofBits
  have hcopied := hown.ofBytes false
  rw [(hindex _ hown).1.numBits_eq] at hcopied
  obtain ⟨again, hagain, hover⟩ := ((hindex _ hcopied).2 .tuple (.inr rfl)).1
  have himage : SelectIndex.IsImage ((SelectIndex.ofBlock (.owned #[0, 0]) 130).formBy .tuple) 130 #[0, 0] :=
    SelectIndex.isImage_formBy (.inr rfl) (by decide)
  refine ⟨bits, hset, hcount, hget 64 (by decide), hget 65 (by decide), ⟨again, hagain, ?_⟩, ?_⟩
  · rw [funext (hindex _ hover).1.select_eq, hsort]
    rfl
  · rw [hview _ _ _ himage]
    rfl

end FrozenTable
