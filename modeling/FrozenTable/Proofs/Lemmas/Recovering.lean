import FrozenTable.Codec.Spec
import FrozenTable.Proofs.Lemmas.Persisting

/-!
# Codecs are found again by their descriptions

The persisted form of a codec of this library tells what its description leaves open to those who know its shape. So a reader
that looks for codecs of the right shapes finds the ones of the table (`CodecSpec.knows_finder`), however deep they are nested.
-/

namespace FrozenTable

open Msgpack

namespace CodecSpec

/-- The lines that a description declares are told by signed words. -/
def Signed : {t : ItemType} → CodecSpec t → Prop
  | _, unit => True
  | _, long => True
  | _, varLong => True
  | _, string => True
  | _, list element => element.Signed
  | _, packed _ => True
  | _, declaring spec line => spec.Signed ∧ ∀ e ∈ line, Word64.IsSigned e.slope ∧ Word64.IsSigned e.constant

/-- A declared line is read back. -/
theorem lineOf_form {line : Option AffineSize} (h : ∀ e ∈ line, Word64.IsSigned e.slope ∧ Word64.IsSigned e.constant) :
    lineOf (.ofOption (fun e => .array [.int e.slope, .int e.constant]) line) = some line := by
  cases line with
  | none => rfl
  | some e =>
    obtain ⟨hslope, hconstant⟩ := h e rfl
    have hitems : (Value.array [.int e.slope, .int e.constant]).toItems? = some [.int e.slope, .int e.constant] := rfl
    rw [lineOf, Value.ofOption, Value.toOption?]
    · simp only [hitems, bind, Option.bind, Value.toSigned?_int hslope, Value.toSigned?_int hconstant]
      rfl
    · rintro ⟨⟩

/-- No codec looks absent. -/
theorem form_ne_nil {t : ItemType} (spec : CodecSpec t) : spec.codec.form ≠ .nil := by
  cases spec <;> exact nofun

/-- A description is read back from the form of its codec, by any description of the same shape. -/
theorem recover_form {t : ItemType} {spec : CodecSpec t} (h : spec.Signed) : spec.recover spec.codec.form = some spec := by
  induction spec with
  | unit | long | varLong | string => rfl
  | list element ih =>
    have hfields : (list element).codec.form.toFields? ["element"] = some [some element.codec.form] :=
      Value.toFields?_record [element.codec.form] (by decide) rfl
    rw [recover, hfields]
    simp only [bind, Option.bind, ih h]
    rfl
  | packed type => rfl
  | declaring spec line ih =>
    obtain ⟨hspec, hline⟩ := h
    have hfields : (declaring spec line).codec.form.toFields? ["codec", "line"] =
        some [some spec.codec.form, some (.ofOption (fun e => .array [.int e.slope, .int e.constant]) line)] :=
      Value.toFields?_record [spec.codec.form, _] (by decide) rfl
    rw [recover, hfields]
    simp only [bind, Option.bind, ih hspec, Value.required, lineOf_form hline]
    rfl

/-- The codecs of settings, as far as they have any, are those of two descriptions. -/
structure Describe {t u : ItemType} (key : CodecSpec t) (value : CodecSpec u) (s : Settings t.Carrier u.Carrier) : Prop where
  key : ∀ codec, s.keyCodec = some codec → codec = key.codec
  value : ∀ codec, s.valueCodec = some codec → codec = value.codec

/-- Codecs are known to those who look for codecs of their shapes. -/
theorem knows_finder {t u : ItemType} {key : CodecSpec t} {value : CodecSpec u} (hkey : key.Signed) (hvalue : value.Signed)
    {s : Settings t.Carrier u.Carrier} (h : Describe key value s) : (finder key value).Knows s := by
  constructor
  · intro codec hcodec
    obtain rfl := h.key codec hcodec
    exact ⟨key.form_ne_nil, congrArg (Option.map codec) (recover_form hkey)⟩
  · intro codec hcodec
    obtain rfl := h.value codec hcodec
    exact ⟨value.form_ne_nil, congrArg (Option.map codec) (recover_form hvalue)⟩

end CodecSpec

end FrozenTable
