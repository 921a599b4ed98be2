import FrozenTable.Codec.Spec
import FrozenTable.Item.Any

/-!
# Codecs of any type

A description of a codec together with the type of its items. Such a codec is persisted by its description in full, so that it
can be found again without knowing anything about it beforehand.
-/

namespace FrozenTable

/-- A description of a codec with the type of its items. -/
structure AnyCodec where
  type : ItemType
  spec : CodecSpec type

namespace AnyCodec

instance : Inhabited AnyCodec :=
  ⟨⟨_, .unit⟩⟩

/-- The plain types by their names. -/
def plainTypes : List (String × PlainType) :=
  [PlainType.text, .long, .natural, .flag, .float, .optional, .pair, .dictionary].map fun type => (type.name, type)

/-- A description in full. -/
def describe {t : ItemType} : CodecSpec t → Msgpack.Value
  | .unit => .text "unit"
  | .long => .text "long"
  | .varLong => .text "varLong"
  | .string => .text "string"
  | .list element => .array [.text "list", describe element]
  | .packed type => .array [.text "packed", .text type.name]
  | .declaring spec line => .array [.text "declaring", describe spec, .ofOption AffineSize.form line]

/-- The codec with a given description, whose lists and declarations are nested at most `levels` deep. -/
def ofDescription? : (levels : Nat) → Msgpack.Value → Option AnyCodec
  | 0, _ => none
  | levels + 1, .array [kind, inner] => do
    match ← kind.toText? with
    | "list" => pure ⟨_, .list (← ofDescription? levels inner).spec⟩
    | "packed" => pure ⟨_, .packed (← plainTypes.lookup (← inner.toText?))⟩
    | _ => none
  | levels + 1, .array [kind, inner, line] => do
    match ← kind.toText? with
    | "declaring" => pure ⟨_, .declaring (← ofDescription? levels inner).spec (← line.toOption? AffineSize.view)⟩
    | _ => none
  | _ + 1, v => do
    match ← v.toText? with
    | "unit" => pure ⟨_, .unit⟩
    | "long" => pure ⟨_, .long⟩
    | "varLong" => pure ⟨_, .varLong⟩
    | "string" => pure ⟨_, .string⟩
    | _ => none

/-- What is done with an item of the type of the codec; other items are refused. -/
def onItem {α : Type} (c : AnyCodec) (act : c.type.Carrier → Except Fault α) (x : AnyItem) : Except Fault α :=
  match x.as? c.type with
  | some item => act item
  | none => .error .itemForeign

/-- The codec of a description. -/
def codec (c : AnyCodec) : Codec AnyItem :=
  let inner := c.spec.codec
  { pieces := c.onItem inner.pieces
    read := fun input => do
      let (item, rest) ← inner.read input
      pure (⟨c.type, item⟩, rest)
    sizeOf := c.onItem inner.sizeOf
    sizeLine := inner.sizeLine
    form := describe c.spec
    label := inner.label }

/-- Finds the codec that a form describes. -/
def find? (v : Msgpack.Value) : Option (Codec AnyItem) :=
  (ofDescription? Msgpack.maxLevels v).map codec

/-- Finds the codecs of tables with keys and values of any type. -/
def finder : CodecFinder AnyItem AnyItem :=
  ⟨find?, find?⟩

end AnyCodec

end FrozenTable
