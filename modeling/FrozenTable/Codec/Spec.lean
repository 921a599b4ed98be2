import FrozenTable.Codec.Basic
import FrozenTable.Item.Basic
import FrozenTable.Settings.Image

/-!
# Descriptions of codecs

The codecs of this library as data, indexed by the type of their items. A description determines a codec, and `recover` reads
a description back from the form in which the codec was persisted, among the descriptions of the same shape.
-/

namespace FrozenTable

/-- A description of a codec for the items of a type. -/
inductive CodecSpec : ItemType → Type where
  | unit : CodecSpec .unit
  | long : CodecSpec (.plain .long)
  | varLong : CodecSpec (.plain .long)
  | string : CodecSpec (.plain .text)
  | list {t : ItemType} (element : CodecSpec t) : CodecSpec (.list t)
  | packed (type : PlainType) : CodecSpec (.plain type)
  | declaring {t : ItemType} (codec : CodecSpec t) (line : Option AffineSize) : CodecSpec t

/-- The name of an item type with a MessagePack form. -/
def PlainType.name : PlainType → String
  | text => "Text"
  | long => "Long"
  | natural => "Natural"
  | flag => "Flag"
  | float => "Float"
  | optional => "Optional"
  | pair => "Pair"
  | dictionary => "Dictionary"

namespace CodecSpec

/-- The codec of a description. -/
def codec {t : ItemType} : CodecSpec t → Codec t.Carrier
  | unit => .unit
  | long => .long
  | varLong => .varLong
  | string => .string
  | list element => Codec.list element.codec
  | packed type => .packed type.form type.view type.name
  | declaring spec line => spec.codec.declaring line

/-- The line of a persisted description, which may be absent. -/
def lineOf (v : Msgpack.Value) : Option (Option AffineSize) :=
  v.toOption? fun v => do
    match ← v.toItems? with
    | [slope, constant] => pure ⟨← slope.toSigned?, ← constant.toSigned?⟩
    | _ => none

/-- The description of the same shape with a given persisted form. -/
def recover {t : ItemType} : CodecSpec t → Msgpack.Value → Option (CodecSpec t)
  | unit, v => v.toUnit?.map fun _ => unit
  | long, v => v.toUnit?.map fun _ => long
  | varLong, v => v.toUnit?.map fun _ => varLong
  | string, v => v.toUnit?.map fun _ => string
  | list element, v => do
    match ← v.toFields? ["element"] with
    | [some inner] => pure (list (← element.recover inner))
    | _ => none
  | packed type, v => do
    let _ ← v.toFields? []
    pure (packed type)
  | declaring spec _, v => do
    match ← v.toFields? ["codec", "line"] with
    | [some inner, line] => pure (declaring (← spec.recover inner) (← Msgpack.Value.required lineOf line))
    | _ => none

/-- Finds the codecs of the same shape as two given ones. -/
def finder {t u : ItemType} (key : CodecSpec t) (value : CodecSpec u) : CodecFinder t.Carrier u.Carrier where
  key v := (key.recover v).map codec
  value v := (value.recover v).map codec

end CodecSpec

end FrozenTable
