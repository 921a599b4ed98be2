import FrozenTable.Entry
import FrozenTable.Settings.Basic

/-!
# Records

A record is what a table keeps of an entry: the bytes of its key, unless keys are dropped, and behind them the bytes of its
value, if there are values.
-/

namespace FrozenTable

namespace Settings

variable {κ ν : Type}

/-- The codec of the keys. -/
def needKeyCodec (s : Settings κ ν) : Except Fault (Codec κ) :=
  match s.keyCodec with
  | some codec => .ok codec
  | none => .error .keyCodecMissing

/-- The pieces in which a key is written for hashing. -/
def keyPieces (s : Settings κ ν) (key : κ) : Except Fault (List Bytes) := do
  (← s.needKeyCodec).pieces key

/-- The bytes of a key as they are hashed. -/
def keyBytes (s : Settings κ ν) (key : κ) : Except Fault Bytes := do
  (← s.needKeyCodec).write key

/-- The size of a record, as far as the codecs know it. -/
def recordSize (s : Settings κ ν) (entry : Entry κ ν) : Except Fault Nat := do
  let keySize ← if s.storesKeys then do (← s.needKeyCodec).sizeOf entry.key else pure 0
  let valueSize ← match s.valueCodec, entry.value with
    | some codec, some value => codec.sizeOf value
    | _, _ => pure 0
  pure (keySize + valueSize)

/-- The bytes of a record. -/
def record (s : Settings κ ν) (entry : Entry κ ν) : Except Fault Bytes := do
  let key ← if s.storesKeys then s.keyBytes entry.key else pure []
  let value ← match s.valueCodec, entry.value with
    | some codec, some value => codec.write value
    | _, _ => pure []
  pure (key ++ value)

/-- Reads the key in front of a record, if records carry keys. -/
def readKey (s : Settings κ ν) (input : Bytes) : Except Fault (Option κ × Bytes) :=
  if s.storesKeys then do
    let (key, rest) ← (← s.needKeyCodec).read input
    pure (some key, rest)
  else pure (none, input)

/-- Reads the value of a record, if records have values. -/
def readValue (s : Settings κ ν) (input : Bytes) : Except Fault (Option ν × Bytes) :=
  match s.valueCodec with
  | some codec => do
    let (value, rest) ← codec.read input
    pure (some value, rest)
  | none => pure (none, input)

end Settings

end FrozenTable
