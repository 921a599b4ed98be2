import FrozenTable.Text.Unprintable

/-!
# Texts inside messages

How values are spelled inside messages: a text stands in double quotes with its unprintable characters spelled out, a record
is its name followed by its fields, and numbers may be padded hexadecimal.
-/

namespace FrozenTable.Text

/-- The lower-case hexadecimal digits of a number. -/
def hex (n : Nat) : String :=
  String.ofList (Nat.toDigits 16 n)

/-- The hexadecimal digits of a number after `0x`, with zeros in front up to `digits` digits. -/
def hexPadded (digits n : Nat) : String :=
  let body := hex n
  "0x" ++ "".pushn '0' (digits - body.length) ++ body

/-- One character of a quoted text. -/
def quoteChar (c : Char) : String :=
  if c = '"' then "\\\""
  else if c = '\\' then "\\\\"
  else if c = '\t' then "\\t"
  else if c = '\n' then "\\n"
  else if c = '\r' then "\\r"
  else if c = '\x00' then "\\0"
  else if isUnprintable c then "\\u\x7b" ++ hex c.toNat ++ "\x7d"
  else String.singleton c

/-- A text in double quotes. -/
def quote (text : String) : String :=
  "\"" ++ String.join (text.toList.map quoteChar) ++ "\""

/-- A truth value. -/
def ofBool (b : Bool) : String :=
  if b then "true" else "false"

/-- A value that may be absent. -/
def ofOption {α : Type} (text : α → String) : Option α → String
  | none => "None"
  | some x => "Some(" ++ text x ++ ")"

/-- A sequence in square brackets. -/
def ofList {α : Type} (text : α → String) (items : List α) : String :=
  "[" ++ ", ".intercalate (items.map text) ++ "]"

/-- A dictionary in braces. -/
def ofPairs {α : Type} (text : α → String) (entries : List (String × α)) : String :=
  "\x7b" ++ ", ".intercalate (entries.map fun (key, x) => quote key ++ ": " ++ text x) ++ "\x7d"

/-- A record: its name, and its fields in braces. -/
def ofFields (name : String) (fields : List (String × String)) : String :=
  name ++ " \x7b " ++ ", ".intercalate (fields.map fun (field, text) => field ++ ": " ++ text) ++ " \x7d"

/-- A quote and a line end are escaped; an apostrophe is not. -/
example : quote "b\"q\n'" = "\"b\\\"q\\n'\"" := by decide +kernel

end FrozenTable.Text
