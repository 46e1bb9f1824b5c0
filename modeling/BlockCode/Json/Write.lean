import BlockCode.Json
import BlockCode.Text.Quoted

/-! JSON values written as text. -/

namespace BlockCode.Json

/-- A unit of sixteen bits by its number. -/
def numbered (unit : Nat) : List Char :=
  '\x5c' :: 'u' :: Text.hexDigits 4 unit

/-- One character inside a JSON text. -/
def escaped (c : Char) : List Char :=
  -- Signs that would end the text are escaped by themselves, and controls by their numbers.
  if c = '\x22' || c = '\x5c' then ['\x5c', c]
  else if c.toNat < 0x20 then numbered c.toNat
  else [c]

/-- One code point inside a JSON text. -/
def escapedPoint : Text.Point → List Char
  -- A lone surrogate is no character and can only be written by its number.
  | .char c => escaped c
  | .lone unit => numbered unit

/-- A spelling between double quotes. -/
def quote : Spelling → String
  -- The quotes are put around what has been escaped.
  | .text value => String.ofList ('\x22' :: value.toList.flatMap escaped ++ ['\x22'])
  | .illFormed points => String.ofList ('\x22' :: points.flatMap escapedPoint ++ ['\x22'])

mutual

/-- Writes a value behind what is written already. -/
def writeTo (out : String) : Json → String
  -- The text so far is passed along, so that nothing is written twice.
  | .null => out ++ "null"
  | .bool true => out ++ "true"
  | .bool false => out ++ "false"
  | .int value => out ++ toString value
  | .decimal mantissa exponent => out ++ toString mantissa ++ "e" ++ toString exponent
  | .text value => out ++ quote value
  | .array items => writeItems (out ++ "[") items ++ "]"
  | .object fields => writeFields (out ++ "\x7b") fields ++ "\x7d"

/-- Writes the items of an array. -/
def writeItems (out : String) : List Json → String
  | [] => out
  -- Only between two items there is a comma.
  | [item] => writeTo out item
  | item :: items => writeItems (writeTo out item ++ ",") items

/-- Writes the fields of an object. -/
def writeFields (out : String) : List (Spelling × Json) → String
  | [] => out
  -- A name is quoted like a text.
  | [(name, value)] => writeTo (out ++ quote name ++ ":") value
  | (name, value) :: fields => writeFields (writeTo (out ++ quote name ++ ":") value ++ ",") fields

end

/-- The text of a value. -/
def write (value : Json) : String :=
  writeTo "" value

end BlockCode.Json
