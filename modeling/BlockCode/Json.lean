import BlockCode.Text.Point

/-! JSON values. -/

namespace BlockCode

/-- What stands between two quotes: a text, or code points that are none because a surrogate is
alone. -/
inductive Spelling where
  | text (value : String)
  | illFormed (points : List Text.Point)
deriving DecidableEq, Repr

namespace Spelling

instance : Coe String Spelling := ⟨text⟩

/-- What some code points spell. -/
def ofPoints (points : List Text.Point) : Spelling :=
  -- One lone surrogate is enough to make it no text.
  if points.all (·.is fun _ => true) then text (String.ofList (points.map (·.shown)))
  else illFormed points

/-- Tells whether a spelling is a text. -/
def isText : Spelling → Bool
  -- What is ill-formed stays readable, but is refused where a text is asked for.
  | text _ => true
  | illFormed _ => false

/-- A spelling as a text, with replacement characters for lone surrogates. -/
def shown : Spelling → String
  -- What is shown is for messages and for reading on, never for writing back.
  | text value => value
  | illFormed points => String.ofList (points.map (·.shown))

end Spelling

/-- A JSON value. -/
inductive Json where
  | null
  | bool (value : Bool)
  /-- A number written without fraction and exponent. -/
  | int (value : Int)
  /-- Any other number: a mantissa times a power of ten. -/
  | decimal (mantissa exponent : Int)
  | text (value : Spelling)
  | array (items : List Json)
  | object (fields : List (Spelling × Json))
deriving Repr

namespace Json

/-- The field of an object with a given name; of repeated fields the last one counts. -/
def field? (name : String) : List (Spelling × Json) → Option Json
  | [] => none
  | (key, value) :: fields =>
    -- The fields behind are asked first, so that the last one of a name wins.
    (field? name fields).or (if key = .text name then some value else none)

/-- A text, or null. -/
def ofText? : Option String → Json
  -- Nothing is written as null, so that the field is there in any case.
  | none => null
  | some s => text s

/-- An integer, or null. -/
def ofInt? : Option Int → Json
  -- As for a text: the field is there in any case.
  | none => null
  | some n => int n

/-- A natural number. -/
def nat (n : Nat) : Json := int n

/-- Some texts. -/
def texts (lines : List String) : Json := array (lines.map fun line : String => text line)

end Json

end BlockCode
