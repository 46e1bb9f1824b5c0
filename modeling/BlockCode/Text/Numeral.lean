import BlockCode.Text.Blank
import BlockCode.Text.Digit
import BlockCode.Text.Quoted

/-! Decimal numerals: integers read from text and written as text, up to a limit on their digits. -/

namespace BlockCode

/-- Why a text is not read as an integer, or an integer not written as text. -/
inductive NumeralError where
  /-- The text is no numeral. -/
  | malformed (text : String)
  /-- The text has too many digits to be read. -/
  | overlong (digits : Nat)
  /-- The integer has too many digits to be written. -/
  | unprintable
deriving DecidableEq, Repr

namespace Numeral

/-- Numerals with more digits than this are neither read nor written. -/
def maxDigits : Nat := 4300

/-- How much of a quoted text a message shows. -/
def shownText : Nat := 200

/-- The decimal text of an integer that has few enough digits. -/
def write (n : Int) : Except NumeralError String :=
  if n.natAbs < Nat.pow 10 maxDigits then .ok (toString n) else .error .unprintable

/-- Removes a sign in front, telling whether it was a minus. -/
def takeSign : List Char → Bool × List Char
  -- One sign is taken, and a second one is left to be refused.
  | '-' :: cs => (true, cs)
  | '+' :: cs => (false, cs)
  | cs => (false, cs)

/-- The digits in front of a text, with single underscores between them, and what follows.
The flag tells whether a digit stands just before; only then may the digits end or an underscore
come. -/
def takeDigits : Bool → List Char → Option (List Nat × List Char)
  | afterDigit, [] => if afterDigit then some ([], []) else none
  | afterDigit, c :: cs =>
    -- A digit of any script counts, with its value.
    match Text.digitValue? c with
    | some d => (takeDigits true cs).map fun (digits, tail) => (d :: digits, tail)
    | none =>
      -- An underscore stands between two digits, so it needs one in front and one behind.
      if !afterDigit then none
      else if c = '_' then takeDigits false cs
      else some ([], c :: cs)

/-- The number that a row of decimal digits writes. -/
def ofDigits (digits : List Nat) : Nat :=
  digits.foldl (fun n d => 10 * n + d) 0

/-- Reads an integer: white space around it, a sign, and digits with single underscores are fine. -/
def read (text : String) : Except NumeralError Int :=
  let (negative, body) := takeSign (text.toList.dropWhile Text.isSpace)
  match takeDigits false body with
  | none => .error (.malformed text)
  | some (digits, tail) =>
    -- The digits are counted before anyone looks at what follows them.
    if digits.length > maxDigits then .error (.overlong digits.length)
    else if !tail.all Text.isSpace then .error (.malformed text)
    else .ok (if negative then -(ofDigits digits : Int) else ofDigits digits)

end Numeral

/-- What a numeral error says. -/
def NumeralError.message : NumeralError → String
  | malformed text =>
    -- A text that is too long to be shown is cut off, quotes included.
    let shown := (Text.quoted text).toList.take Numeral.shownText
    s!"invalid literal for int() with base 10: {String.ofList shown}"
  | overlong digits =>
    s!"Exceeds the limit ({Numeral.maxDigits} digits) for integer string conversion: " ++
      s!"value has {digits} digits; use sys.set_int_max_str_digits() to increase the limit"
  | unprintable =>
    s!"Exceeds the limit ({Numeral.maxDigits} digits) for integer string conversion; " ++
      "use sys.set_int_max_str_digits() to increase the limit"

end BlockCode
