import BlockCode.Json
import BlockCode.Text.Numeral

/-! JSON values read from text. Values may stand inside each other up to a given depth, which is
also what makes the descent end. -/

namespace BlockCode.Json

open Text (Point Piece)

/-- Why a text is not read as a JSON value. -/
inductive ReadError where
  /-- The text is no JSON. -/
  | malformed
  /-- The text has an integer with too many digits. -/
  | overlong
  /-- The text has too many values inside each other. -/
  | tooDeep
deriving DecidableEq, Repr

/-- A way to read a part of a text: it gives what was read and what follows. -/
abbrev Reader (α : Type) := List Point → Except ReadError (α × List Point)

/-- What follows the blanks at the front. -/
def skipBlanks (ps : List Point) : List Point :=
  ps.dropWhile (·.is fun c => c == ' ' || c == '\t' || c == '\n' || c == '\r')

/-- The value of a hexadecimal digit. -/
def hexValue? (c : Char) : Option Nat :=
  -- Digits, then letters in both cases, each range counted from its first sign.
  if c.isDigit then some (c.toNat - 48)
  else if 'a' ≤ c && c ≤ 'f' then some (c.toNat - 87)
  else if 'A' ≤ c && c ≤ 'F' then some (c.toNat - 55)
  else none

/-- The number that four hexadecimal digits write. -/
def hexUnit? (a b c d : Char) : Option Nat := do
  -- The first digit weighs most.
  let a ← hexValue? a
  let b ← hexValue? b
  let c ← hexValue? c
  let d ← hexValue? d
  return ((a * 16 + b) * 16 + c) * 16 + d

/-- The character that a one-letter escape stands for. -/
def escape? : Char → Option Char
  -- The quote, the backslash and the slash stand for themselves; the others are controls.
  | '\x22' => some '\x22'
  | '\x5c' => some '\x5c'
  | '/' => some '/'
  | 'b' => some '\x08'
  | 'f' => some '\x0c'
  | 'n' => some '\n'
  | 'r' => some '\r'
  | 't' => some '\t'
  | _ => none

/-- Reads the inside of a text up to its closing quote. Only units that are written by their numbers
can become a pair. The pieces read so far come latest first. -/
def pieces (seen : List Piece) : List Point → Option (List Piece × List Point)
  | [] => none
  -- An unescaped quote closes the text.
  | .char '\x22' :: rest => some (seen.reverse, rest)
  | .char '\x5c' :: .char 'u' :: .char a :: .char b :: .char c :: .char d :: rest =>
    -- Numbered units are kept as units, since two of them may be the halves of one code point.
    match hexUnit? a b c d with
    | none => none
    | some unit => pieces (.unit unit :: seen) rest
  | .char '\x5c' :: .char c :: rest =>
    match escape? c with
    | none => none
    | some c => pieces (.point (.char c) :: seen) rest
  | p :: rest =>
    -- A backslash in front of nothing known and unescaped controls are refused.
    if p.is fun c => c == '\x5c' || c.toNat < 0x20 then none else pieces (.point p :: seen) rest

/-- Reads a text behind its opening quote. -/
def spelling : Reader Spelling := fun ps =>
  -- Halves that stand next to each other are joined only when all pieces are there.
  match pieces [] ps with
  | none => .error .malformed
  | some (found, rest) => .ok (.ofPoints (Text.joinPieces [] found), rest)

/-- The decimal digits at the front and what follows them. -/
def takeDigits (cs : List Char) : List Nat × List Char :=
  ((cs.takeWhile Char.isDigit).map fun c => c.toNat - 48, cs.dropWhile Char.isDigit)

/-- The digits of a fraction at the front, if there is one. -/
def takeFraction (cs : List Char) : List Nat × List Char :=
  match cs with
  -- A point without digits behind it is not part of the number.
  | '.' :: rest => if (takeDigits rest).1.isEmpty then ([], cs) else takeDigits rest
  | _ => ([], cs)

/-- The exponent at the front, if there is one. -/
def takeExponent? (cs : List Char) : Option (Int × List Char) :=
  match cs with
  | e :: rest =>
    if e = 'e' || e = 'E' then
      let (negative, rest) := Numeral.takeSign rest
      let (digits, rest) := takeDigits rest
      -- A letter without digits behind it is not part of the number.
      if digits.isEmpty then none
      else
        some (if negative then -(Numeral.ofDigits digits : Int) else Numeral.ofDigits digits, rest)
    else none
  | [] => none

/-- The number at the front of some characters, and the characters behind it. -/
def takeNumber (cs : List Char) : Except ReadError (Json × List Char) :=
  -- One minus may stand in front, and no plus.
  let (negative, body) := match cs with
    | '-' :: rest => (true, rest)
    | _ => (false, cs)
  -- A zero in front is the whole integer part; digits behind it are left over.
  let (digits, rest) := match body with
    | '0' :: rest => ([0], rest)
    | _ => takeDigits body
  let signed (n : Nat) : Int := if negative then -(n : Int) else n
  if digits.isEmpty then .error .malformed
  else
    let (fraction, rest) := takeFraction rest
    let mantissa := signed (Numeral.ofDigits (digits ++ fraction))
    -- An exponent or a fraction makes a number with a point, however long it is.
    match takeExponent? rest with
    | some (exponent, rest) => .ok (.decimal mantissa (exponent - fraction.length), rest)
    | none =>
      if !fraction.isEmpty then .ok (.decimal mantissa (-fraction.length), rest)
      else if digits.length > Numeral.maxDigits then .error .overlong
      else .ok (.int mantissa, rest)

/-- Characters that numbers are written with. -/
def isNumberPart (c : Char) : Bool :=
  c.isDigit || c == '-' || c == '+' || c == '.' || c == 'e' || c == 'E'

/-- Reads a number. -/
def number : Reader Json := fun ps => do
  -- Whatever could be part of a number is cut off first, and what is left over is put back.
  let front := ps.takeWhile (·.is isNumberPart)
  let (value, behind) ← takeNumber (front.map (·.shown))
  return (value, behind.map .char ++ ps.dropWhile (·.is isNumberPart))

/-- Reads items with commas between them up to a closing sign. Every item takes a code point, so
those at the start bound the loop. The items read so far come latest first. -/
def itemsUntil {α : Type} (close : Char) (item : Reader α) :
    (bound : List Point) → List α → Reader (List α)
  | [], _, _ => .error .malformed
  | _ :: bound, seen, ps => do
    let (first, rest) ← item ps
    -- The sign behind an item tells whether another one follows.
    match skipBlanks rest with
    | .char c :: rest =>
      if c = ',' then itemsUntil close item bound (first :: seen) (skipBlanks rest)
      else if c = close then .ok ((first :: seen).reverse, rest)
      else .error .malformed
    | _ => .error .malformed

/-- Reads what stands between an opening and a closing sign, behind the opening one. -/
def enclosed {α : Type} (close : Char) (item : Reader α) : Reader (List α) := fun ps =>
  match skipBlanks ps with
  | .char c :: rest =>
    -- An empty pair of signs has no items, so a comma needs one in front.
    if c = close then .ok ([], rest)
    else itemsUntil close item (.char c :: rest) [] (.char c :: rest)
  | _ => .error .malformed

/-- Reads a field of an object. -/
def field (value : Reader Json) : Reader (Spelling × Json)
  -- A name has to be a text, and the colon may have blanks on both sides.
  | .char '\x22' :: rest => do
    let (name, rest) ← spelling rest
    match skipBlanks rest with
    | .char ':' :: rest =>
      let (value, rest) ← value (skipBlanks rest)
      return ((name, value), rest)
    | _ => .error .malformed
  | _ => .error .malformed

/-- Reads a value, given how to read those inside it if there may be any. -/
def valueWith (inner : Option (Reader Json)) : Reader Json
  -- The first sign tells what comes, except for numbers, which are tried last.
  | .char '\x22' :: rest => do
    let (found, rest) ← spelling rest
    return (.text found, rest)
  | .char '[' :: rest =>
    match inner with
    -- No level is left for something inside.
    | none => .error .tooDeep
    | some inner => do
      let (items, rest) ← enclosed ']' inner rest
      return (.array items, rest)
  | .char '\x7b' :: rest =>
    match inner with
    | none => .error .tooDeep
    | some inner => do
      let (fields, rest) ← enclosed '\x7d' (field inner) rest
      return (.object fields, rest)
  | .char 'n' :: .char 'u' :: .char 'l' :: .char 'l' :: rest => .ok (.null, rest)
  | .char 't' :: .char 'r' :: .char 'u' :: .char 'e' :: rest => .ok (.bool true, rest)
  | .char 'f' :: .char 'a' :: .char 'l' :: .char 's' :: .char 'e' :: rest => .ok (.bool false, rest)
  | ps => number ps

/-- Reads a value with a number of levels left. -/
def value : (room : Nat) → Reader Json
  -- The levels are counted down from the outside.
  | 0 => valueWith none
  | room + 1 => valueWith (some (value room))

/-- The value that a whole text writes, with a bound on its depth. -/
def read (room : Nat) (points : List Point) : Except ReadError Json := do
  let (result, rest) ← value room (skipBlanks points)
  -- Nothing but blanks may follow the value.
  if (skipBlanks rest).isEmpty then return result else .error .malformed

/-- The value that a whole text writes; no text is deeper than it is long. -/
def ofText (text : String) : Except ReadError Json :=
  read text.length (text.toList.map .char)

end BlockCode.Json
