import BlockCode.Text.Blank
import BlockCode.Text.Numeral

/-! Integers in texts that need not be in their shortest form. -/

namespace BlockCode.LooseInteger

/-- Why a text is not read as an integer. -/
inductive Fault where
  | malformed
  /-- The text has too many digits. -/
  | overlong
deriving DecidableEq, Repr

/-- Reads an integer in its shortest form: no sign but a minus, and no zero in front of a digit. The
digits are counted before anyone looks at what follows them. -/
def strict (cs : List Char) : Except Fault Int :=
  -- One minus may stand in front, and no plus.
  let (negative, body) := match cs with
    | '-' :: rest => (true, rest)
    | _ => (false, cs)
  let digits := body.takeWhile Char.isDigit
  let value : Int := Numeral.ofDigits (digits.map fun c => c.toNat - 48)
  -- A zero is written by a single digit, whatever its sign.
  if digits.head? = some '0' then (if body.length = 1 then .ok 0 else .error .malformed)
  -- Too many digits are told as such, also if what follows them is no number.
  else if digits.length > Numeral.maxDigits then .error .overlong
  else if digits.isEmpty || digits.length < body.length then .error .malformed
  else .ok (if negative then -value else value)

/-- Drops the zeros in front of a number whose first zeros have been read, the last sign of them
given. Underscores go with the zeros, and a minus may stand behind them; a zero before a point
stays. -/
def dropMoreZeros (last : Char) : List Char → Option (List Char)
  | [] => some [last]
  | c :: rest =>
    -- Zeros and underscores are dropped until something else comes.
    if c = '0' || c = '_' then dropMoreZeros c rest
    else if c.isDigit || c = '-' then some (c :: rest)
    -- A zero in front of a point is needed there, so the last one is put back.
    else if c = '.' then some (last :: c :: rest)
    else none

/-- Drops the zeros in front of a number, which has to start with a digit. -/
def dropZeros : List Char → Option (List Char)
  | [] => none
  | c :: rest =>
    -- Without a zero in front there is nothing to drop.
    if c = '0' then dropMoreZeros c rest else if c.isDigit then some (c :: rest) else none

/-- Drops a point with nothing but zeros behind it, of which there has to be one. -/
def dropFraction (cs : List Char) : List Char :=
  match cs.dropWhile (· != '.') with
  | _ :: zero :: zeros =>
    -- Another digit behind the point makes a fraction, which is kept and refused later.
    if (zero :: zeros).all (· == '0') then cs.takeWhile (· != '.') else cs
  | _ => cs

/-- Drops underscores, if each stands alone and inside. -/
def dropUnderscores (cs : List Char) : List Char :=
  -- An underscore has to have a digit on both sides.
  let doubled := (cs.zip cs.tail).any (· == ('_', '_'))
  if cs.head? = some '_' || cs.getLast? = some '_' || doubled then cs else cs.filter (· != '_')

/-- Brings a number without sign to its shortest form. -/
def tidyBody (cs : List Char) : Option (List Char) :=
  (dropZeros cs).map fun cs => dropUnderscores (dropFraction cs)

/-- Brings a number to its shortest form. -/
def tidy (cs : List Char) : Option (List Char) :=
  match Text.trim Text.isSpace cs with
  -- The sign is kept apart while zeros are dropped behind it.
  | '-' :: body => (tidyBody body).map ('-' :: ·)
  | '+' :: body => tidyBody body
  | body => tidyBody body

/-- Reads an integer: white space around it, a sign, zeros in front, single underscores, and a point
with zeros behind it are fine. -/
def read (text : String) : Except Fault Int :=
  -- The shortest form is tried first, and only a malformed text is looked at again.
  match strict text.toList with
  | .error .malformed =>
    match tidy text.toList with
    | none => .error .malformed
    | some cs => strict cs
  | result => result

end BlockCode.LooseInteger
