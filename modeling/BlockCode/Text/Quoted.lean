import BlockCode.Text.Printable

/-! Texts quoted for messages, with escapes for what cannot be shown. -/

namespace BlockCode.Text

/-- The lowest hexadecimal digits of a number, as many as asked for. -/
def hexDigits : Nat → Nat → List Char
  | 0, _ => []
  -- The last digit is taken off and put behind the others.
  | width + 1, n => hexDigits width (n / 16) ++ [Nat.digitChar (n % 16)]

/-- The mark around a quoted text: the single quote, unless the text has one and no double quote. -/
def quoteMark (cs : List Char) : Char :=
  if cs.contains '\x27' && !cs.contains '\x22' then '\x22' else '\x27'

/-- One character of a quoted text. -/
def quoteChar (mark c : Char) : List Char :=
  if c = mark || c = '\x5c' then ['\x5c', c]
  else if c = '\n' then ['\x5c', 'n']
  else if c = '\r' then ['\x5c', 'r']
  else if c = '\t' then ['\x5c', 't']
  else if isPrintable c then [c]
  -- The escape is as short as the code point allows.
  else if c.toNat < 0x100 then '\x5c' :: 'x' :: hexDigits 2 c.toNat
  else if c.toNat < 0x10000 then '\x5c' :: 'u' :: hexDigits 4 c.toNat
  else '\x5c' :: 'U' :: hexDigits 8 c.toNat

/-- A text between quotes, as messages show it. -/
def quoted (s : String) : String :=
  -- The mark is chosen first, since it has to be escaped inside.
  let mark := quoteMark s.toList
  String.ofList (mark :: s.toList.flatMap (quoteChar mark) ++ [mark])

end BlockCode.Text
