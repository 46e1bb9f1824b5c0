/-! White space of all scripts and the trimming of texts. -/

namespace BlockCode.Text

/-- Characters with the white-space property. -/
def isSpace (c : Char) : Bool :=
  let n := c.toNat
  -- The ranges and single characters in the order of their numbers.
  (0x09 ≤ n && n ≤ 0x0d) || n == 0x20 || n == 0x85 || n == 0xa0 || n == 0x1680 ||
    (0x2000 ≤ n && n ≤ 0x200a) || n == 0x2028 || n == 0x2029 || n == 0x202f || n == 0x205f ||
    n == 0x3000

/-- White space together with the four information separators. -/
def isBlank (c : Char) : Bool :=
  isSpace c || (0x1c ≤ c.toNat && c.toNat ≤ 0x1f)

/-- Drops the characters of one class from the end of a list. -/
def dropEnd (p : Char → Bool) (cs : List Char) : List Char :=
  (cs.reverse.dropWhile p).reverse

/-- Drops the characters of one class from both ends of a list. -/
def trim (p : Char → Bool) (cs : List Char) : List Char :=
  dropEnd p (cs.dropWhile p)

/-- Drops the blanks at the end of a text. -/
def trimEnd (s : String) : String :=
  String.ofList (dropEnd isBlank s.toList)

/-- Widens a text with blanks on the right; a text that is wide enough stays as it is. -/
def padRight (width : Nat) (s : String) : String :=
  s ++ String.ofList (List.replicate (width - s.length) ' ')

end BlockCode.Text
