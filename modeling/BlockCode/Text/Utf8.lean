import BlockCode.Text.Quoted

/-! Bytes decoded as UTF-8 without tolerance, and line ends brought to one form. -/

namespace BlockCode.Text

/-- Why bytes are no UTF-8. -/
inductive Utf8Reason where
  /-- No character starts with the byte. -/
  | badStart
  /-- A byte does not continue the character before it. -/
  | badContinuation
  /-- The bytes end inside a character. -/
  | cutShort
deriving DecidableEq, Repr

/-- The first fault in a row of bytes: where the bad character starts, its first byte, and how many
of its bytes fit together. -/
structure Utf8Fault where
  start : Nat
  first : Nat
  count : Nat
  reason : Utf8Reason
deriving DecidableEq, Repr

/-- What a fault says. -/
def Utf8Fault.message (f : Utf8Fault) : String :=
  let reason := match f.reason with
    | .badStart => "invalid start byte"
    | .badContinuation => "invalid continuation byte"
    | .cutShort => "unexpected end of data"
  -- A single byte is shown, and several by their positions only.
  if f.count ≤ 1 then
    let byte := String.ofList (hexDigits 2 f.first)
    s!"'utf-8' codec can't decode byte 0x{byte} in position {f.start}: {reason}"
  else
    let last := f.start + f.count - 1
    s!"'utf-8' codec can't decode bytes in position {f.start}-{last}: {reason}"

/-- A character of which some bytes have been read. -/
structure Utf8Partial where
  start : Nat
  first : Nat
  /-- How many bytes have been read. -/
  count : Nat
  /-- How many bytes are missing. -/
  owed : Nat
  /-- The bounds of the next byte. -/
  low : Nat
  high : Nat
  /-- The code point as far as it is known. -/
  value : Nat
deriving DecidableEq, Repr

/-- What the first byte of a character tells: how many follow, the bounds of the second, and the
first bits of the code point. -/
def utf8Lead? (b : Nat) : Option (Nat × Nat × Nat × Nat) :=
  -- The bounds of the second byte keep out long forms, surrogates and what is beyond the last one.
  if b < 0x80 then some (0, 0, 0, b)
  else if 0xc2 ≤ b && b < 0xe0 then some (1, 0x80, 0xbf, b - 0xc0)
  else if b = 0xe0 then some (2, 0xa0, 0xbf, 0)
  else if b = 0xed then some (2, 0x80, 0x9f, 0xd)
  else if 0xe1 ≤ b && b < 0xf0 then some (2, 0x80, 0xbf, b - 0xe0)
  else if b = 0xf0 then some (3, 0x90, 0xbf, 0)
  else if b = 0xf4 then some (3, 0x80, 0x8f, 4)
  else if 0xf1 ≤ b && b < 0xf4 then some (3, 0x80, 0xbf, b - 0xf0)
  else none

/-- Decodes bytes from a position on, inside a character or between two. The characters decoded so
far come latest first. -/
def utf8From (position : Nat) (inside : Option Utf8Partial) (seen : List Char) :
    List UInt8 → Except Utf8Fault (List Char)
  | [] =>
    -- A character that is begun has to be finished.
    match inside with
    | none => .ok seen.reverse
    | some p => .error ⟨p.start, p.first, p.count, .cutShort⟩
  | byte :: rest =>
    let b := byte.toNat
    match inside with
    | none =>
      match utf8Lead? b with
      | none => .error ⟨position, b, 1, .badStart⟩
      | some (0, _, _, value) => utf8From (position + 1) none (Char.ofNat value :: seen) rest
      | some (owed, low, high, value) =>
        utf8From (position + 1) (some ⟨position, b, 1, owed, low, high, value⟩) seen rest
    | some p =>
      -- The fault is told with the bytes that had been fine until then.
      if b < p.low || p.high < b then .error ⟨p.start, p.first, p.count, .badContinuation⟩
      else
        let value := p.value * 0x40 + (b - 0x80)
        if p.owed ≤ 1 then utf8From (position + 1) none (Char.ofNat value :: seen) rest
        else
          -- After the second byte only the usual bounds are left.
          let p := { p with count := p.count + 1, owed := p.owed - 1, low := 0x80, high := 0xbf,
                            value := value }
          utf8From (position + 1) (some p) seen rest

/-- The characters that some bytes encode. -/
def decodeUtf8 (bytes : List UInt8) : Except Utf8Fault (List Char) :=
  utf8From 0 none [] bytes

/-- Brings every line end to a line feed: a carriage return goes, with a line feed behind it or
alone. The flag tells whether a carriage return stands just before; the characters so far come
latest first. -/
def joinLineEnds (afterReturn : Bool) (seen : List Char) : List Char → List Char
  | [] => seen.reverse
  | c :: rest =>
    -- The line feed is written for the return, and the one that may follow it is dropped.
    if c = '\r' then joinLineEnds true ('\n' :: seen) rest
    else if c = '\n' && afterReturn then joinLineEnds false seen rest
    else joinLineEnds false (c :: seen) rest

/-- A text with line feeds for all its line ends. -/
def unifyLineEnds (cs : List Char) : List Char :=
  joinLineEnds false [] cs

end BlockCode.Text
