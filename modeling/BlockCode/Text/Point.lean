/-! Code points of texts that may be ill formed: characters, and surrogates that stand alone. -/

namespace BlockCode.Text

/-- The first half of a surrogate pair. -/
def isHigh (unit : Nat) : Bool := 0xd800 ≤ unit && unit < 0xdc00

/-- The second half of a surrogate pair. -/
def isLow (unit : Nat) : Bool := 0xdc00 ≤ unit && unit < 0xe000

/-- The character that a surrogate pair stands for. -/
def joinPair (high low : Nat) : Char :=
  Char.ofNat (0x10000 + (high - 0xd800) * 0x400 + (low - 0xdc00))

/-- A code point. -/
inductive Point where
  | char (c : Char)
  /-- A surrogate without its partner. -/
  | lone (unit : Nat)
deriving DecidableEq, Repr

namespace Point

/-- The code point with a given number. -/
def ofNat (n : Nat) : Point :=
  if isHigh n || isLow n then lone n else char (Char.ofNat n)

/-- Tells whether a code point is a character of some class. -/
def is (p : Char → Bool) : Point → Bool
  -- A lone surrogate is in no class.
  | char c => p c
  | lone _ => false

/-- A code point as a character; a lone surrogate is shown by the replacement character. -/
def shown : Point → Char
  -- It has to be shown by something that is a character.
  | char c => c
  | lone _ => '\ufffd'

end Point

/-- A piece of a text before its surrogates are paired. -/
inductive Piece where
  /-- A code point that stands for itself. -/
  | point (p : Point)
  /-- A unit of sixteen bits, which may be half of a pair. -/
  | unit (n : Nat)
deriving DecidableEq, Repr

/-- Pairs the units that stand next to each other. The code points so far come latest first. -/
def joinPieces (seen : List Point) : List Piece → List Point
  | [] => seen.reverse
  | .point p :: rest => joinPieces (p :: seen) rest
  | .unit high :: .unit low :: rest =>
    -- Only a high half with a low one behind it makes a pair; a low one may begin the next.
    if isHigh high && isLow low then joinPieces (.char (joinPair high low) :: seen) rest
    else joinPieces (.ofNat high :: seen) (.unit low :: rest)
  | .unit n :: rest => joinPieces (.ofNat n :: seen) rest

end BlockCode.Text
