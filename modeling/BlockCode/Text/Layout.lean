import BlockCode.Text.Point
import BlockCode.Text.Utf8

/-! Texts laid out in bytes: one, two or four bytes to a unit, told apart by their first bytes. -/

namespace BlockCode.Text

/-- Which byte of a unit comes first. -/
inductive ByteOrder where
  | bigFirst
  | littleFirst
deriving DecidableEq, Repr

/-- How a text is laid out in bytes. -/
inductive Layout where
  | utf8
  | utf16 (order : ByteOrder)
  | utf32 (order : ByteOrder)
deriving DecidableEq, Repr

namespace Layout

/-- The layouts with a byte order mark in front, and the mark. The longer marks come first, since
one of them starts with a shorter one. -/
def marks : List (List UInt8 × Layout) := [
  -- Four bytes, then two, then the mark of the layout without an order.
  ([0x00, 0x00, 0xfe, 0xff], utf32 .bigFirst),
  ([0xff, 0xfe, 0x00, 0x00], utf32 .littleFirst),
  ([0xfe, 0xff], utf16 .bigFirst),
  ([0xff, 0xfe], utf16 .littleFirst),
  ([0xef, 0xbb, 0xbf], utf8)]

/-- The layout of a text without a mark. A text starts with a character below U+0100 that is not
zero, so the zeros among the first bytes tell the layout. -/
def ofFirstBytes : List UInt8 → Layout
  | a :: b :: c :: d :: _ =>
    -- A zero in front is the high end of a unit, and the second byte tells how wide it is.
    if a = 0 then (if b = 0 then utf32 .bigFirst else utf16 .bigFirst)
    else if b = 0 then (if c = 0 ∧ d = 0 then utf32 .littleFirst else utf16 .littleFirst)
    else utf8
  -- Two bytes can only be one unit of two, or two of one.
  | [a, b] => if a = 0 then utf16 .bigFirst else if b = 0 then utf16 .littleFirst else utf8
  | _ => utf8

/-- The layout of a text, and its bytes without the mark. -/
def ofBytes (bytes : List UInt8) : Layout × List UInt8 :=
  -- A mark is not part of the text.
  match marks.find? fun entry => entry.1.isPrefixOf bytes with
  | some (mark, layout) => (layout, bytes.drop mark.length)
  | none => (ofFirstBytes bytes, bytes)

/-- The number that some bytes of a unit write. -/
def unit (order : ByteOrder) (bytes : List UInt8) : Nat :=
  -- The bytes are brought into the order in which the first one weighs most.
  let ordered := match order with
    | .bigFirst => bytes
    | .littleFirst => bytes.reverse
  ordered.foldl (fun n b => 256 * n + b.toNat) 0

/-- Cuts bytes into units of two. The units so far come latest first. -/
def units16 (order : ByteOrder) (seen : List Nat) : List UInt8 → Option (List Nat)
  -- An odd byte at the end is no unit.
  | [] => some seen.reverse
  | a :: b :: rest => units16 order (unit order [a, b] :: seen) rest
  | [_] => none

/-- Cuts bytes into units of four that are numbers of code points. The units so far come latest
first. -/
def units32 (order : ByteOrder) (seen : List Nat) : List UInt8 → Option (List Nat)
  | [] => some seen.reverse
  | a :: b :: c :: d :: rest =>
    let n := unit order [a, b, c, d]
    -- There are no code points beyond the last one, so such a unit is refused.
    if n ≤ 0x10ffff then units32 order (n :: seen) rest else none
  | _ => none

/-- The code points of a text that is laid out in a given way. -/
def decode? (layout : Layout) (bytes : List UInt8) : Option (List Point) :=
  match layout with
  -- Surrogates are joined where units have two bytes, and kept where they have four.
  | utf8 =>
    match decodeUtf8 bytes with
    | .ok cs => some (cs.map .char)
    | .error _ => none
  | utf16 order => (units16 order [] bytes).map fun units => joinPieces [] (units.map .unit)
  | utf32 order => (units32 order [] bytes).map fun units => units.map .ofNat

end Layout

/-- The code points of a text whose layout has to be found out. -/
def decode? (bytes : List UInt8) : Option (List Point) :=
  -- The mark is dropped before the bytes are decoded.
  let (layout, rest) := Layout.ofBytes bytes
  layout.decode? rest

end BlockCode.Text
