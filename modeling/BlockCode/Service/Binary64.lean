/-! Decimal numbers rounded to the nearest binary number of double precision. -/

namespace BlockCode.Binary64

/-- A quotient rounded to the nearest integer, a tie to the even one. -/
def roundDiv (num den : Nat) : Nat :=
  -- The remainder is compared with one half, doubled to stay with integers.
  let down := num / den
  let twice := 2 * (num % den)
  if twice < den || (twice = den && down % 2 = 0) then down else down + 1

/-- The binary exponent of the last place for a positive quotient: 53 places are kept, fewer only
next to zero. -/
def lastPlace (num den : Nat) : Int :=
  -- The quotient lies within a factor of two of this power, so one comparison decides.
  let guess : Int := (num.log2 : Int) - den.log2
  let fits : Bool :=
    if 0 ≤ guess then den * Nat.pow 2 guess.toNat ≤ num else den ≤ num * Nat.pow 2 (-guess).toNat
  let place := (if fits then guess else guess - 1) - 52
  if place < -1074 then -1074 else place

/-- What rounding a number gives. -/
inductive Rounded where
  /-- A whole number. -/
  | whole (value : Nat)
  /-- A number with a fraction. -/
  | fractional
  /-- A number beyond all bounds. -/
  | infinite
deriving DecidableEq, Repr

/-- Rounds a quotient. -/
def round (num den : Nat) : Rounded :=
  if num = 0 then .whole 0
  else
    let place := lastPlace num den
    -- The unit is a power of two, so that as many bits are left as fit.
    if 0 ≤ place then
      let unit := Nat.pow 2 place.toNat
      let value := roundDiv num (den * unit) * unit
      -- Beyond the largest exponent there are no numbers left.
      if value < Nat.pow 2 1024 then .whole value else .infinite
    else
      let scale := Nat.pow 2 (-place).toNat
      let units := roundDiv (num * scale) den
      -- Below the point, a multiple of the scale is still a whole number.
      if units % scale = 0 then .whole (units / scale) else .fractional

/-- Numbers with more places than this before the point are beyond all bounds, and numbers with as
many zeros behind it are zero. -/
def farAway : Nat := 400

/-- Rounds a mantissa times a power of ten. -/
def ofDecimal (mantissa : Nat) (exponent : Int) : Rounded :=
  let magnitude : Int := (toString mantissa).length + exponent
  -- Numbers that are far too small or far too large are not worked out.
  if mantissa = 0 || magnitude < -farAway then .whole 0
  else if magnitude > farAway then .infinite
  else if 0 ≤ exponent then round (mantissa * Nat.pow 10 exponent.toNat) 1
  else round mantissa (Nat.pow 10 (-exponent).toNat)

end BlockCode.Binary64
