import BlockCode.Instruction

/-! The arithmetic of the machine: exact integers, division to the floor, remainders with the sign
of the dividend, and comparisons that give one or zero. -/

namespace BlockCode.Arithmetic

/-- The quotient rounded down. -/
def floorDiv (a b : Int) : Int := a.fdiv b

/-- The remainder of the absolute values, with the sign of the dividend. -/
def remainder (a b : Int) : Int :=
  -- Both signs are dropped for the division, and one is put back.
  let r : Int := (a.natAbs % b.natAbs : Nat)
  if a < 0 then -r else r

/-- Why a division has no result. -/
inductive ZeroDivisor where
  | quotient
  | remainder
deriving DecidableEq, Repr

/-- What is said about a division by zero. -/
def ZeroDivisor.message : ZeroDivisor → String
  -- The two operations are told in words of their own.
  | quotient => "integer division or modulo by zero"
  | remainder => "integer modulo by zero"

/-- The quotient rounded down, for a divisor that may be zero. -/
def floorDiv? (a b : Int) : Except ZeroDivisor Int :=
  if b = 0 then .error .quotient else .ok (floorDiv a b)

/-- The remainder with the sign of the dividend, for a divisor that may be zero. -/
def remainder? (a b : Int) : Except ZeroDivisor Int :=
  if b = 0 then .error .remainder else .ok (remainder a b)

/-- One for true and zero for false. -/
def ofBool (b : Bool) : Int := if b then 1 else 0

/-- The result of an operation on two integers; the value of a division by zero is not used. -/
def apply : Operator → Int → Int → Int
  -- Comparisons give one or zero, so that their results can be added up.
  | .add, a, b => a + b
  | .sub, a, b => a - b
  | .mul, a, b => a * b
  | .div, a, b => floorDiv a b
  | .mod, a, b => remainder a b
  | .eq, a, b => ofBool (a = b)
  | .ne, a, b => ofBool (a ≠ b)
  | .lt, a, b => ofBool (a < b)
  | .gt, a, b => ofBool (a > b)
  | .le, a, b => ofBool (a ≤ b)
  | .ge, a, b => ofBool (a ≥ b)

end BlockCode.Arithmetic
