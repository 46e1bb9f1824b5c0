import BlockCode.Machine
import Mathlib.Data.Int.Basic

/-! The laws of division. Quotients are rounded down and remainders go with the dividend, so the two
belong together only where both roundings agree. -/

namespace BlockCode

namespace Arithmetic

variable {a b q q' r r' : Int}

/-- The dividend lies between a multiple of the divisor and the next one in its direction. -/
structure Floors (a b q : Int) : Prop where
  above : 0 < b → q * b ≤ a ∧ a < (q + 1) * b
  below : b < 0 → a ≤ q * b ∧ (q + 1) * b < a

/-- What is left of the dividend is smaller than the divisor and is zero or goes with the
dividend. -/
structure Remains (a b r : Int) : Prop where
  small : r.natAbs < b.natAbs
  divides : b ∣ a - r
  signed : r = 0 ∨ r.sign = a.sign

/-- Turning both signs around does not change the quotient. -/
theorem Floors.neg (floors : Floors a b q) : Floors (-a) (-b) q := by
  obtain ⟨above, below⟩ := floors
  simp only [Int.add_mul, Int.one_mul] at above below
  -- A positive divisor becomes a negative one, and the order of the multiples is reversed.
  constructor
  · intro positive
    have := below (by omega)
    simp only [Int.add_mul, Int.mul_neg, Int.one_mul]
    omega
  · intro negative
    have := above (by omega)
    simp only [Int.add_mul, Int.mul_neg, Int.one_mul]
    omega

/-- For a positive divisor the dividend is at most one divisor away from the quotient. -/
theorem floors_of_pos (a : Int) (positive : 0 < b) : Floors a b (floorDiv a b) := by
  -- The distance is the remainder that is never negative.
  have split := Int.fmod_add_fdiv_mul a b
  have low := Int.fmod_nonneg_of_pos a positive
  have high := Int.fmod_lt_of_pos a positive
  refine ⟨fun _ => ?_, fun negative => by omega⟩
  simp only [floorDiv, Int.add_mul, Int.one_mul]
  omega

/-- The quotient rounded down lies where it should, whatever the signs. -/
theorem floors_floorDiv (a : Int) (nonzero : b ≠ 0) : Floors a b (floorDiv a b) := by
  by_cases positive : 0 < b
  · exact floors_of_pos a positive
  · -- A negative divisor is the case of the positive one with both signs turned around.
    have turned := (floors_of_pos (-a) (b := -b) (by omega)).neg
    simpa only [floorDiv, Int.neg_neg, Int.neg_fdiv_neg] using turned

/-- A multiple that does not exceed the dividend does not exceed the last such multiple. -/
theorem Floors.le_of_pos (positive : 0 < b) (first : Floors a b q) (second : Floors a b q') :
    q ≤ q' := by
  -- The first multiple is below the one that follows the second.
  apply Int.le_of_lt_add_one
  apply Int.lt_of_mul_lt_mul_right _ (Int.le_of_lt positive)
  exact Int.lt_of_le_of_lt (first.above positive).1 (second.above positive).2

/-- There is only one quotient. -/
theorem Floors.unique (nonzero : b ≠ 0) (first : Floors a b q) (second : Floors a b q') :
    q = q' := by
  -- For a negative divisor both signs are turned, which keeps the quotient.
  by_cases positive : 0 < b
  · exact Int.le_antisymm (first.le_of_pos positive second) (second.le_of_pos positive first)
  · have turned : 0 < -b := by omega
    exact Int.le_antisymm (first.neg.le_of_pos turned second.neg)
      (second.neg.le_of_pos turned first.neg)

/-- The remainder of the absolute values, put on the side of the dividend, is the one that belongs
to a quotient rounded toward zero. -/
theorem remainder_eq_tmod (a b : Int) : remainder a b = a.tmod b := by
  -- Both have the same absolute value, so only the side is left to compare.
  have size := Int.natAbs_tmod a b
  simp only [remainder]
  split
  · have side := Int.tmod_nonneg b (a := -a) (by omega)
    rw [Int.neg_tmod] at side
    omega
  · have side := Int.tmod_nonneg b (a := a) (by omega)
    omega

/-- The remainder is what it should be. -/
theorem remains_remainder (a : Int) (nonzero : b ≠ 0) : Remains a b (remainder a b) := by
  rw [remainder_eq_tmod]
  refine ⟨?_, Int.dvd_self_sub_tmod, ?_⟩
  · rw [Int.natAbs_tmod]
    exact Nat.mod_lt _ (by omega)
  · -- Only a dividend that is a multiple leaves nothing.
    have sign := Int.sign_tmod a b
    by_cases multiple : b ∣ a
    · exact .inl (Int.tmod_eq_zero_of_dvd multiple)
    · exact .inr (by rw [sign, if_neg multiple])

/-- A remainder does not lie on the other side of zero than the dividend. -/
theorem Remains.side (remains : Remains a b r) : (0 ≤ a → 0 ≤ r) ∧ (a ≤ 0 → r ≤ 0) := by
  -- A remainder of zero lies on both sides, and any other has the sign of the dividend.
  rcases remains.signed with none | same
  · omega
  · have low := Int.sign_nonneg_iff (x := r)
    have high := Int.sign_nonpos_iff (x := r)
    rw [same, Int.sign_nonneg_iff] at low
    rw [same, Int.sign_nonpos_iff] at high
    exact ⟨low.mp, high.mp⟩

/-- There is only one remainder. -/
theorem Remains.unique (first : Remains a b r) (second : Remains a b r') : r = r' := by
  -- Both lie on one side of zero, so they are less than a divisor apart.
  have close : (r - r').natAbs < b.natAbs := by
    have := first.side
    have := first.small
    have := second.side
    have := second.small
    omega
  have multiple : b ∣ r - r' := by
    have apart := Int.dvd_sub second.divides first.divides
    rwa [show a - r' - (a - r) = r - r' by omega] at apart
  have := Int.eq_zero_of_dvd_of_natAbs_lt_natAbs multiple close
  omega

/-- Numbers other than zero have the same sign if both or none of them are positive. -/
theorem sign_eq_iff (nonzero : a ≠ 0) (nonzero' : b ≠ 0) : a.sign = b.sign ↔ (0 < a ↔ 0 < b) := by
  -- The sign of the first number is known in each case, so that of the second is compared with it.
  by_cases positive : 0 < a
  · rw [Int.sign_eq_one_of_pos positive, eq_comm, Int.sign_eq_one_iff_pos]
    omega
  · have negative : a < 0 := by omega
    rw [Int.sign_eq_neg_one_of_neg negative, eq_comm, Int.sign_eq_neg_one_iff_neg]
    omega

/-- What the quotient and the remainder leave of the dividend together: nothing where both roundings
agree, and else one divisor. -/
theorem floorDiv_mul_add_remainder (a : Int) (nonzero : b ≠ 0) :
    floorDiv a b * b + remainder a b + (if b ∣ a ∨ a.sign = b.sign then 0 else b) = a := by
  -- The remainder of the quotient rounded down differs from the other one by that much.
  have split := Int.fmod_add_fdiv_mul a b
  have gap := Int.fmod_eq_tmod (a := a) (b := b)
  rw [remainder_eq_tmod, floorDiv]
  by_cases multiple : b ∣ a
  · rw [if_pos multiple] at gap
    rw [if_pos (.inl multiple)]
    omega
  · -- A dividend that is no multiple is not zero, so it lies on one side of it.
    have other : a ≠ 0 := fun zero => multiple (zero ▸ Int.dvd_zero b)
    rw [if_neg multiple] at gap
    simp only [multiple, false_or, sign_eq_iff other nonzero]
    split at gap <;> split at gap <;> split <;> omega

end Arithmetic

namespace Machine

open Arithmetic

variable {code : Code} {m : Machine} {i : Instruction} {operator : Operator} {rest : List Value}
  {a b : Int}

/-- Two numbers are joined by the operation of the instruction, the latest one on the right, unless
it is a zero that divides. -/
theorem step_joins (fetched : fetch? code m.ip = some i) (op : i.op = .binary operator)
    (operands : m.stack = some b :: some a :: rest) (nonzero : b ≠ 0) :
    m.step code = .next { m with
      ip := m.ip + 1, stack := some (apply operator a b) :: rest, steps := m.steps + 1 } := by
  -- Only a zero that divides would stop the machine.
  have divisible : ¬ (operator.divides = true ∧ some b = some (0 : Int)) := by
    simp [nonzero]
  simp only [step, fetched, execute, op, operate, operands, if_neg divisible, combine?, advance]

/-- Division by anything but zero. The quotient is the one integer whose multiple of the divisor is
the last before the dividend, counted in the direction of the divisor. The remainder is the one
integer below the divisor that differs from the dividend by a multiple and goes with its sign. The
two make up the dividend if it is a multiple or has the divisor's sign; in every other case one
divisor is missing. The machine divides the operand below the latest one by the latest one, and
gives just these two. -/
theorem division_laws (a b : Int) (nonzero : b ≠ 0) :
    ∃ q r : Int, floorDiv? a b = .ok q ∧ remainder? a b = .ok r ∧
      (∀ x, Floors a b x ↔ x = q) ∧ (∀ x, Remains a b x ↔ x = r) ∧
      (q * b + r = a ↔ b ∣ a ∨ a.sign = b.sign) ∧
      (¬ (b ∣ a ∨ a.sign = b.sign) → q * b + r + b = a) ∧
      ∀ (code : Code) (m : Machine) (i : Instruction) (rest : List Value),
        fetch? code m.ip = some i → m.stack = some b :: some a :: rest →
        (i.op = .binary .div → m.step code = .next { m with
          ip := m.ip + 1, stack := some q :: rest, steps := m.steps + 1 }) ∧
        (i.op = .binary .mod → m.step code = .next { m with
          ip := m.ip + 1, stack := some r :: rest, steps := m.steps + 1 }) := by
  have quotient := floors_floorDiv a nonzero
  have remains := remains_remainder a nonzero
  have whole := floorDiv_mul_add_remainder a nonzero
  refine ⟨floorDiv a b, remainder a b, if_neg nonzero, if_neg nonzero, ?_, ?_, ?_, ?_, ?_⟩
  · exact fun x => ⟨fun floors => floors.unique nonzero quotient, fun same => same ▸ quotient⟩
  · exact fun x => ⟨fun left => left.unique remains, fun same => same ▸ remains⟩
  · -- The missing part is zero in these cases only.
    by_cases agree : b ∣ a ∨ a.sign = b.sign
    · rw [if_pos agree] at whole
      exact iff_of_true (by omega) agree
    · rw [if_neg agree] at whole
      exact iff_of_false (by omega) agree
  · intro differ
    rwa [if_neg differ] at whole
  · intro code m i rest fetched operands
    exact ⟨fun op => step_joins fetched op operands nonzero,
      fun op => step_joins fetched op operands nonzero⟩

/-- Minus seven by two is minus four, rounded down, and leaves minus one. One divisor is missing
between the two and the dividend. -/
theorem division_laws_negative : (2 : Int) ≠ 0 ∧
    floorDiv? (-7) 2 = .ok (-4) ∧ remainder? (-7) 2 = .ok (-1) ∧
    Floors (-7) 2 (-4) ∧ Remains (-7) 2 (-1) ∧ -4 * 2 + -1 ≠ (-7 : Int) ∧
    -4 * 2 + -1 + 2 = (-7 : Int) ∧
    step #[⟨.binary .div, none, none⟩] ⟨0, [some 2, some (-7)], #[], #[], 2⟩ =
      .next ⟨1, [some (-4)], #[], #[], 3⟩ ∧
    step #[⟨.binary .mod, none, none⟩] ⟨0, [some 2, some (-7)], #[], #[], 2⟩ =
      .next ⟨1, [some (-1)], #[], #[], 3⟩ := by
  -- The quotient and the remainder are evaluated, and the laws are asked about them.
  obtain ⟨q, r, divided, left, floors, remains, whole, missing, steps⟩ :=
    division_laws (-7) 2 (by decide)
  obtain rfl : -4 = q := Except.ok.inj divided
  obtain rfl : -1 = r := Except.ok.inj left
  have differ : ¬ ((2 : Int) ∣ -7 ∨ (-7 : Int).sign = (2 : Int).sign) := by decide
  exact ⟨by decide, divided, left, (floors _).mpr rfl, (remains _).mpr rfl,
    fun same => differ (whole.mp same), missing differ,
    (steps _ _ _ _ rfl rfl).1 rfl, (steps _ _ _ _ rfl rfl).2 rfl⟩

end Machine

end BlockCode
