import BlockCode.Proofs.Compilation
import BlockCode.Proofs.Machine.Division
import BlockCode.Proofs.Machine.Effect
import BlockCode.Proofs.Machine.Walk

/-! Single instructions of the machine, seen from an evaluation: what each of them does to a state
that stands for a point of the evaluation. -/

namespace BlockCode

open Machine

/-- The operation of an operator gives what the operator means, except where a zero divides. -/
theorem Kind.operate_eq {kind : Kind} {op : Operator} (known : Operator.ofKind? kind = some op)
    (a b : Int) : kind.operate a b =
      if op.divides ∧ b = 0 then .error .zeroDivisor else .ok (Arithmetic.apply op a b) := by
  -- Every kind with an opcode is looked at; two of them divide.
  cases kind <;> cases known <;>
    simp [Kind.operate, Operator.divides, Arithmetic.apply, Arithmetic.ofBool,
      Arithmetic.floorDiv, Arithmetic.remainder_eq_tmod]

/-- A state of the machine stands for a point of an evaluation: it is at an address, has some
numbers on its stack, holds the cells in their slots, and has printed the same. -/
structure Stands (cells : List Int) (resolution : Resolution) (address : Nat) (stack : List Int)
    (s : Evaluation) (m : Machine) : Prop where
  ip : m.ip = address
  stack : m.stack = stack.map some
  slots : ∀ id ∈ cells, ∀ slot : Nat, resolution[id]? = some (slot : Int) →
    content m.slots slot = some (s.cells id)
  output : m.output.toList = s.printed

namespace Stands

variable {code : Code} {cells : List Int} {resolution : Resolution} {address : Nat}
variable {stack : List Int} {s : Evaluation} {m : Machine} {a b : Int}

/-- A number is pushed. -/
theorem push (stands : Stands cells resolution address stack s m)
    (there : code.At address .push (some a)) :
    ∃ m', Walks code 1 m m' ∧ Stands cells resolution (address + 1) (a :: stack) s m' := by
  -- The state behind the step is the one that the machine comes to, with the number on top.
  refine ⟨_, .single (ip_lt_size there stands.ip) (step_push there stands.ip), ?_⟩
  exact ⟨by simp [stands.ip], by simp [stands.stack], stands.slots, stands.output⟩

/-- A jump leads to its target. -/
theorem jump {target : Nat} (stands : Stands cells resolution address stack s m)
    (there : code.At address .jump (some (target : Int))) :
    ∃ m', Walks code 1 m m' ∧ Stands cells resolution target stack s m' := by
  -- Nothing but the address changes.
  refine ⟨_, .single (ip_lt_size there stands.ip) (step_jump there stands.ip), ?_⟩
  exact ⟨rfl, stands.stack, stands.slots, stands.output⟩

/-- A conditional jump takes a number from the stack and leads to its target if that is zero. -/
theorem jumpIfFalse {target : Nat} (stands : Stands cells resolution address (a :: stack) s m)
    (there : code.At address .jumpIfFalse (some (target : Int))) :
    ∃ m', Walks code 1 m m' ∧
      Stands cells resolution (if a = 0 then target else address + 1) stack s m' := by
  have stepped := step_jumpIfFalse there stands.ip stands.stack
  refine ⟨_, .single (ip_lt_size there stands.ip) stepped, ?_, rfl, stands.slots, stands.output⟩
  -- Both sides look at the same number.
  simp only [stands.ip]
  split <;> rfl

/-- The two latest numbers are joined. -/
theorem operate {kind : Kind} {op : Operator} {value : Int}
    (stands : Stands cells resolution address (b :: a :: stack) s m)
    (there : code.At address (.binary op) none) (known : Operator.ofKind? kind = some op)
    (operated : kind.operate a b = .ok value) :
    ∃ m', Walks code 1 m m' ∧ Stands cells resolution (address + 1) (value :: stack) s m' := by
  have stepped := step_binary there stands.ip stands.stack
  -- The evaluation has a value only where the machine goes on.
  rw [Kind.operate_eq known] at operated
  split at operated
  · cases operated
  · rename_i divisible
    cases operated
    rw [if_neg divisible] at stepped
    refine ⟨_, .single (ip_lt_size there stands.ip) stepped, ?_⟩
    exact ⟨by simp [stands.ip], rfl, stands.slots, stands.output⟩

/-- A division by zero ends the run with a line about it. -/
theorem operate_stops {kind : Kind} {op : Operator} {trouble : Trouble}
    (stands : Stands cells resolution address (b :: a :: stack) s m)
    (there : code.At address (.binary op) none) (known : Operator.ofKind? kind = some op)
    (failed : kind.operate a b = .error trouble) :
    trouble = .zeroDivisor ∧ ∃ m', Stops code m m' .divisionByZero ∧
      m'.output.toList = s.printed ++ [divisionLine] := by
  have stepped := step_binary there stands.ip stands.stack
  -- A known operator fails in no other way.
  rw [Kind.operate_eq known] at failed
  split at failed
  · rename_i divided
    cases failed
    rw [if_pos divided] at stepped
    exact ⟨rfl, _, ⟨ip_lt_size there stands.ip, stepped⟩, by simp [stands.output]⟩
  · cases failed

/-- A number is printed. -/
theorem print (stands : Stands cells resolution address (a :: stack) s m)
    (there : code.At address .print none)
    (short : (Nat.digits 10 a.natAbs).length ≤ Numeral.maxDigits) :
    ∃ m', Walks code 1 m m' ∧ Stands cells resolution (address + 1) stack (s.print a) m' := by
  -- The number is short enough, so its text is printed.
  have stepped := step_print there stands.ip stands.stack
  rw [if_pos short] at stepped
  refine ⟨_, .single (ip_lt_size there stands.ip) stepped, ?_⟩
  exact ⟨by simp [stands.ip], rfl, stands.slots, by simp [stands.output, Evaluation.print]⟩

/-- A number with too many digits ends the run. -/
theorem print_stops (stands : Stands cells resolution address (a :: stack) s m)
    (there : code.At address .print none)
    (long : ¬ (Nat.digits 10 a.natAbs).length ≤ Numeral.maxDigits) :
    ∃ m', Stops code m m' (.fault (.numeral .unprintable)) ∧ m'.output.toList = s.printed := by
  -- The number is too long, so the step stops with the output as it was.
  have stepped := step_print there stands.ip stands.stack
  rw [if_neg long] at stepped
  exact ⟨_, ⟨ip_lt_size there stands.ip, stepped⟩, stands.output⟩

/-- A halt ends the run. -/
theorem halt (stands : Stands cells resolution address stack s m)
    (there : code.At address .halt none) :
    ∃ m', Stops code m m' .halted ∧ m'.output.toList = s.printed :=
  ⟨_, ⟨ip_lt_size there stands.ip, step_halt there stands.ip⟩, stands.output⟩

section Cells

variable {places : List Occurrence} {owner : Int → Option Int} {id slot : Int}

/-- A cell is loaded from its slot. -/
theorem load {count : Nat} (links : Links count cells places resolution owner)
    (stands : Stands cells resolution address stack s m)
    (there : code.At address .load (some slot)) (member : id ∈ cells)
    (known : resolution[id]? = some slot) :
    ∃ m', Walks code 1 m m' ∧
      Stands cells resolution (address + 1) (s.cells id :: stack) s m' := by
  -- The slot in the instruction is the one that the cell is linked to.
  obtain ⟨index, _, slotted⟩ := links.slot id member
  obtain rfl : slot = index := by simpa [slotted] using known.symm
  have held := stands.slots id member index known
  refine ⟨_, .single (ip_lt_size there stands.ip) (step_load there stands.ip), ?_⟩
  exact ⟨by simp [stands.ip], by simp [stands.stack, held], stands.slots, stands.output⟩

/-- A cell is stored to its slot, and no other cell is touched. -/
theorem store (links : Links code.size cells places resolution owner)
    (stands : Stands cells resolution address (a :: stack) s m)
    (there : code.At address .store (some slot)) (member : id ∈ cells)
    (known : resolution[id]? = some slot) :
    ∃ m', Walks code 1 m m' ∧ Stands cells resolution (address + 1) stack (s.put id a) m' := by
  obtain ⟨index, few, slotted⟩ := links.slot id member
  obtain rfl : slot = index := by simpa [slotted] using known.symm
  obtain ⟨slots', stepped, content_eq⟩ := step_store there few stands.ip stands.stack
  refine ⟨_, .single (ip_lt_size there stands.ip) stepped, by simp [stands.ip], rfl, ?_,
    stands.output⟩
  intro other member' index' known'
  -- Different cells have different slots.
  simp only [content_eq, Evaluation.put]
  by_cases same : other = id
  · subst same
    rw [known, Option.some.injEq, Int.natCast_inj] at known'
    simp [known']
  · have apart : index' ≠ index := by
      rintro rfl
      exact same (links.apart other member' id member (known'.trans known.symm))
    simp [same, apart, stands.slots other member' index' known']

end Cells

end Stands

end BlockCode
