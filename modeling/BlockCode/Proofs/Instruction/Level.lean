import BlockCode.Proofs.Instruction.Height
import BlockCode.Proofs.Instruction.Segment

/-! The height of the operand stack where the parts of a tree start. An expression adds one operand
and a statement none, so every statement starts and ends with an empty stack. -/

namespace BlockCode

open Node

namespace Code

/-- What some instructions add to the height of the stack. -/
def gain (instructions : List Instruction) : Int :=
  (instructions.map fun i => (i.op.pushes : Int) - i.op.pops).sum

/-- Instructions in a row add up. -/
@[simp] theorem gain_append (front back : List Instruction) :
    gain (front ++ back) = gain front + gain back := by
  simp [gain]

/-- One instruction and those behind it add up. -/
@[simp] theorem gain_cons (i : Instruction) (back : List Instruction) :
    gain (i :: back) = i.op.pushes - i.op.pops + gain back := by
  simp [gain]

/-- No instruction adds nothing. -/
@[simp] theorem gain_nil : gain [] = 0 := rfl

variable {resolution : Resolution} {code : Code} {m n : Node} {base start : Nat}

/-- An expression adds one operand. -/
theorem gain_expression (shape : n.IsExpression) (base : Nat) :
    gain (assemble resolution base n) = 1 := by
  -- Operands add one each, and the operator takes one of them away.
  induction shape generalizing base with
  | literal mark value => simp [Opcode.pushes, Opcode.pops]
  | use mark name => simp [Opcode.pushes, Opcode.pops]
  | binary mark operator known leftShape rightShape leftIh rightIh =>
    simp [known, leftIh, rightIh, Opcode.pushes, Opcode.pops]

/-- Trees that add no operand one by one add none in turn. -/
theorem gain_all {ns : List Node} (each : ∀ n ∈ ns, ∀ base, gain (assemble resolution base n) = 0)
    (base : Nat) : gain (assembleAll resolution base ns) = 0 := by
  -- What the first tree leaves on the stack is nothing, and so is what the others leave.
  induction ns generalizing base with
  | nil => simp
  | cons n ns ih =>
    simp [each n (.head _), ih fun m member => each m (.tail _ member)]

/-- A statement adds no operand. -/
theorem gain_statement (shape : n.IsStatement) (base : Nat) :
    gain (assemble resolution base n) = 0 := by
  -- What computes an operand is followed by what takes it.
  induction shape generalizing base with
  | declare mark name => simp [Opcode.pushes, Opcode.pops]
  | assign mark name valueShape | print mark valueShape =>
    simp [gain_expression valueShape, Opcode.pushes, Opcode.pops]
  | choose mark conditionShape yesShape yesIh =>
    simp [gain_expression conditionShape, yesIh, toward, Opcode.pushes, Opcode.pops]
  | chooseElse mark conditionShape yesShape noShape yesIh noIh =>
    simp [gain_expression conditionShape, yesIh, noIh, toward, Opcode.pushes, Opcode.pops]
  | loop mark conditionShape bodyShape bodyIh =>
    simp [gain_expression conditionShape, bodyIh, toward, Opcode.pushes, Opcode.pops]
  | block mark bodyShape ih =>
    rw [assemble]
    exact gain_all ih base

/-- The height behind a segment differs from that in front by what the segment adds. -/
theorem Segment.height_end (segment : Segment resolution code m start) :
    code.height (start + m.span) = code.height start + gain (assemble resolution start m) := by
  -- The code up to the end is that up to the start and the segment.
  have contents := List.prefix_iff_eq_take.mp segment.contents
  rw [length_assemble] at contents
  rw [contents]
  simp [height, gain, List.take_add]

/-- A tree may start at an address: it is an expression, or a statement that finds the stack
empty. -/
def Poised (code : Code) (n : Node) (start : Nat) : Prop :=
  n.IsExpression ∨ n.IsStatement ∧ code.height start = 0

section Program

variable {mark : Mark} {body : List Node}
  (generated : generate resolution (.program mark body) = .ok code)

include generated

/-- The stack is as high behind a statement of a program as in front of it. -/
theorem height_statement (lies : n.Lies base (.program mark body) 0) (shape : n.IsStatement) :
    code.height (base + n.span) = code.height base := by
  rw [(segment generated lies).height_end, gain_statement shape, Int.add_zero]

/-- The stack is as high behind a condition and the jump that takes it as in front of them. -/
theorem height_condition {condition : Node} {target : Nat}
    (lies : condition.Lies base (.program mark body) 0) (shape : condition.IsExpression)
    (taken : code.At (base + condition.span) .jumpIfFalse (some (target : Int))) :
    code.height (base + condition.span + 1) = code.height base := by
  -- The condition leaves one operand, which the jump takes.
  have tested := (segment generated lies).height_end
  have jumped := taken.height_succ
  rw [gain_expression shape] at tested
  simp only [Opcode.pushes, Opcode.pops] at jumped
  omega

/-- Statements in turn all start with an empty stack if the first one does. -/
theorem poised_inTurn {ns : List Node} (shape : ∀ n ∈ ns, n.IsStatement)
    (placed : ∀ part ∈ inTurn base ns, part.1.Lies part.2 (.program mark body) 0)
    (empty : code.height base = 0) : ∀ part ∈ inTurn base ns, Poised code part.1 part.2 := by
  induction ns generalizing base with
  | nil => simp [inTurn]
  | cons n ns ih =>
    intro part member
    -- The first statement leaves the stack to the others as it has found it.
    have first := height_statement generated (placed (n, base) (.head _)) (shape n (.head _))
    rcases List.mem_cons.mp member with rfl | later
    · exact .inr ⟨shape n (.head _), empty⟩
    · exact ih (fun m inside => shape m (.tail _ inside))
        (fun part inside => placed part (.tail _ inside)) (first.trans empty) part later

/-- The parts of a tree may start where they do if the tree may. -/
theorem poised_parts (lies : n.Lies base (.program mark body) 0) (poised : Poised code n base)
    {part : Node × Nat} (member : part ∈ n.parts base) : Poised code part.1 part.2 := by
  have placed : ∀ part ∈ n.parts base, part.1.Lies part.2 (.program mark body) 0 :=
    fun part member => Lies.trans (.inside member .here) lies
  rcases poised with shape | ⟨shape, empty⟩
  · -- Only expressions stand in an expression.
    cases shape with
    | literal | use => cases member
    | binary mark operator known leftShape rightShape =>
      simp only [parts, List.mem_cons, List.not_mem_nil, or_false] at member
      rcases member with rfl | rfl
      · exact .inl leftShape
      · exact .inl rightShape
  · -- A statement in it starts when all operands in front of it have been taken.
    cases shape with
    | declare => cases member
    | assign _ _ valueShape | print _ valueShape =>
      simp only [parts, List.mem_singleton] at member
      subst member
      exact .inl valueShape
    | @choose condition yes _ conditionShape yesShape =>
      have skip := height_condition generated (placed (condition, base) (.head _)) conditionShape
        (at_of_jump generated lies (.skip ..))
      simp only [parts, List.mem_cons, List.not_mem_nil, or_false] at member
      rcases member with rfl | rfl
      · exact .inl conditionShape
      · exact .inr ⟨yesShape, skip.trans empty⟩
    | @chooseElse condition yes no _ conditionShape yesShape noShape =>
      have skip : code.height (base + condition.span + 1) = code.height base :=
        height_condition generated (placed (condition, base) (.head _)) conditionShape
          (at_of_jump generated lies (.other ..))
      have taken : code.height (base + condition.span + 1 + yes.span) = _ :=
        height_statement generated (placed (yes, _) (.tail _ (.head _))) yesShape
      -- The jump over the second branch takes nothing from the stack.
      have hop := (at_of_jump generated lies (.skipElse ..)).height_succ
      simp only [Opcode.pushes, Opcode.pops] at hop
      simp only [parts, List.mem_cons, List.not_mem_nil, or_false] at member
      rcases member with rfl | rfl | rfl
      · exact .inl conditionShape
      · exact .inr ⟨yesShape, skip.trans empty⟩
      · exact .inr ⟨noShape, by simp only; omega⟩
    | @loop condition repeated _ conditionShape bodyShape =>
      -- Each round starts behind the jump out of the loop.
      have leave := height_condition generated (placed (condition, base) (.head _)) conditionShape
        (at_of_jump generated lies (.leave ..))
      simp only [parts, List.mem_cons, List.not_mem_nil, or_false] at member
      rcases member with rfl | rfl
      · exact .inl conditionShape
      · exact .inr ⟨bodyShape, leave.trans empty⟩
    | block _ bodyShape => exact poised_inTurn generated bodyShape placed empty part member

/-- Whatever lies in a tree may start where it does if the tree may. -/
theorem poised_lies (inner : m.Lies start n base) (outer : n.Lies base (.program mark body) 0)
    (poised : Poised code n base) : Poised code m start := by
  -- The induction follows the way from the tree down to what lies in it.
  induction inner with
  | here => exact poised
  | inside member lies ih =>
    exact ih (Lies.trans (.inside member .here) outer) (poised_parts generated outer poised member)

/-- Everything below the root of a program may start where it does. -/
theorem poised_program (shape : ∀ n ∈ body, n.IsStatement)
    (lies : m.Lies start (.program mark body) 0) :
    m = .program mark body ∨ Poised code m start := by
  -- The program itself starts with an empty stack, and so does its first statement.
  cases lies with
  | here => exact .inl rfl
  | inside member lies =>
    have placed : ∀ part ∈ inTurn 0 body, part.1.Lies part.2 (.program mark body) 0 :=
      fun part member => .inside member .here
    exact .inr (poised_lies generated lies (placed _ member)
      (poised_inTurn generated shape placed height_zero _ member))

end Program

end Code

end BlockCode
