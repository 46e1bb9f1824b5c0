import BlockCode.Failure
import BlockCode.Instruction
import BlockCode.Scope.Resolve

/-! Code for a tree whose variables have slots. Code is only ever appended; a forward jump is
emitted without knowing its target and receives it when the target is reached. Emission is written
for anything that instructions can be appended to. -/

namespace BlockCode

/-- Something that instructions are appended to. -/
class Emitting (σ : Type) where
  /-- How many instructions there are. -/
  size : σ → Nat
  /-- Appends an instruction. -/
  emit : σ → Opcode → Option Int → Option String → σ
  /-- Sends the jump at an index to the end of the instructions. -/
  patch : σ → Nat → σ

namespace Emission

variable {σ : Type} [Emitting σ]

open Emitting

/-- Appends a jump whose target is not known yet. -/
def emitJump (s : σ) (op : Opcode) (comment : String) : σ :=
  emit s op (some 0) (some comment)

/-- Appends an instruction on the slot of a node. -/
def emitSlot (resolution : Resolution) (s : σ) (op : Opcode) (node : Node)
    (comment : Option String) : Except (Defect × σ) σ :=
  -- The slot is found by the number of the node, and was put there when names were resolved.
  match resolution[node.id]? with
  | none => .error (.noSlot node.id node.variant, s)
  | some slot => .ok (emit s op (some slot) comment)

/-- Appends the instruction of an operator. -/
def emitOperator (s : σ) (operator : Token) : Except (Defect × σ) σ :=
  -- A token that is no operator can only come from a tree that was not read.
  match Operator.ofKind? operator.kind with
  | none => .error (.noOpcode operator.lexeme, s)
  | some op => .ok (emit s (.binary op) none none)

variable {m : Type → Type} [Monad m] [Walking (Defect × σ) m]

open Walking

mutual

/-- Emitting the code of a tree: operands before their operator, conditions before branches. -/
@[specialize] def ofNode (resolution : Resolution) (s : σ) : Node → m σ
  | .declare mark name =>
    -- A declared variable starts at zero each time control comes by.
    let s := emit s .push (some 0) (some s!"init {name.lexeme}")
    step (emitSlot resolution s .store (.declare mark name) none)
  | .assign mark name value => do
    let s ← call (ofNode resolution s value)
    step (emitSlot resolution s .store (.assign mark name value) (some s!"assign {name.lexeme}"))
  | .print _ value => do
    let s ← call (ofNode resolution s value)
    return emit s .print none none
  | .block _ body => ofNodes resolution s body
  | .choose _ condition yes => do
    let s ← call (ofNode resolution s condition)
    let skip := size s
    let s ← call (ofNode resolution (emitJump s .jumpIfFalse "if false") yes)
    return patch s skip
  | .chooseElse _ condition yes no => do
    let s ← call (ofNode resolution s condition)
    let skip := size s
    let s ← call (ofNode resolution (emitJump s .jumpIfFalse "if false") yes)
    -- The first branch is closed by a jump before the second one can begin.
    let leave := size s
    let s ← call (ofNode resolution (patch (emitJump s .jump "skip else") skip) no)
    return patch s leave
  | .loop _ condition body => do
    -- Only the jump back knows its target from the start.
    let head := size s
    let s ← call (ofNode resolution s condition)
    let leave := size s
    let s ← call (ofNode resolution (emitJump s .jumpIfFalse "exit loop") body)
    return patch (emit s .jump (some head) (some "loop")) leave
  | .binary _ left operator right => do
    let s ← operand left (ofNode resolution s left)
    let s ← operand right (ofNode resolution s right)
    step (emitOperator s operator)
  | .literal _ value => return emit s .push (some value) none
  | .use mark name =>
    step (emitSlot resolution s .load (.use mark name) (some s!"load {name.lexeme}"))
  | .program mark body => step (.error (.unsupported (Node.program mark body).variant, s))
  | .unknown _ variant => step (.error (.unsupported variant, s))

/-- Emitting the code of some trees in turn. -/
@[specialize] def ofNodes (resolution : Resolution) (s : σ) : List Node → m σ
  -- One tree behind the other, with nothing between them.
  | [] => return s
  | n :: ns => do
    let s ← call (ofNode resolution s n)
    ofNodes resolution s ns

end

/-- Emitting the code of a program behind what there is, closed by a halt. -/
@[specialize] def program (resolution : Resolution) (s : σ) (root : Node) : m σ := do
  -- The halt is emitted behind all code, and jumps to the end lead to it.
  let s ← ofNodes resolution s root.body
  return emit s .halt none none

end Emission

namespace Code

/-- One step of emission. A step that fails tells what had been emitted when it did. -/
abbrev Step := Except (Defect × Code) Code

/-- Appends an instruction. -/
def emit (code : Code) (op : Opcode) (operand : Option Int) (comment : Option String) : Code :=
  code.push ⟨op, operand, comment⟩

/-- Sends the jump at an index to the end of the code. -/
def patch (code : Code) (index : Nat) : Code :=
  code.modify index fun jump => { jump with operand := some code.size }

instance : Emitting Code := ⟨Array.size, emit, patch⟩

/-- Appends a jump whose target is not known yet. -/
def emitJump (code : Code) (op : Opcode) (comment : String) : Code :=
  Emission.emitJump code op comment

/-- Emitting an instruction on the slot of a node. -/
def emitSlot (resolution : Resolution) (code : Code) (op : Opcode) (node : Node)
    (comment : Option String) : Step :=
  Emission.emitSlot resolution code op node comment

/-- Emitting the instruction of an operator. -/
def emitOperator (code : Code) (operator : Token) : Step :=
  Emission.emitOperator code operator

/-- Emitting the code of a tree. -/
def ofNode (resolution : Resolution) (code : Code) (n : Node) : Step :=
  Emission.ofNode resolution code n

/-- Emitting the code of some trees in turn. -/
def ofNodes (resolution : Resolution) (code : Code) (ns : List Node) : Step :=
  Emission.ofNodes resolution code ns

/-- Emitting the code of a program behind what there is, closed by a halt. -/
def program (resolution : Resolution) (code : Code) (root : Node) : Step :=
  Emission.program resolution code root

end Code

end BlockCode
