import BlockCode.Instruction.Emit
import BlockCode.Proofs.Grammar.Within
import BlockCode.Proofs.Walk

/-! Emission, whatever it goes to. Operators and their operands can be emitted from a stack; a view
from one kind of emission to another is kept by whole trees if it is kept by the single steps; and
on code, each kind of tree has an equation of its own. -/

namespace BlockCode

/-- What waits on the stack while the operands of operators are emitted. -/
inductive Pending where
  /-- A tree that has to be emitted. -/
  | operand (n : Node)
  /-- An operator whose operands are emitted before it. -/
  | operator (token : Token)

/-- How much is left to do for an entry of the stack. -/
def Pending.weight : Pending → Nat
  -- Taking an operator apart gives two operands and the operator, which are less together.
  | .operand n => 2 * n.size
  | .operator _ => 1

namespace Emission

open Emitting Walking

section Stack

variable {σ : Type} [Emitting σ] {m : Type → Type} [Monad m] [Walking (Defect × σ) m]

/-- Emits what waits on the stack, from its top on. An operator gives way to its operands, the left
one on top, with itself below them. -/
def ofPending (resolution : Resolution) (s : σ) : List Pending → m σ
  | [] => return s
  | .operator token :: pending => do
    -- The operands have been on top, so they are emitted by now.
    let s ← step (emitOperator s token)
    ofPending resolution s pending
  | .operand (.binary _ left token right) :: pending =>
    ofPending resolution s (.operand left :: .operand right :: .operator token :: pending)
  | .operand n :: pending => do
    let s ← call (ofNode resolution s n)
    ofPending resolution s pending
termination_by pending => (pending.map Pending.weight).sum
decreasing_by
  -- An operator with its operands weighs more than the three of them apart.
  all_goals simp only [Node.size, Pending.weight, List.map_cons, List.sum_cons]
  · omega
  · omega
  · have positive := Node.size_eq n
    omega

variable [LawfulMonad m] [LawfulWalking (Defect × σ) m] {resolution : Resolution}

/-- An operand on top of the stack is emitted as without a stack. -/
theorem ofPending_operand (n : Node) : ∀ (s : σ) (pending : List Pending),
    (ofPending resolution s (.operand n :: pending) : m σ) =
      operand n (ofNode resolution s n) >>= (ofPending resolution · pending) := by
  -- For the operands of an operator the same is known, whatever lies below them.
  induction n using Node.below_induction with
  | each n ih =>
    intro s pending
    cases n with
    | binary mark left operator right =>
      have first := ih left (.head _)
      have second := ih right (.tail _ (.head _))
      rw [ofPending, ofNode, first, LawfulWalking.operand_binary, bind_assoc]
      -- Behind the left operand the right one is on top, and behind both the operator.
      congr 1
      funext s₁
      rw [second, bind_assoc]
      congr 1
      funext s₂
      rw [ofPending]
    | _ =>
      -- Any other tree is taken from the stack by a call on it.
      rw [ofPending, LawfulWalking.operand_other _ (by simp)]
      simp

/-- An operator is emitted as if it and its operands were on a stack. -/
theorem ofNode_eq_ofPending (s : σ) (mark : Mark) (left : Node) (operator : Token) (right : Node) :
    (ofNode resolution s (.binary mark left operator right) : m σ) =
      ofPending resolution s [.operand left, .operand right, .operator operator] := by
  rw [ofNode, ofPending_operand]
  congr 1
  funext s₁
  rw [ofPending_operand]
  congr 1
  funext s₂
  -- The operator is alone on the stack when both operands are done.
  rw [ofPending]
  simp only [ofPending, bind_pure]

end Stack

section View

variable {σ σ' : Type} [Emitting σ] [Emitting σ'] {m m' : Type → Type} [Monad m] [Monad m']
  [Walking (Defect × σ) m] [Walking (Defect × σ') m']

/-- A view of one kind of emission as another. It is kept by every single step. -/
structure View (φ : σ → σ') (ψ : m σ → m' σ') : Prop where
  size : ∀ s, size (φ s) = size s
  emit : ∀ s op operand comment, φ (emit s op operand comment) = emit (φ s) op operand comment
  patch : ∀ s index, φ (patch s index) = patch (φ s) index
  done : ∀ s, ψ (pure s) = pure (φ s)
  bind : ∀ {w : m σ} {next : σ → m σ} {next' : σ' → m' σ'}, (∀ s, ψ (next s) = next' (φ s)) →
    ψ (w >>= next) = ψ w >>= next'
  taken : ∀ s, ψ (step (.ok s)) = step (.ok (φ s))
  failed : ∀ defect s, ψ (step (.error (defect, s))) = step (.error (defect, φ s))
  call : ∀ w, ψ (call w) = call (ψ w)
  operand : ∀ n w, ψ (operand n w) = operand n (ψ w)

namespace View

variable {φ : σ → σ'} {ψ : m σ → m' σ'} {resolution : Resolution}

/-- An instruction on a slot is seen, and so is the lack of a slot. -/
theorem emitSlot (view : View φ ψ) (s : σ) (op : Opcode) (node : Node) (comment : Option String) :
    ψ (step (Emission.emitSlot resolution s op node comment)) =
      step (Emission.emitSlot resolution (φ s) op node comment) := by
  -- Whether there is a slot does not depend on what is emitted to.
  unfold Emission.emitSlot
  cases resolution[node.id]? with
  | none => exact view.failed ..
  | some slot => rw [view.taken, view.emit]

/-- The instruction of an operator is seen, and so is the lack of an opcode. -/
theorem emitOperator (view : View φ ψ) (s : σ) (operator : Token) :
    ψ (step (Emission.emitOperator s operator)) = step (Emission.emitOperator (φ s) operator) := by
  -- As for a slot, the token alone decides.
  unfold Emission.emitOperator
  cases Operator.ofKind? operator.kind with
  | none => exact view.failed ..
  | some op => rw [view.taken, view.emit]

/-- A jump is seen. -/
theorem emitJump (view : View φ ψ) (s : σ) (op : Opcode) (comment : String) :
    φ (Emission.emitJump s op comment) = Emission.emitJump (φ s) op comment :=
  view.emit ..

/-- Trees in turn are seen if each of them is. -/
theorem all (view : View φ ψ) {body : List Node} (each : ∀ n ∈ body, ∀ s,
      ψ (ofNode resolution s n) = ofNode resolution (φ s) n) (s : σ) :
    ψ (ofNodes resolution s body) = ofNodes resolution (φ s) body := by
  -- The walk over the first tree is seen, and so is what follows it from there.
  induction body generalizing s with
  | nil => rw [ofNodes, ofNodes, view.done]
  | cons n ns ih =>
    rw [ofNodes, ofNodes, ← each n (.head _), ← view.call]
    exact view.bind (ih fun m member => each m (.tail _ member))

/-- Whole trees are seen. -/
theorem ofNode (view : View φ ψ) (n : Node) : ∀ s,
    ψ (Emission.ofNode resolution s n) = Emission.ofNode resolution (φ s) n := by
  -- Both take the same steps in the same order.
  induction n using Node.below_induction with
  | each n ih =>
    intro s
    cases n with
    | program mark body => rw [Emission.ofNode, Emission.ofNode, view.failed]
    | unknown mark variant => rw [Emission.ofNode, Emission.ofNode, view.failed]
    | declare mark name => rw [Emission.ofNode, Emission.ofNode, view.emitSlot, view.emit]
    | use mark name => rw [Emission.ofNode, Emission.ofNode, view.emitSlot]
    | literal mark value => rw [Emission.ofNode, Emission.ofNode, view.done, view.emit]
    | assign mark name value =>
      rw [Emission.ofNode, Emission.ofNode, ← ih value (.head _), ← view.call]
      exact view.bind fun s₁ => view.emitSlot ..
    | print mark value =>
      rw [Emission.ofNode, Emission.ofNode, ← ih value (.head _), ← view.call]
      exact view.bind fun s₁ => by rw [view.done, view.emit]
    | block mark body =>
      rw [Emission.ofNode, Emission.ofNode]
      exact view.all ih s
    | choose mark condition yes =>
      rw [Emission.ofNode, Emission.ofNode, ← ih condition (.head _), ← view.call]
      refine view.bind fun s₁ => ?_
      rw [view.size, ← view.emitJump, ← ih yes (.tail _ (.head _)), ← view.call]
      exact view.bind fun s₂ => by rw [view.done, view.patch]
    | chooseElse mark condition yes no =>
      rw [Emission.ofNode, Emission.ofNode, ← ih condition (.head _), ← view.call]
      refine view.bind fun s₁ => ?_
      rw [view.size, ← view.emitJump, ← ih yes (.tail _ (.head _)), ← view.call]
      refine view.bind fun s₂ => ?_
      -- The second branch starts where the first jump has its target.
      rw [view.size, ← view.emitJump, ← view.patch, ← ih no (.tail _ (.tail _ (.head _))),
        ← view.call]
      exact view.bind fun s₃ => by rw [view.done, view.patch]
    | loop mark condition body =>
      rw [Emission.ofNode, Emission.ofNode, view.size, ← ih condition (.head _), ← view.call]
      refine view.bind fun s₁ => ?_
      rw [view.size, ← view.emitJump, ← ih body (.tail _ (.head _)), ← view.call]
      exact view.bind fun s₂ => by rw [view.done, view.patch, view.emit]
    | binary mark left operator right =>
      rw [Emission.ofNode, Emission.ofNode, ← ih left (.head _), ← view.operand]
      refine view.bind fun s₁ => ?_
      rw [← ih right (.tail _ (.head _)), ← view.operand]
      exact view.bind fun s₂ => view.emitOperator ..

/-- Whole programs are seen. -/
theorem program (view : View φ ψ) (s : σ) (root : Node) :
    ψ (Emission.program resolution s root) = Emission.program resolution (φ s) root := by
  -- The halt is emitted behind whatever the statements have left.
  rw [Emission.program, Emission.program, ← view.all (fun n _ => view.ofNode n)]
  exact view.bind fun s₁ => by rw [view.done, view.emit]

end View

end View

end Emission

namespace Code

section Equations

variable {resolution : Resolution} (code : Code) (mark : Mark)

/-- A jump is appended with a zero in the place of its target. -/
theorem emitJump_eq (op : Opcode) (comment : String) :
    code.emitJump op comment = code.emit op (some 0) (some comment) := rfl

/-- Without a slot nothing is appended. -/
theorem emitSlot_none {node : Node} (op : Opcode) (comment : Option String)
    (unknown : resolution[node.id]? = none) :
    emitSlot resolution code op node comment = .error (.noSlot node.id node.variant, code) := by
  rw [emitSlot, Emission.emitSlot, unknown]

/-- With a slot, an instruction on it is appended. -/
theorem emitSlot_some {node : Node} {slot : Int} (op : Opcode) (comment : Option String)
    (known : resolution[node.id]? = some slot) :
    emitSlot resolution code op node comment = .ok (code.emit op (some slot) comment) := by
  -- The match on the slot is decided, and what is left is the emission to code.
  rw [emitSlot, Emission.emitSlot, known]
  rfl

/-- Without an opcode nothing is appended. -/
theorem emitOperator_none {operator : Token} (unknown : Operator.ofKind? operator.kind = none) :
    code.emitOperator operator = .error (.noOpcode operator.lexeme, code) := by
  rw [emitOperator, Emission.emitOperator, unknown]

/-- With an opcode, its instruction is appended. -/
theorem emitOperator_some {operator : Token} {op : Operator}
    (known : Operator.ofKind? operator.kind = some op) :
    code.emitOperator operator = .ok (code.emit (.binary op) none none) := by
  -- As for a slot, with the opcode decided.
  rw [emitOperator, Emission.emitOperator, known]
  rfl

/-- A declaration sets its variable to zero. -/
theorem ofNode_declare (name : Token) : ofNode resolution code (.declare mark name) =
    emitSlot resolution (code.emit .push (some 0) (some s!"init {name.lexeme}")) .store
      (.declare mark name) none := rfl

/-- An assignment stores its value. -/
theorem ofNode_assign (name : Token) (value : Node) :
    ofNode resolution code (.assign mark name value) = (do
      let code ← ofNode resolution code value
      emitSlot resolution code .store (.assign mark name value)
        (some s!"assign {name.lexeme}")) := rfl

/-- A statement that prints has its value printed. -/
theorem ofNode_print (value : Node) : ofNode resolution code (.print mark value) = (do
    let code ← ofNode resolution code value
    return code.emit .print none none) := rfl

/-- A block is emitted as its statements. -/
theorem ofNode_block (body : List Node) :
    ofNode resolution code (.block mark body) = ofNodes resolution code body := rfl

/-- A choice jumps over its branch if the condition is false. -/
theorem ofNode_choose (condition yes : Node) :
    ofNode resolution code (.choose mark condition yes) = (do
      let code ← ofNode resolution code condition
      let skip := code.size
      let code ← ofNode resolution (code.emitJump .jumpIfFalse "if false") yes
      return code.patch skip) := rfl

/-- A choice with an alternative jumps over one of its branches. -/
theorem ofNode_chooseElse (condition yes no : Node) :
    ofNode resolution code (.chooseElse mark condition yes no) = (do
      let code ← ofNode resolution code condition
      let skip := code.size
      let code ← ofNode resolution (code.emitJump .jumpIfFalse "if false") yes
      let leave := code.size
      let code ← ofNode resolution ((code.emitJump .jump "skip else").patch skip) no
      return code.patch leave) := rfl

/-- A loop jumps back to its condition, and behind itself if that is false. -/
theorem ofNode_loop (condition body : Node) :
    ofNode resolution code (.loop mark condition body) = (do
      let head := code.size
      let code ← ofNode resolution code condition
      let leave := code.size
      let code ← ofNode resolution (code.emitJump .jumpIfFalse "exit loop") body
      return (code.emit .jump (some head) (some "loop")).patch leave) := rfl

/-- An operator comes behind its operands. -/
theorem ofNode_binary (left : Node) (operator : Token) (right : Node) :
    ofNode resolution code (.binary mark left operator right) = (do
      let code ← ofNode resolution code left
      let code ← ofNode resolution code right
      code.emitOperator operator) := rfl

/-- A literal is pushed. -/
theorem ofNode_literal (value : Int) :
    ofNode resolution code (.literal mark value) = .ok (code.emit .push (some value) none) := rfl

/-- A variable is loaded. -/
theorem ofNode_use (name : Token) : ofNode resolution code (.use mark name) =
    emitSlot resolution code .load (.use mark name) (some s!"load {name.lexeme}") := rfl

/-- No trees have no code. -/
theorem ofNodes_nil : ofNodes resolution code [] = .ok code := rfl

/-- The code of the first tree comes before that of the others. -/
theorem ofNodes_cons (n : Node) (ns : List Node) : ofNodes resolution code (n :: ns) = (do
    let code ← ofNode resolution code n
    ofNodes resolution code ns) := rfl

/-- The code of a program ends with a halt. -/
theorem program_eq (root : Node) : program resolution code root = (do
    let code ← ofNodes resolution code root.body
    return code.emit .halt none none) := rfl

end Equations

end Code

end BlockCode
