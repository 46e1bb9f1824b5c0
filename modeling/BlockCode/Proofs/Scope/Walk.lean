import BlockCode.Proofs.Grammar.Within
import BlockCode.Proofs.Walk
import BlockCode.Scope.Resolve

/-! The walk that resolves names, whatever its calls are. Operators can be gone through on a stack
of their operands; and without a look at its calls, each kind of tree has an equation of its own. -/

namespace BlockCode.Analysis

open Walking

section Stack

variable {m : Type → Type} [Monad m] [Walking (Failure × Analysis) m]

/-- Walks over the trees on a stack. The operands of an operator take its place on the stack, the
left one on top. -/
def walkPending (a : Analysis) : (pending : List Node) → m Analysis
  | [] => return a
  -- An operator takes no call, since its operands are next on the stack.
  | .binary _ left _ right :: pending => a.walkPending (left :: right :: pending)
  | n :: pending => do
    let a ← call (a.walk n)
    a.walkPending pending
termination_by pending => Node.sizes pending
decreasing_by
  all_goals simp only [Node.sizes, Node.size]
  · omega
  · have positive := Node.size_eq n
    omega

variable [LawfulMonad m] [LawfulWalking (Failure × Analysis) m]

/-- A tree on top of the stack is walked over as without a stack. -/
theorem walkPending_cons (n : Node) : ∀ (a : Analysis) (pending : List Node),
    (a.walkPending (n :: pending) : m Analysis) =
      operand n (a.walk n) >>= (·.walkPending pending) := by
  -- For the operands of an operator the same is known, whatever lies below them.
  induction n using Node.below_induction with
  | each n ih =>
    intro a pending
    cases n with
    | binary mark left operator right =>
      rw [walkPending, walk, ih left (.head _), LawfulWalking.operand_binary, bind_assoc]
      -- Behind the left operand the right one is on top.
      congr 1
      funext a₁
      exact ih right (.tail _ (.head _)) a₁ pending
    | _ =>
      -- Any other tree is taken from the stack by a call on it.
      rw [walkPending, LawfulWalking.operand_other _ (by simp)]
      simp

/-- An operator is walked over as if its operands were on a stack. -/
theorem walk_eq_walkPending (a : Analysis) (mark : Mark) (left : Node) (operator : Token)
    (right : Node) :
    (a.walk (.binary mark left operator right) : m Analysis) = a.walkPending [left, right] := by
  rw [walk, walkPending_cons]
  congr 1
  funext a₁
  -- Nothing is left on the stack behind the right operand.
  rw [walkPending_cons]
  simp only [walkPending, bind_pure]

end Stack

/-- Goes through the trees on a stack. -/
def visitPending (a : Analysis) (pending : List Node) : Step := a.walkPending pending

/-- A tree on its own is gone through as on a stack. -/
theorem visit_eq_visitPending (a : Analysis) (n : Node) : a.visit n = a.visitPending [n] := by
  -- Nothing is left on the stack behind the tree.
  rw [visitPending, walkPending_cons]
  simp only [walkPending, bind_pure]
  rfl

section Equations

variable (a : Analysis) (mark : Mark)

/-- The value of an assignment is gone through before its target. -/
theorem visit_assign (name : Token) (value : Node) :
    a.visit (.assign mark name value) = a.visit value >>= (·.refer mark name) := rfl

/-- A block is gone through between its opening and its closing. -/
theorem visit_block (body : List Node) :
    a.visit (.block mark body) = a.enter.visitAll body >>= leave := rfl

/-- The condition of a choice is gone through before its branch. -/
theorem visit_choose (condition yes : Node) :
    a.visit (.choose mark condition yes) = a.visit condition >>= (·.visit yes) := rfl

/-- The branches of a choice are gone through in turn. -/
theorem visit_chooseElse (condition yes no : Node) :
    a.visit (.chooseElse mark condition yes no) =
      a.visit condition >>= fun a => a.visit yes >>= (·.visit no) := rfl

/-- The condition of a loop is gone through before its body. -/
theorem visit_loop (condition body : Node) :
    a.visit (.loop mark condition body) = a.visit condition >>= (·.visit body) := rfl

/-- The operands of an operator are gone through in turn. -/
theorem visit_binary (left : Node) (operator : Token) (right : Node) :
    a.visit (.binary mark left operator right) = a.visit left >>= (·.visit right) := rfl

/-- The first of some trees is gone through before the others. -/
theorem visitAll_cons (n : Node) (ns : List Node) :
    a.visitAll (n :: ns) = a.visit n >>= (·.visitAll ns) := rfl

end Equations

end BlockCode.Analysis
