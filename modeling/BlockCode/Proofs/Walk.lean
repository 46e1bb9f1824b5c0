import BlockCode.Walk

/-! The laws of a walk: which of the operands of an operator take a call. -/

namespace BlockCode

/-- An operator among the operands of another takes no call, and any other tree takes one. -/
class LawfulWalking (ε : outParam Type) (m : Type → Type) [Walking ε m] : Prop where
  operand_binary {α : Type} (mark : Mark) (left : Node) (operator : Token) (right : Node)
    (w : m α) :
    Walking.operand (.binary mark left operator right) w = w
  operand_other {α : Type} {n : Node} (w : m α)
    (other : ∀ mark left operator right, n ≠ .binary mark left operator right) :
    Walking.operand n w = Walking.call w

/-- Without a look at its calls, a walk has the laws. -/
instance (ε : Type) : LawfulWalking ε (Except ε) where
  operand_binary _ _ _ _ _ := rfl
  operand_other _ _ := rfl

end BlockCode
