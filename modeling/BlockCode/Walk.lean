import BlockCode.Node

/-! Walks over a tree. A walk takes steps that may fail, and calls itself for the trees below the
one it is at. What such a call is can be chosen: a walk is written once, and serves for what it
comes to and for how deep its calls go. -/

namespace BlockCode

/-- The steps of a walk, whose failures tell something of the first type. -/
class Walking (ε : outParam Type) (m : Type → Type) where
  /-- A step that takes no call. -/
  step {α : Type} : Except ε α → m α
  /-- A call on a tree. -/
  call {α : Type} : m α → m α
  /-- A tree among the operands of an operator. They wait on a stack, where an operator among them
  is taken apart, so that only other trees take a call. -/
  operand {α : Type} : Node → m α → m α

/-- Without a look at its calls, a walk is what it comes to. -/
instance (ε : Type) : Walking ε (Except ε) where
  step outcome := outcome
  call walk := walk
  operand _ walk := walk

end BlockCode
