import BlockCode.Diagnostic
import BlockCode.Text.Numeral

/-! Everything that can keep a program from being compiled. -/

namespace BlockCode

/-- A broken promise between two stages; no source text leads to one. -/
inductive Defect where
  /-- A tree holds a node that has no meaning in its place. -/
  | unsupported (variant : String)
  /-- A node that names a variable has no slot. -/
  | noSlot (id : Int) (variant : String)
  /-- An operator has no opcode. -/
  | noOpcode (operator : String)
  /-- The outermost scope was to be closed. -/
  | outermostScope
  /-- A token list was read beyond its last token. -/
  | pastEnd
deriving DecidableEq, Repr

/-- What a defect says. -/
def Defect.message : Defect → String
  -- These are told about the tree or the code, never about a place in the source.
  | unsupported variant => s!"Unsupported node: {variant}"
  | noSlot id variant => s!"No slot resolved for node {id} ({variant})."
  | noOpcode operator => s!"No opcode for operator '{operator}'."
  | outermostScope => "Cannot pop the program scope."
  | pastEnd => "list index out of range"

/-- Why a program does not compile. -/
inductive Failure where
  /-- The program is wrong. -/
  | rejected (rejection : Rejection)
  /-- A number in the program cannot be read. -/
  | numeral (error : NumeralError)
  /-- The stages disagree. -/
  | defect (defect : Defect)
  /-- A token list lacks its end mark. -/
  | unterminated
deriving DecidableEq, Repr

/-- What a failure says, without its place. -/
def Failure.message : Failure → String
  -- The place of a rejection is added where it is shown.
  | rejected rejection => rejection.cause.message
  | numeral error => error.message
  | defect d => d.message
  | unterminated => "Token stream must end with an EOF token."

end BlockCode
