import Std.Data.TreeMap
import BlockCode.Failure
import BlockCode.Node
import BlockCode.Scope
import BlockCode.Walk

/-! Variables of a tree resolved to slots by block scope. -/

namespace BlockCode

/-- A declared variable. -/
structure Symbol where
  name : String
  slot : Nat
  depth : Nat
  position : Position
deriving DecidableEq, Repr

/-- The slot of each node that names a variable, by node number. -/
abbrev Resolution := Std.TreeMap Int Int

/-- What is known about the variables seen so far. -/
structure Analysis where
  table : ScopeTable
  resolution : Resolution
  symbols : Array Symbol

namespace Analysis

/-- Nothing seen yet. -/
def empty : Analysis := ⟨.empty, ∅, #[]⟩

/-- One step through a tree. A step that fails tells what was known when it did. -/
abbrev Step := Except (Failure × Analysis) Analysis

/-- Records the slot of a node. -/
def record (a : Analysis) (mark : Mark) (slot : Nat) : Analysis :=
  { a with resolution := a.resolution.insert mark.id slot }

/-- Declares a variable. -/
def declare (a : Analysis) (mark : Mark) (name : Token) : Step :=
  -- The innermost block decides; a name of a block around may be declared again.
  match a.table.declare? name.lexeme with
  | none => .error (.rejected ⟨.redeclared name.lexeme, some name.position⟩, a)
  | some (slot, table) =>
    -- The depth is that of the block it is declared in, and the place that of the name.
    let symbol : Symbol := ⟨name.lexeme, slot, table.depth, name.position⟩
    .ok { a.record mark slot with table := table, symbols := a.symbols.push symbol }

/-- Refers to a variable. -/
def refer (a : Analysis) (mark : Mark) (name : Token) : Step :=
  -- Any block around may have declared it, the innermost one first.
  match a.table.lookup? name.lexeme with
  | none => .error (.rejected ⟨.undeclared name.lexeme, some name.position⟩, a)
  | some slot => .ok (a.record mark slot)

/-- Opens a block. -/
def enter (a : Analysis) : Analysis :=
  { a with table := a.table.enter }

/-- Closes a block. -/
def leave (a : Analysis) : Step :=
  -- The table refuses to close the scope of the program.
  match a.table.leave? with
  | none => .error (.defect .outermostScope, a)
  | some table => .ok { a with table := table }

section Walk

variable {m : Type → Type} [Monad m] [Walking (Failure × Analysis) m]

open Walking

mutual

/-- Walks over a tree. A block has a scope of its own, and the value of an assignment comes before
its target. -/
@[specialize] def walk (a : Analysis) : Node → m Analysis
  | .declare mark name => step (a.declare mark name)
  -- An error in the value is told before one in the target.
  | .assign mark name value => do
    let a ← call (a.walk value)
    step (a.refer mark name)
  | .print _ value => call (a.walk value)
  -- What is declared inside is forgotten at the end, and its slots are not given out again.
  | .block _ body => do
    let a ← a.enter.walkAll body
    step a.leave
  | .choose _ condition yes => do
    let a ← call (a.walk condition)
    call (a.walk yes)
  | .chooseElse _ condition yes no => do
    let a ← call (a.walk condition)
    let a ← call (a.walk yes)
    call (a.walk no)
  | .loop _ condition body => do
    let a ← call (a.walk condition)
    call (a.walk body)
  | .binary _ left _ right => do
    let a ← operand left (a.walk left)
    operand right (a.walk right)
  | .use mark name => step (a.refer mark name)
  | .literal .. => return a
  -- Programs are no parts of trees, and a node without a meaning has none here either.
  | .program mark body => step (.error (.defect (.unsupported (Node.program mark body).variant), a))
  | .unknown _ variant => step (.error (.defect (.unsupported variant), a))

/-- Walks over some trees in turn. -/
@[specialize] def walkAll (a : Analysis) : List Node → m Analysis
  -- Each tree sees what those before it have declared.
  | [] => return a
  | n :: ns => do
    let a ← call (a.walk n)
    a.walkAll ns

end

end Walk

/-- Goes through a tree. -/
def visit (a : Analysis) (n : Node) : Step := a.walk n

/-- Goes through some trees in turn. -/
def visitAll (a : Analysis) (ns : List Node) : Step := a.walkAll ns

/-- Goes through the statements of a program, which share the scope that is open. -/
def program (a : Analysis) (root : Node) : Step :=
  a.visitAll root.body

end Analysis

end BlockCode
