import BlockCode.Token

/-! Syntax trees. A tree from a source text has statements and expressions in their places; a tree
made by hand may have any node anywhere, and the stages that walk it refuse what they cannot use. -/

namespace BlockCode

/-- What every node carries: its number in the tree and the place it starts at. -/
structure Mark where
  id : Int
  position : Position
deriving DecidableEq, Repr

/-- A node of a syntax tree with everything below it. -/
inductive Node where
  /-- A whole program. -/
  | program (mark : Mark) (body : List Node)
  /-- Statements in a scope of their own. -/
  | block (mark : Mark) (body : List Node)
  /-- The declaration of a variable. -/
  | declare (mark : Mark) (name : Token)
  /-- A new value for a variable. -/
  | assign (mark : Mark) (name : Token) (value : Node)
  /-- The printing of a value. -/
  | print (mark : Mark) (value : Node)
  /-- A choice without an alternative. -/
  | choose (mark : Mark) (condition yes : Node)
  /-- A choice between two parts. -/
  | chooseElse (mark : Mark) (condition yes no : Node)
  /-- A part repeated while a condition holds. -/
  | loop (mark : Mark) (condition body : Node)
  /-- An operator between two operands. -/
  | binary (mark : Mark) (left : Node) (operator : Token) (right : Node)
  /-- A number. -/
  | literal (mark : Mark) (value : Int)
  /-- The value of a variable. -/
  | use (mark : Mark) (name : Token)
  /-- A node of a variant that has no meaning. -/
  | unknown (mark : Mark) (variant : String)
deriving Repr

namespace Node

/-- The mark of a node. -/
def mark : Node → Mark
  -- Every kind of node has one, in the first place.
  | program mark _ | block mark _ | declare mark _ | assign mark _ _ | print mark _
  | choose mark _ _ | chooseElse mark _ _ _ | loop mark _ _ | binary mark _ _ _
  | literal mark _ | use mark _ | unknown mark _ => mark

/-- The number of a node. -/
def id (n : Node) : Int := n.mark.id

/-- The place a node starts at. -/
def position (n : Node) : Position := n.mark.position

/-- The name of a node's variant. -/
def variant : Node → String
  -- With an alternative or without one, a choice is a choice.
  | program .. => "ProgramNode"
  | block .. => "BlockStatement"
  | declare .. => "VarDecl"
  | assign .. => "AssignmentStatement"
  | print .. => "PrintStatement"
  | choose .. | chooseElse .. => "IfStatement"
  | loop .. => "WhileStatement"
  | binary .. => "BinaryExpression"
  | literal .. => "LiteralExpression"
  | use .. => "IdentifierExpression"
  | unknown _ variant => variant

/-- The statements directly inside a program or a block. -/
def body : Node → List Node
  -- Other nodes have no statements directly inside.
  | program _ body | block _ body => body
  | _ => []

/-- The nodes directly below a node, in source order. -/
def children : Node → List Node
  -- A condition comes before what it decides about, as it is written.
  | program _ body | block _ body => body
  | assign _ _ value | print _ value => [value]
  | choose _ condition yes => [condition, yes]
  | chooseElse _ condition yes no => [condition, yes, no]
  | loop _ condition body => [condition, body]
  | binary _ left _ right => [left, right]
  | declare .. | literal .. | use .. | unknown .. => []

mutual

/-- The number of nodes in a tree. -/
def size : Node → Nat
  -- A node counts itself and what is below it.
  | program _ body | block _ body => sizes body + 1
  | assign _ _ value | print _ value => value.size + 1
  | choose _ condition yes => condition.size + yes.size + 1
  | chooseElse _ condition yes no => condition.size + yes.size + no.size + 1
  | loop _ condition body => condition.size + body.size + 1
  | binary _ left _ right => left.size + right.size + 1
  | declare .. | literal .. | use .. | unknown .. => 1

/-- The number of nodes in some trees together. -/
def sizes : List Node → Nat
  -- Trees in turn are counted together.
  | [] => 0
  | n :: ns => n.size + sizes ns

end

/-- Trees side by side have the nodes of each. -/
theorem sizes_append (ns ms : List Node) : sizes (ns ++ ms) = sizes ns + sizes ms := by
  -- The first list is counted off one tree at a time.
  induction ns with
  | nil => simp [sizes]
  | cons n ns ih => simp only [List.cons_append, sizes, ih]; omega

/-- The order of trees does not change their number of nodes. -/
theorem sizes_reverse (ns : List Node) : sizes ns.reverse = sizes ns := by
  -- Reversing moves the first tree to the end.
  induction ns with
  | nil => rfl
  | cons n ns ih => simp only [List.reverse_cons, sizes_append, ih, sizes]; omega

/-- A tree is its root and what is below. -/
theorem size_eq (n : Node) : n.size = sizes n.children + 1 := by
  -- Every variant counts its children once.
  cases n <;> simp [size, sizes, children]
  omega

end Node

end BlockCode
