import BlockCode.Node

/-! Trees laid out as flat tables, one row a node, with node numbers for references. -/

namespace BlockCode

/-- What a row tells about its node in one field. -/
inductive Field where
  /-- One node below. -/
  | ref (id : Int)
  /-- A part that is left out. -/
  | absent
  /-- Some nodes below. -/
  | refs (ids : List Int)
  /-- The text of a token. -/
  | text (value : String)
  /-- A number. -/
  | number (value : Int)
deriving DecidableEq, Repr

/-- One node of a table. -/
structure Row where
  id : Int
  variant : String
  position : Position
  fields : List (String × Field)
deriving DecidableEq, Repr

/-- A tree laid out in rows, ordered by node number. -/
structure Table where
  root : Int
  rows : List Row
deriving DecidableEq, Repr

namespace Table

/-- The fields of a node. -/
def fields : Node → List (String × Field)
  -- Parts are referred to by their numbers, and a missing branch is told as missing.
  | .program _ body | .block _ body => [("statements", .refs (body.map Node.id))]
  | .declare _ name | .use _ name => [("name", .text name.lexeme)]
  | .assign _ name value => [("name", .text name.lexeme), ("value", .ref value.id)]
  | .print _ value => [("value", .ref value.id)]
  | .choose _ condition yes =>
    [("condition", .ref condition.id), ("then_branch", .ref yes.id), ("else_branch", .absent)]
  | .chooseElse _ condition yes no =>
    [("condition", .ref condition.id), ("then_branch", .ref yes.id), ("else_branch", .ref no.id)]
  | .loop _ condition body => [("condition", .ref condition.id), ("body", .ref body.id)]
  | .binary _ left operator right =>
    [("left", .ref left.id), ("operator", .text operator.lexeme), ("right", .ref right.id)]
  | .literal _ value => [("value", .number value)]
  | .unknown .. => []

/-- The row of a node. -/
def row (node : Node) : Row :=
  ⟨node.id, node.variant, node.position, fields node⟩

/-- The rows of some trees and everything below them. The last child of a node comes first. -/
def collect : List Node → List Row
  | [] => []
  -- The children are put on the stack in their order, so the last one is taken first.
  | node :: pending => row node :: collect (node.children.reverse ++ pending)
termination_by pending => Node.sizes pending
decreasing_by
  simp only [Node.sizes_append, Node.sizes_reverse, Node.sizes, Node.size_eq node]
  omega

/-- Lays out a tree; rows with one number keep the order they were collected in. -/
def ofNode (root : Node) : Table :=
  ⟨root.id, (collect [root]).mergeSort fun a b => decide (a.id ≤ b.id)⟩

end Table

end BlockCode
