import BlockCode.Node
import BlockCode.Text.Numeral

/-! Trees shown as indented lines, one node a line. -/

namespace BlockCode

/-- Something still to be shown: a tree at an indentation, or a line that is ready. -/
inductive Outline where
  | tree (node : Node) (indent : Int)
  | line (text : String)
deriving Repr

namespace Outline

/-- The blanks in front of a line; an indentation below zero has none. -/
def pad (indent : Int) : String :=
  String.ofList (List.replicate (2 * indent.toNat) ' ')

/-- What is shown of a node itself. -/
def label : Node → Except NumeralError String
  -- The names and operators are shown as they were written.
  | .program .. => .ok "Program"
  | .declare _ name => .ok ("VarDecl " ++ name.lexeme)
  | .assign _ name _ => .ok ("Assign " ++ name.lexeme)
  | .print .. => .ok "Print"
  | .block .. => .ok "Block"
  | .choose .. | .chooseElse .. => .ok "If"
  | .loop .. => .ok "While"
  | .binary _ _ operator _ => .ok ("Binary " ++ operator.lexeme)
  | .literal _ value => (Numeral.write value).map ("Literal " ++ ·)
  | .use _ name => .ok ("Identifier " ++ name.lexeme)
  | .unknown _ variant => .ok variant

/-- A heading inside a node, one step farther in than the node. -/
def heading (indent : Int) (title : String) : Outline :=
  .line (pad indent ++ "  " ++ title)

/-- What is shown below a node. -/
def below (indent : Int) : Node → List Outline
  -- Below a node everything is one step farther in, and what a heading stands above two.
  | .program _ body | .block _ body => body.map (.tree · (indent + 1))
  | .assign _ _ value | .print _ value => [.tree value (indent + 1)]
  | .choose _ condition yes =>
    [.tree condition (indent + 1), heading indent "Then", .tree yes (indent + 2)]
  | .chooseElse _ condition yes no =>
    [.tree condition (indent + 1), heading indent "Then", .tree yes (indent + 2),
      heading indent "Else", .tree no (indent + 2)]
  | .loop _ condition body =>
    [.tree condition (indent + 1), heading indent "Do", .tree body (indent + 2)]
  | .binary _ left _ right => [.tree left (indent + 1), .tree right (indent + 1)]
  | .declare .. | .literal .. | .use .. | .unknown .. => []

/-- The work that an item still is: four units for each node, one for a line. -/
def weight : Outline → Nat
  -- A node can bring a heading and a tree for each of its parts.
  | .tree node _ => 4 * node.size
  | .line _ => 1

/-- The work that some items are together. -/
def weights : List Outline → Nat
  -- The work that is left is what bounds the recursion below.
  | [] => 0
  | item :: pending => item.weight + weights pending

/-- The work of items side by side adds up. -/
theorem weights_append (before after : List Outline) :
    weights (before ++ after) = weights before + weights after := by
  -- The items in front are weighed off one at a time.
  induction before with
  | nil => simp [weights]
  | cons item before ih => simp only [List.cons_append, weights, ih]; omega

/-- Trees at one indentation weigh what their nodes weigh. -/
theorem weights_trees (indent : Int) (nodes : List Node) :
    weights (nodes.map (.tree · indent)) = 4 * Node.sizes nodes := by
  -- The trees are weighed one after the other.
  induction nodes with
  | nil => rfl
  | cons n ns ih => simp only [List.map_cons, weights, weight, ih, Node.sizes]; omega

/-- What is shown below a node is less work than the node. -/
theorem weights_below_lt (indent : Int) (node : Node) :
    weights (below indent node) < 4 * node.size := by
  -- The headings of a node weigh less than the node itself.
  cases node <;> simp only [below, weights_trees, Node.size, weights, weight, heading] <;> omega

/-- The lines of the items, first to last; nodes make way for what is below them. -/
def lines : List Outline → Except NumeralError (List String)
  | [] => .ok []
  | .line text :: pending => do
    let rest ← lines pending
    return text :: rest
  -- A node is shown before what is below it, and that before what follows the node.
  | .tree node indent :: pending => do
    let text ← label node
    let rest ← lines (below indent node ++ pending)
    return (pad indent ++ text) :: rest
termination_by pending => weights pending
decreasing_by
  · simp [weights, weight]
  · have smaller := weights_below_lt indent node
    simp only [weights_append, weights, weight]
    omega

end Outline

/-- The lines that show a tree, its root at a given indentation. -/
def Node.outline (node : Node) (indent : Int) : Except NumeralError (List String) :=
  Outline.lines [.tree node indent]

end BlockCode
