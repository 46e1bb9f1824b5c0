import BlockCode.Failure
import BlockCode.Node

/-! Syntax trees read from tokens. The grammar is descended level by level, and the levels left are
the measure of the descent, so that the bound on nesting is also what makes it end. -/

namespace BlockCode

/-- How far the reading of a tree has come. -/
structure Cursor where
  /-- The tokens not yet read, up to the end of the whole list. -/
  pending : List Token
  /-- The number of the next node. -/
  next : Nat
deriving DecidableEq, Repr

/-- Refuses a token where something else is expected. -/
def Token.refuse (t : Token) (expected : String) : Failure :=
  .rejected ⟨.unexpected expected t.found, some t.position⟩

/-- A way to read a part of a tree: it gives the part and the cursor behind it. -/
abbrev Reader (α : Type) := Cursor → Except Failure (α × Cursor)

namespace Cursor

/-- The failure of looking beyond the last token of the list. -/
def beyond : Failure := .defect .pastEnd

/-- The first token not yet read. -/
def peek (c : Cursor) : Except Failure Token :=
  -- An end mark is never taken off, so only a list without one can run out.
  match c.pending with
  | [] => .error beyond
  | t :: _ => .ok t

/-- Takes a number for a node. -/
def number (c : Cursor) (position : Position) : Mark × Cursor :=
  (⟨c.next, position⟩, { c with next := c.next + 1 })

/-- Reads one token of a given kind. -/
def expect (c : Cursor) (kind : Kind) (expected : String) : Except Failure (Token × Cursor) :=
  -- A token of another kind stays where it is, and the message names it.
  match c.pending with
  | [] => .error beyond
  | t :: rest =>
    if t.kind = kind then .ok (t, { c with pending := rest }) else .error (t.refuse expected)

end Cursor

namespace Node

/-- Blocks, choices, loops and parentheses may stand inside each other this often. -/
def maxNesting : Nat := 100

/-- Refuses a level beyond the last one, at the token that opens it. -/
def tooDeep {α : Type} (opening : Token) : Reader α :=
  fun _ => .error (.rejected ⟨.tooDeep maxNesting, some opening.position⟩)

/-- Joins operands from the left for as long as an operator of one class follows. No more operators
can follow than there are tokens at the start, which bounds the loop; when those have run out, so
has the list. -/
def chain (isOperator : Kind → Bool) (operand : Reader Node) :
    (bound : List Token) → Node → Reader Node
  | [], _, _ => .error Cursor.beyond
  | _ :: bound, left, c =>
    -- An operator of another class is left for the caller.
    match c.pending with
    | [] => .error Cursor.beyond
    | operator :: rest =>
      if isOperator operator.kind then do
        let (right, c) ← operand { c with pending := rest }
        -- An operator takes its number behind both operands, but the place of the left one.
        let (mark, c) := c.number left.position
        chain isOperator operand bound (.binary mark left operator right) c
      else .ok (left, c)

/-- Reads operands of one level with the operators between them. -/
def operands (isOperator : Kind → Bool) (operand : Reader Node) : Reader Node := fun c => do
  -- What is left of the list is as long as any chain can become.
  let (left, c) ← operand c
  chain isOperator operand c.pending left c

/-- Reads a number, a variable, or an expression in parentheses, given how to read the inside. -/
def primary (inner : Token → Reader Node) : Reader Node := fun c =>
  match c.pending with
  | [] => .error Cursor.beyond
  | t :: rest =>
    let after := { c with pending := rest }
    match t.kind with
    | .number =>
      -- The node has its number before the numeral is looked at.
      let (mark, after) := after.number t.position
      match Numeral.read t.lexeme with
      | .ok value => .ok (.literal mark value, after)
      | .error e => .error (.numeral e)
    | .name =>
      let (mark, after) := after.number t.position
      .ok (.use mark t, after)
    | .openParen => do
      let (value, c) ← inner t after
      let (_, c) ← c.expect .closeParen "')' after expression"
      return (value, c)
    | _ => .error (t.refuse "an expression")

/-- Reads an expression, given how to read what is in parentheses. -/
def expressionWith (inner : Token → Reader Node) : Reader Node :=
  operands Kind.isComparison <| operands Kind.isAdditive <|
    operands Kind.isMultiplicative (primary inner)

/-- Reads an expression with a number of levels left. -/
def expression : (room : Nat) → Reader Node
  -- No level is left for parentheses, but there may be none in the expression.
  | 0 => expressionWith tooDeep
  | room + 1 => expressionWith fun _ => expression room

/-- Reads the rest of a declaration. -/
def declaration (opening : Token) : Reader Node := fun c => do
  let (name, c) ← c.expect .name "variable name after 'int'"
  let (_, c) ← c.expect .semicolon "';' after variable declaration"
  -- Unlike the other statements, a declaration takes its number when it has been read.
  let (mark, c) := c.number opening.position
  return (.declare mark name, c)

/-- Reads the rest of a print statement. -/
def printing (expr : Reader Node) (opening : Token) : Reader Node := fun c => do
  -- The number is taken before the value is read, so a statement comes before what is in it.
  let (mark, c) := c.number opening.position
  let (_, c) ← c.expect .openParen "'(' after 'print'"
  let (value, c) ← expr c
  let (_, c) ← c.expect .closeParen "')' after print expression"
  let (_, c) ← c.expect .semicolon "';' after print statement"
  return (.print mark value, c)

/-- Reads an assignment. -/
def assignment (expr : Reader Node) : Reader Node := fun c => do
  -- A statement that starts with no keyword can only be an assignment.
  let (name, c) ← c.expect .name "a statement"
  let (mark, c) := c.number name.position
  let (_, c) ← c.expect .assign "'=' after identifier"
  let (value, c) ← expr c
  let (_, c) ← c.expect .semicolon "';' after assignment"
  return (.assign mark name value, c)

/-- Reads the rest of a choice; an alternative belongs to the nearest choice without one. -/
def choice (expr stmt : Reader Node) (opening : Token) : Reader Node := fun c => do
  -- The number is taken before the condition and the branches take theirs.
  let (mark, c) := c.number opening.position
  let (_, c) ← c.expect .openParen "'(' after 'if'"
  let (condition, c) ← expr c
  let (_, c) ← c.expect .closeParen "')' after if condition"
  let (yes, c) ← stmt c
  -- Whoever reads the innermost choice sees the keyword first.
  match c.pending with
  | t :: rest =>
    if t.kind = .kwElse then
      let (no, c) ← stmt { c with pending := rest }
      return (.chooseElse mark condition yes no, c)
    else return (.choose mark condition yes, c)
  | [] => .error Cursor.beyond

/-- Reads the rest of a loop. -/
def looping (expr stmt : Reader Node) (opening : Token) : Reader Node := fun c => do
  -- The number is taken before the condition and the body take theirs.
  let (mark, c) := c.number opening.position
  let (_, c) ← c.expect .openParen "'(' after 'while'"
  let (condition, c) ← expr c
  let (_, c) ← c.expect .closeParen "')' after while condition"
  let (body, c) ← stmt c
  return (.loop mark condition body, c)

/-- Reads statements until a token of a given class comes. Every statement takes a token, so the
tokens at the start bound the loop. -/
def statements (isEnd : Kind → Bool) (stmt : Reader Node) :
    (bound : List Token) → Reader (List Node)
  | [], _ => .error Cursor.beyond
  | _ :: bound, c =>
    match c.pending with
    | [] => .error Cursor.beyond
    | t :: _ =>
      -- The token that ends the row is left for the caller.
      if isEnd t.kind then .ok ([], c)
      else do
        let (first, c) ← stmt c
        let (others, c) ← statements isEnd stmt bound c
        return (first :: others, c)

/-- Reads the rest of a block. -/
def blocking (stmt : Reader Node) (opening : Token) : Reader Node := fun c => do
  let (mark, c) := c.number opening.position
  -- An end mark also ends the row, so that the missing brace is told and not the mark.
  let (body, c) ← statements (fun kind => kind = .closeBrace ∨ kind = .finish) stmt c.pending c
  let (_, c) ← c.expect .closeBrace "'\x7d' after block"
  return (.block mark body, c)

/-- Reads a statement, given how to read expressions on its level, and the expressions and
statements one level deeper if there is such a level. -/
def statementWith (expr : Reader Node) (inner : Option (Reader Node × Reader Node)) : Reader Node :=
  fun c =>
    match c.pending with
    | [] => assignment expr c
    | t :: rest =>
      let after := { c with pending := rest }
      -- Choices, loops and blocks open a level, and their first token is blamed for one too many.
      match t.kind with
      | .kwInt => declaration t after
      | .kwPrint => printing expr t after
      | .kwIf =>
        match inner with
        | none => tooDeep t after
        | some (deepExpr, deepStmt) => choice deepExpr deepStmt t after
      | .kwWhile =>
        match inner with
        | none => tooDeep t after
        | some (deepExpr, deepStmt) => looping deepExpr deepStmt t after
      | .openBrace =>
        match inner with
        | none => tooDeep t after
        | some (_, deepStmt) => blocking deepStmt t after
      | _ => assignment expr c

/-- Reads a statement with a number of levels left. -/
def statement : (room : Nat) → Reader Node
  -- On the last level nothing may open another one.
  | 0 => statementWith (expression 0) none
  | room + 1 => statementWith (expression (room + 1)) (some (expression room, statement room))

/-- Reads a program to its end. -/
def programFrom : Reader Node := fun c => do
  -- The root has the place of the first token, which is the end mark if there is nothing else.
  let first ← c.peek
  let (mark, c) := c.number first.position
  let (body, c) ← statements (· = .finish) (statement maxNesting) c.pending c
  return (.program mark body, c)

/-- The tree of a token list, which has to end with an end mark; the first one ends the program. -/
def parse (tokens : List Token) : Except Failure Node :=
  -- What stands behind the first end mark is not looked at, but the last token is checked.
  if tokens.getLast?.any (·.kind = .finish) then do
    let (tree, _) ← programFrom ⟨tokens, 0⟩
    return tree
  else .error .unterminated

end Node

end BlockCode
