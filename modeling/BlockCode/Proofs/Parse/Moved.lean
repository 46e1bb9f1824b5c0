import BlockCode.Node.Parse

/-! Reading does not look at places: tokens at other places are read to the same tree at those
places, and other numbers to begin with only change the numbers. -/

namespace BlockCode

/-- Other places for the tokens, and a number to be added to those of the nodes. -/
structure Relocation where
  place : Position → Position
  gap : Nat

section

variable (r : Relocation)

/-- A token at its other place. -/
def Token.moved (t : Token) : Token := { t with position := r.place t.position }

/-- A mark with its other number and place. -/
def Mark.moved (m : Mark) : Mark := ⟨r.gap + m.id, r.place m.position⟩

namespace Node

mutual

/-- A tree with its other numbers and places. -/
def moved : Node → Node
  -- The shape and the values stay; the marks and tokens move.
  | program mark body => program (mark.moved r) (movedAll body)
  | block mark body => block (mark.moved r) (movedAll body)
  | declare mark name => declare (mark.moved r) (name.moved r)
  | assign mark name value => assign (mark.moved r) (name.moved r) value.moved
  | print mark value => print (mark.moved r) value.moved
  | choose mark condition yes => choose (mark.moved r) condition.moved yes.moved
  | chooseElse mark condition yes no =>
    chooseElse (mark.moved r) condition.moved yes.moved no.moved
  | loop mark condition body => loop (mark.moved r) condition.moved body.moved
  | binary mark left operator right =>
    binary (mark.moved r) left.moved (operator.moved r) right.moved
  | literal mark value => literal (mark.moved r) value
  | use mark name => use (mark.moved r) (name.moved r)
  | unknown mark variant => unknown (mark.moved r) variant

/-- Some trees with their other numbers and places. -/
def movedAll : List Node → List Node
  -- All trees move in the same way.
  | [] => []
  | n :: ns => n.moved :: movedAll ns

end

/-- Trees are moved one by one. -/
theorem movedAll_eq_map (ns : List Node) : movedAll r ns = ns.map (moved r) := by
  -- The function on rows is written out for the sake of its recursion, and is a plain map.
  induction ns with
  | nil => rfl
  | cons n ns ih => rw [movedAll, ih, List.map_cons]

/-- The mark of a tree goes where the tree goes. -/
@[simp] theorem mark_moved (n : Node) : (n.moved r).mark = n.mark.moved r := by
  cases n <;> rfl

end Node

/-- A failure at its other place, if it has one. -/
def Failure.moved : Failure → Failure
  | rejected rejection => rejected ⟨rejection.cause, rejection.position.map r.place⟩
  -- A defect has no place, and neither has a numeral.
  | failure => failure

/-- A cursor in front of the moved tokens. -/
def Cursor.moved (c : Cursor) : Cursor := ⟨c.pending.map (Token.moved r), r.gap + c.next⟩

end

namespace Node

variable {r : Relocation} {α β : Type} {f : α → α} {g : β → β}

/-- Of two outcomes the second is the first one, moved. -/
inductive Moved (r : Relocation) (f : α → α) :
    Except Failure (α × Cursor) → Except Failure (α × Cursor) → Prop where
  | read (a : α) (c : Cursor) : Moved r f (.ok (a, c)) (.ok (f a, c.moved r))
  | failed (e : Failure) : Moved r f (.error e) (.error (e.moved r))

/-- Where something is read, it is read moved. -/
theorem Moved.eq_ok {a : α} {c : Cursor} {y : Except Failure (α × Cursor)}
    (moved : Moved r f (.ok (a, c)) y) : y = .ok (f a, c.moved r) := by
  -- A reading that succeeded was not a failure that is passed on.
  cases moved
  rfl

/-- If both parts of a reading are moved, so is the whole. -/
theorem Moved.bind {x y : Except Failure (α × Cursor)}
    {next next' : α × Cursor → Except Failure (β × Cursor)} (first : Moved r f x y)
    (following : ∀ a c, Moved r g (next (a, c)) (next' (f a, c.moved r))) :
    Moved r g (x >>= next) (y >>= next') := by
  -- A failure does not depend on positions, so it ends both readings alike.
  cases first with
  | read a c => exact following a c
  | failed e => exact .failed e

/-- A token that is expected is expected at its other place as well. -/
theorem moved_expect (c : Cursor) (kind : Kind) (expected : String) :
    Moved r (Token.moved r) (c.expect kind expected) ((c.moved r).expect kind expected) := by
  -- Whether it is the right one is a matter of its kind.
  obtain ⟨pending, next⟩ := c
  cases pending with
  | nil => exact .failed _
  | cons t rest =>
    simp only [Cursor.expect, Cursor.moved, List.map_cons]
    by_cases same : t.kind = kind
    · rw [if_pos same, if_pos (show (t.moved r).kind = kind from same)]
      exact .read t ⟨rest, next⟩
    · rw [if_neg same, if_neg (show (t.moved r).kind ≠ kind from same)]
      exact .failed (t.refuse expected)

/-- In front of moved tokens, the second reader comes to what the first one does, moved. -/
def Follows (r : Relocation) (reader reader' : Reader Node) : Prop :=
  ∀ c, Moved r (moved r) (reader c) (reader' (c.moved r))

variable {expr stmt operand : Reader Node}

/-- Operators are joined alike. -/
theorem moved_chain {isOperator : Kind → Bool} (follows : Follows r operand operand)
    (bound : List Token) (left : Node) (c : Cursor) :
    Moved r (moved r) (chain isOperator operand bound left c)
      (chain isOperator operand (bound.map (Token.moved r)) (left.moved r) (c.moved r)) := by
  induction bound generalizing left c with
  | nil => exact .failed _
  | cons _ bound ih =>
    obtain ⟨pending, next⟩ := c
    cases pending with
    | nil => exact .failed _
    | cons operator rest =>
      simp only [chain, List.map_cons, Cursor.moved]
      -- The kind of the next token tells whether there is another operand.
      by_cases joins : isOperator operator.kind = true
      · rw [if_pos joins, if_pos (show isOperator (operator.moved r).kind = true from joins)]
        refine .bind (follows ⟨rest, next⟩) fun right c => ?_
        -- The new node begins where its left operand does.
        have begins : (left.moved r).position = r.place left.position := by
          rw [Node.position, mark_moved]
          rfl
        simp only [begins]
        exact ih (.binary ⟨c.next, left.position⟩ left operator right) ⟨c.pending, c.next + 1⟩
      · rw [if_neg joins, if_neg (show ¬ isOperator (operator.moved r).kind = true from joins)]
        exact .read left ⟨operator :: rest, next⟩

/-- Operands of a level are read alike. -/
theorem follows_operands {isOperator : Kind → Bool} (follows : Follows r operand operand) :
    Follows r (operands isOperator operand) (operands isOperator operand) := by
  -- The first operand is read before the chain, which starts from where that ended.
  intro c
  exact .bind (follows c) fun left c => moved_chain follows c.pending left c

/-- Primaries are read alike if the inside of parentheses is. -/
theorem follows_primary {inner : Token → Reader Node}
    (follows : ∀ t, Follows r (inner t) (inner (t.moved r))) :
    Follows r (primary inner) (primary inner) := by
  -- The kind of the first token selects the alternative, and its text is the value.
  intro c
  obtain ⟨pending, next⟩ := c
  cases pending with
  | nil => exact .failed _
  | cons t rest =>
    obtain ⟨kind, lexeme, position⟩ := t
    cases kind with
    | number =>
      simp only [primary, Cursor.moved, List.map_cons, Token.moved]
      cases Numeral.read lexeme with
      | error e => exact .failed (.numeral e)
      | ok value => exact .read (Node.literal ⟨next, position⟩ value) ⟨rest, next + 1⟩
    | name => exact .read (Node.use ⟨next, position⟩ ⟨.name, lexeme, position⟩) ⟨rest, next + 1⟩
    | openParen =>
      exact .bind (follows ⟨.openParen, lexeme, position⟩ ⟨rest, next⟩) fun value c =>
        .bind (moved_expect c _ _) fun _ c => .read value c
    | _ => exact .failed (Token.refuse ⟨_, lexeme, position⟩ "an expression")

/-- Expressions are read alike if the inside of parentheses is. -/
theorem follows_expressionWith {inner : Token → Reader Node}
    (follows : ∀ t, Follows r (inner t) (inner (t.moved r))) :
    Follows r (expressionWith inner) (expressionWith inner) :=
  follows_operands (follows_operands (follows_operands (follows_primary follows)))

/-- Expressions are read alike. -/
theorem follows_expression (room : Nat) : Follows r (expression room) (expression room) := by
  -- At the innermost level parentheses are refused in both; elsewhere they hold a level less.
  induction room with
  | zero => exact follows_expressionWith fun t c => .failed _
  | succ room ih => exact follows_expressionWith fun _ => ih

/-- Declarations are read alike. -/
theorem follows_declaration (opening : Token) :
    Follows r (declaration opening) (declaration (opening.moved r)) := by
  -- Two tokens are expected; the node keeps the position of the keyword in front of them.
  intro c
  exact .bind (moved_expect c _ _) fun name c => .bind (moved_expect c _ _) fun _ c =>
    .read (Node.declare ⟨c.next, opening.position⟩ name) ⟨c.pending, c.next + 1⟩

/-- Print statements are read alike if their values are. -/
theorem follows_printing (value : Follows r expr expr) (opening : Token) :
    Follows r (printing expr opening) (printing expr (opening.moved r)) := by
  -- The number is taken before the value is read, so the mark of the node is fixed first.
  intro c
  exact .bind (moved_expect ⟨c.pending, c.next + 1⟩ _ _) fun _ c' => .bind (value c') fun n c' =>
    .bind (moved_expect c' _ _) fun _ c' => .bind (moved_expect c' _ _) fun _ c' =>
      .read (Node.print ⟨c.next, opening.position⟩ n) c'

/-- Assignments are read alike if their values are. -/
theorem follows_assignment (value : Follows r expr expr) :
    Follows r (assignment expr) (assignment expr) := by
  -- The position of the node is that of the name, which is moved with it.
  intro c
  exact .bind (moved_expect c _ _) fun name c =>
    .bind (moved_expect ⟨c.pending, c.next + 1⟩ _ _) fun _ c' => .bind (value c') fun n c' =>
      .bind (moved_expect c' _ _) fun _ c' => .read (Node.assign ⟨c.next, name.position⟩ name n) c'

/-- Loops are read alike if their parts are. -/
theorem follows_looping (test : Follows r expr expr) (part : Follows r stmt stmt)
    (opening : Token) : Follows r (looping expr stmt opening)
      (looping expr stmt (opening.moved r)) := by
  -- As for a print statement, the number is taken before the parts are read.
  intro c
  exact .bind (moved_expect ⟨c.pending, c.next + 1⟩ _ _) fun _ c' => .bind (test c') fun n c' =>
    .bind (moved_expect c' _ _) fun _ c' => .bind (part c') fun m c' =>
      .read (Node.loop ⟨c.next, opening.position⟩ n m) c'

/-- Choices are read alike if their parts are. -/
theorem follows_choice (test : Follows r expr expr) (part : Follows r stmt stmt)
    (opening : Token) : Follows r (choice expr stmt opening)
      (choice expr stmt (opening.moved r)) := by
  intro c
  refine .bind (moved_expect ⟨c.pending, c.next + 1⟩ _ _) fun _ c' => .bind (test c') fun n c' =>
    .bind (moved_expect c' _ _) fun _ c' => .bind (part c') fun m c' => ?_
  -- The kind of the next token tells whether there is an alternative.
  obtain ⟨pending, next⟩ := c'
  cases pending with
  | nil => exact .failed _
  | cons t rest =>
    simp only [Cursor.moved, List.map_cons]
    by_cases other : t.kind = .kwElse
    · rw [if_pos other, if_pos (show (t.moved r).kind = .kwElse from other)]
      exact .bind (part ⟨rest, next⟩) fun m' c' =>
        .read (Node.chooseElse ⟨c.next, opening.position⟩ n m m') c'
    · rw [if_neg other, if_neg (show (t.moved r).kind ≠ .kwElse from other)]
      exact .read (Node.choose ⟨c.next, opening.position⟩ n m) ⟨t :: rest, next⟩

/-- Rows of statements are read alike if the statements are. -/
theorem moved_statements {isEnd : Kind → Bool} (follows : Follows r stmt stmt) (bound : List Token)
    (c : Cursor) : Moved r (movedAll r) (statements isEnd stmt bound c)
      (statements isEnd stmt (bound.map (Token.moved r)) (c.moved r)) := by
  -- The bound is counted down with the tokens; the kinds that end a row are not moved.
  induction bound generalizing c with
  | nil => exact .failed _
  | cons _ bound ih =>
    obtain ⟨pending, next⟩ := c
    cases pending with
    | nil => exact .failed _
    | cons t rest =>
      simp only [statements, List.map_cons, Cursor.moved]
      by_cases ends : isEnd t.kind = true
      · rw [if_pos ends, if_pos (show isEnd (t.moved r).kind = true from ends)]
        exact .read [] ⟨t :: rest, next⟩
      · rw [if_neg ends, if_neg (show ¬ isEnd (t.moved r).kind = true from ends)]
        exact .bind (follows ⟨t :: rest, next⟩) fun n c => .bind (ih c) fun ns c =>
          .read (n :: ns) c

/-- Blocks are read alike if their statements are. -/
theorem follows_blocking (follows : Follows r stmt stmt) (opening : Token) :
    Follows r (blocking stmt opening) (blocking stmt (opening.moved r)) := by
  -- The number of the block is taken before those of the statements inside it.
  intro c
  exact .bind (moved_statements follows c.pending ⟨c.pending, c.next + 1⟩) fun ns c' =>
    .bind (moved_expect c' _ _) fun _ c' => .read (Node.block ⟨c.next, opening.position⟩ ns) c'

/-- Statements are read alike if what is read on their own and on the next level is. -/
theorem follows_statementWith {inner : Option (Reader Node × Reader Node)}
    (value : Follows r expr expr) (below : ∀ deepExpr deepStmt, inner = some (deepExpr, deepStmt) →
      Follows r deepExpr deepExpr ∧ Follows r deepStmt deepStmt) :
    Follows r (statementWith expr inner) (statementWith expr inner) := by
  -- The kind of the first token selects the alternative.
  intro c
  obtain ⟨pending, next⟩ := c
  cases pending with
  | nil => exact follows_assignment value ⟨[], next⟩
  | cons t rest =>
    obtain ⟨kind, lexeme, position⟩ := t
    cases kind with
    | kwInt => exact follows_declaration ⟨.kwInt, lexeme, position⟩ ⟨rest, next⟩
    | kwPrint => exact follows_printing value ⟨.kwPrint, lexeme, position⟩ ⟨rest, next⟩
    | kwIf =>
      cases inner with
      | none => exact .failed _
      | some deep =>
        exact follows_choice (below _ _ rfl).1 (below _ _ rfl).2 ⟨.kwIf, lexeme, position⟩
          ⟨rest, next⟩
    | kwWhile =>
      cases inner with
      | none => exact .failed _
      | some deep =>
        exact follows_looping (below _ _ rfl).1 (below _ _ rfl).2 ⟨.kwWhile, lexeme, position⟩
          ⟨rest, next⟩
    | openBrace =>
      cases inner with
      | none => exact .failed _
      | some deep =>
        exact follows_blocking (below _ _ rfl).2 ⟨.openBrace, lexeme, position⟩ ⟨rest, next⟩
    | _ => exact follows_assignment value ⟨⟨_, lexeme, position⟩ :: rest, next⟩

/-- Statements are read alike. -/
theorem follows_statement (room : Nat) : Follows r (statement room) (statement room) := by
  -- With no room left no part of a statement may hold another, so there is nothing to compare.
  induction room with
  | zero => exact follows_statementWith (follows_expression 0) (by simp)
  | succ room ih =>
    refine follows_statementWith (follows_expression (room + 1)) ?_
    intro deepExpr deepStmt same
    cases same
    exact ⟨follows_expression room, ih⟩

/-- Programs are read alike. -/
theorem follows_programFrom : Follows r programFrom programFrom := by
  -- The root takes the first number and the place of the first token.
  intro c
  obtain ⟨pending, next⟩ := c
  cases pending with
  | nil => exact .failed _
  | cons t rest =>
    exact .bind (moved_statements (follows_statement maxNesting) (t :: rest) ⟨t :: rest, next + 1⟩)
      fun ns c => .read (Node.program ⟨next, t.position⟩ ns) c

/-- Moving the tokens moves the tree, or else the failure. -/
theorem parse_moved (still : r.gap = 0) (tokens : List Token) :
    parse (tokens.map (Token.moved r)) =
      ((parse tokens).map (moved r)).mapError (Failure.moved r) := by
  -- Whether the list is closed is a matter of kinds as well.
  have last : (tokens.map (Token.moved r)).getLast?.any (·.kind = .finish) =
      tokens.getLast?.any (·.kind = .finish) := by
    rw [List.getLast?_map, Option.any_map]
    rfl
  unfold parse
  rw [last]
  split
  · have read := follows_programFrom (r := r) ⟨tokens, 0⟩
    simp only [Cursor.moved, still, Nat.add_zero] at read
    generalize programFrom ⟨tokens, 0⟩ = x at read
    generalize programFrom ⟨tokens.map (Token.moved r), 0⟩ = y at read
    cases read <;> rfl
  · rfl

end Node

end BlockCode
