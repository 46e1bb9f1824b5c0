import BlockCode.Node.Parse

/-! What the parser asks for. Wherever it refuses a token, it says what it expects in one of a few
fixed texts, whatever the tokens are. -/

namespace BlockCode.Node

/-- Everything that the parser asks for. -/
def expectations : List String := [
  -- Those of expressions, and then those of the statements.
  "an expression", "')' after expression", "variable name after 'int'",
  "';' after variable declaration", "'(' after 'print'", "')' after print expression",
  "';' after print statement", "a statement", "'=' after identifier", "';' after assignment",
  "'(' after 'if'", "')' after if condition", "'(' after 'while'", "')' after while condition",
  "'\x7d' after block"]

variable {α β : Type}

/-- An attempt that fails for a token expects one of the fixed texts instead. -/
def Foresees (x : Except Failure α) : Prop :=
  -- Failures of another cause expect nothing.
  ∀ expected found place, x = .error (.rejected ⟨.unexpected expected found, place⟩) →
    expected ∈ expectations

/-- What succeeds expects nothing. -/
theorem foresees_ok (a : α) : Foresees (.ok a) := by
  -- There is no failure to look at.
  intro expected found place failed
  cases failed

/-- A refused token was not one of those that are asked for. -/
theorem foresees_refuse (t : Token) {expected : String} (known : expected ∈ expectations) :
    Foresees (.error (t.refuse expected) : Except Failure α) := by
  -- The text that is told is the one given here.
  intro expected found place failed
  cases failed
  exact known

/-- A level too many is no matter of what is expected. -/
theorem foresees_tooDeep (opening : Token) (c : Cursor) :
    Foresees (tooDeep opening c : Except Failure (α × Cursor)) := by
  -- The cause is another one.
  intro expected found place failed
  cases failed

/-- Nothing is expected beyond the last token. -/
theorem foresees_beyond : Foresees (.error Cursor.beyond : Except Failure α) := by
  -- Running out of tokens is told without an expectation.
  intro expected found place failed
  cases failed

/-- Two attempts in a row expect what one of them expects. -/
theorem Foresees.bind {x : Except Failure α} {next : α → Except Failure β} (first : Foresees x)
    (following : ∀ a, Foresees (next a)) : Foresees (x >>= next) := by
  cases x with
  | error failure =>
    -- The failure of the first is the failure of both.
    intro expected found place failed
    exact first expected found place (congrArg _ (Except.error.inj failed))
  | ok a => exact following a

/-- A token of a kind is asked for by one of the texts. -/
theorem foresees_expect (c : Cursor) (kind : Kind) {expected : String}
    (known : expected ∈ expectations) : Foresees (c.expect kind expected) := by
  -- The kind fits or it does not, and without a token nothing is asked for.
  unfold Cursor.expect
  split
  · exact foresees_beyond
  · split
    · exact foresees_ok _
    · exact foresees_refuse _ known

variable {expr stmt operand : Reader Node} {isOperator isEnd : Kind → Bool}

/-- The operators of a level ask for what their operands ask for. -/
theorem foresees_chain (each : ∀ c, Foresees (operand c)) (bound : List Token) (left : Node)
    (c : Cursor) : Foresees (chain isOperator operand bound left c) := by
  -- Each turn of the loop reads one more operand.
  induction bound generalizing left c with
  | nil => exact foresees_beyond
  | cons _ bound ih =>
    unfold chain
    split
    · exact foresees_beyond
    · split
      · exact .bind (each _) fun ⟨right, c⟩ => ih _ _
      · exact foresees_ok _

/-- The operands of a level are asked for as each of them is. -/
theorem foresees_operands (each : ∀ c, Foresees (operand c)) (c : Cursor) :
    Foresees (operands isOperator operand c) :=
  .bind (each c) fun ⟨left, c⟩ => foresees_chain each c.pending left c

/-- A primary is asked for in one of the texts, if what is in parentheses is. -/
theorem foresees_primary {inner : Token → Reader Node} (inside : ∀ t c, Foresees (inner t c))
    (c : Cursor) : Foresees (primary inner c) := by
  obtain ⟨pending, next⟩ := c
  cases pending with
  | nil => exact foresees_beyond
  | cons t rest =>
    obtain ⟨kind, lexeme, position⟩ := t
    -- The kind of the first token selects the alternative.
    cases kind with
    | number =>
      simp only [primary]
      cases Numeral.read lexeme with
      | ok value => exact foresees_ok _
      | error e =>
        -- A number that cannot be read is another failure.
        intro expected found place failed
        cases failed
    | name => exact foresees_ok _
    | openParen =>
      exact .bind (inside _ ⟨rest, next⟩) fun ⟨value, c⟩ =>
        .bind (foresees_expect c _ (by decide)) fun ⟨_, c⟩ => foresees_ok _
    | _ => exact foresees_refuse ⟨_, lexeme, position⟩ (by decide)

/-- An expression is asked for in one of the texts. -/
theorem foresees_expression (room : Nat) (c : Cursor) : Foresees (expression room c) := by
  -- The levels left bound the parentheses inside each other.
  induction room generalizing c with
  | zero =>
    exact foresees_operands (foresees_operands (foresees_operands
      (foresees_primary fun t c => foresees_tooDeep t c))) c
  | succ room ih =>
    exact foresees_operands (foresees_operands (foresees_operands
      (foresees_primary fun _ c => ih c))) c

/-- The rest of a declaration is asked for in one of the texts. -/
theorem foresees_declaration (opening : Token) (c : Cursor) :
    Foresees (declaration opening c) :=
  -- The name and the semicolon are asked for in turn.
  .bind (foresees_expect c _ (by decide)) fun ⟨_, c⟩ =>
    .bind (foresees_expect c _ (by decide)) fun ⟨_, c⟩ => foresees_ok _

/-- The rest of a print statement is asked for in one of the texts. -/
theorem foresees_printing (value : ∀ c, Foresees (expr c)) (opening : Token) (c : Cursor) :
    Foresees (printing expr opening c) :=
  -- The parentheses and the semicolon are asked for; the value asks for itself.
  .bind (foresees_expect _ _ (by decide)) fun ⟨_, c⟩ => .bind (value c) fun ⟨_, c⟩ =>
    .bind (foresees_expect c _ (by decide)) fun ⟨_, c⟩ =>
      .bind (foresees_expect c _ (by decide)) fun ⟨_, c⟩ => foresees_ok _

/-- An assignment is asked for in one of the texts. -/
theorem foresees_assignment (value : ∀ c, Foresees (expr c)) (c : Cursor) :
    Foresees (assignment expr c) :=
  -- The name, the sign and the semicolon are asked for; the value asks for itself.
  .bind (foresees_expect c _ (by decide)) fun ⟨_, _⟩ =>
    .bind (foresees_expect _ _ (by decide)) fun ⟨_, c⟩ => .bind (value c) fun ⟨_, c⟩ =>
      .bind (foresees_expect c _ (by decide)) fun ⟨_, c⟩ => foresees_ok _

/-- The rest of a choice is asked for in one of the texts. -/
theorem foresees_choice (test : ∀ c, Foresees (expr c)) (part : ∀ c, Foresees (stmt c))
    (opening : Token) (c : Cursor) : Foresees (choice expr stmt opening c) := by
  refine .bind (foresees_expect _ _ (by decide)) fun ⟨_, c⟩ => .bind (test c) fun ⟨_, c⟩ =>
    .bind (foresees_expect c _ (by decide)) fun ⟨_, c⟩ => .bind (part c) fun ⟨_, c⟩ => ?_
  -- There may be an alternative.
  simp only
  split
  · split
    · exact .bind (part _) fun ⟨_, c⟩ => foresees_ok _
    · exact foresees_ok _
  · exact foresees_beyond

/-- The rest of a loop is asked for in one of the texts. -/
theorem foresees_looping (test : ∀ c, Foresees (expr c)) (part : ∀ c, Foresees (stmt c))
    (opening : Token) (c : Cursor) : Foresees (looping expr stmt opening c) :=
  -- The parentheses are asked for; the condition and the body ask for themselves.
  .bind (foresees_expect _ _ (by decide)) fun ⟨_, c⟩ => .bind (test c) fun ⟨_, c⟩ =>
    .bind (foresees_expect c _ (by decide)) fun ⟨_, c⟩ => .bind (part c) fun ⟨_, c⟩ => foresees_ok _

/-- A row of statements asks for what they ask for. -/
theorem foresees_statements (each : ∀ c, Foresees (stmt c)) (bound : List Token) (c : Cursor) :
    Foresees (statements isEnd stmt bound c) := by
  -- The bound is counted down with the tokens, and never runs out before them.
  induction bound generalizing c with
  | nil => exact foresees_beyond
  | cons _ bound ih =>
    unfold statements
    split
    · exact foresees_beyond
    · split
      · exact foresees_ok _
      · exact .bind (each c) fun ⟨_, c⟩ => .bind (ih c) fun ⟨_, c⟩ => foresees_ok _

/-- The rest of a block is asked for in one of the texts. -/
theorem foresees_blocking (each : ∀ c, Foresees (stmt c)) (opening : Token) (c : Cursor) :
    Foresees (blocking stmt opening c) :=
  -- Only the closing brace is asked for by the block itself.
  .bind (foresees_statements each _ _) fun ⟨_, c⟩ =>
    .bind (foresees_expect c _ (by decide)) fun ⟨_, c⟩ => foresees_ok _

/-- A statement is asked for in one of the texts. -/
theorem foresees_statementWith {inner : Option (Reader Node × Reader Node)}
    (value : ∀ c, Foresees (expr c)) (below : ∀ deepExpr deepStmt,
      inner = some (deepExpr, deepStmt) → ∀ c, Foresees (deepExpr c) ∧ Foresees (deepStmt c))
    (c : Cursor) : Foresees (statementWith expr inner c) := by
  obtain ⟨pending, next⟩ := c
  cases pending with
  | nil => exact foresees_assignment value ⟨[], next⟩
  | cons t rest =>
    obtain ⟨kind, lexeme, position⟩ := t
    -- Statements around others need one more level, and are refused without it.
    cases kind with
    | kwInt => exact foresees_declaration _ ⟨rest, next⟩
    | kwPrint => exact foresees_printing value _ ⟨rest, next⟩
    | kwIf =>
      cases inner with
      | none => exact foresees_tooDeep _ ⟨rest, next⟩
      | some deep =>
        have parts := below _ _ rfl
        exact foresees_choice (fun c => (parts c).1) (fun c => (parts c).2) _ ⟨rest, next⟩
    | kwWhile =>
      cases inner with
      | none => exact foresees_tooDeep _ ⟨rest, next⟩
      | some deep =>
        have parts := below _ _ rfl
        exact foresees_looping (fun c => (parts c).1) (fun c => (parts c).2) _ ⟨rest, next⟩
    | openBrace =>
      cases inner with
      | none => exact foresees_tooDeep _ ⟨rest, next⟩
      | some deep => exact foresees_blocking (fun c => (below _ _ rfl c).2) _ ⟨rest, next⟩
    | _ => exact foresees_assignment value ⟨⟨_, lexeme, position⟩ :: rest, next⟩

/-- A statement with a number of levels left is asked for in one of the texts. -/
theorem foresees_statement (room : Nat) (c : Cursor) : Foresees (statement room c) := by
  -- With no level left there is nothing inside to ask for anything.
  induction room generalizing c with
  | zero => exact foresees_statementWith (foresees_expression 0) (by simp) c
  | succ room ih =>
    refine foresees_statementWith (foresees_expression _) (fun deepExpr deepStmt same c => ?_) c
    cases same
    exact ⟨foresees_expression room c, ih c⟩

/-- Wherever the parser refuses a token, it expects one of the fixed texts. -/
theorem foresees_parse (tokens : List Token) : Foresees (parse tokens) := by
  have first : Foresees (Cursor.peek ⟨tokens, 0⟩) := by
    cases tokens with
    | nil => exact foresees_beyond
    | cons t rest => exact foresees_ok t
  unfold parse
  split
  · -- A program is a row of statements.
    exact .bind (.bind first fun t => .bind (foresees_statements (foresees_statement _) _ _)
      fun ⟨body, c⟩ => foresees_ok _) fun ⟨tree, c⟩ => foresees_ok _
  · -- A list without an end mark is not read at all.
    intro expected found place failed
    cases failed

end BlockCode.Node
