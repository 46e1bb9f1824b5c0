import BlockCode.Proofs.Parse.Completeness

/-! More levels than were left change nothing about a reading, unless a level was missing. -/

namespace BlockCode.Node

open Grammar

variable {α β : Type}

/-- Two outcomes, the second with more levels left, differ only if the first had too few. -/
def Spares (less more : Except Failure (α × Cursor)) : Prop :=
  less = more ∨ ∃ place, less = .error (.rejected ⟨.tooDeep maxNesting, place⟩)

namespace Spares

/-- Equal outcomes do not differ. -/
theorem refl (x : Except Failure (α × Cursor)) : Spares x x := .inl rfl

/-- Still more levels make no difference to an outcome that had enough. -/
theorem trans {x y z : Except Failure (α × Cursor)} (first : Spares x y) (second : Spares y z) :
    Spares x z := by
  -- If levels were missing already, that outcome is what is compared.
  rcases first with rfl | missing
  · exact second
  · exact .inr missing

/-- Where both parts had levels enough, so had the whole. -/
theorem bind {x y : Except Failure (α × Cursor)} {f g : α × Cursor → Except Failure (β × Cursor)}
    (first : Spares x y) (following : ∀ p, Spares (f p) (g p)) : Spares (x >>= f) (y >>= g) := by
  -- A level that was missing in the first part is missing in the whole.
  rcases first with rfl | ⟨place, rfl⟩
  · cases x with
    | error e => exact .refl _
    | ok p => exact following p
  · exact .inr ⟨place, rfl⟩

end Spares

/-- A reader comes to the same as one with more levels left, unless it has too few. -/
def Agreeing (less more : Reader α) : Prop := ∀ c, Spares (less c) (more c)

variable {expr expr' stmt stmt' : Reader Node}

/-- The loop over operands has as many levels as they have. -/
theorem spares_chain {isOperator : Kind → Bool} {operand operand' : Reader Node}
    (agree : Agreeing operand operand') (bound : List Token) (left : Node) (c : Cursor) :
    Spares (chain isOperator operand bound left c) (chain isOperator operand' bound left c) := by
  -- The bound is counted down with the tokens; each operand either had enough levels or missed one.
  induction bound generalizing left c with
  | nil => exact .refl _
  | cons _ bound ih =>
    obtain ⟨pending, next⟩ := c
    cases pending with
    | nil => exact .refl _
    | cons operator rest =>
      simp only [chain]
      split
      · exact .bind (agree _) fun _ => ih _ _
      · exact .refl _

/-- Operands with operators between them have as many levels as each of them. -/
theorem agreeing_operands {isOperator : Kind → Bool} {operand operand' : Reader Node}
    (agree : Agreeing operand operand') :
    Agreeing (operands isOperator operand) (operands isOperator operand') := by
  -- The first operand, and then the loop over the others.
  intro c
  exact .bind (agree c) fun _ => spares_chain agree _ _ _

/-- Primaries have as many levels as the inside of their parentheses. -/
theorem agreeing_primary {inner inner' : Token → Reader Node}
    (agree : ∀ t, Agreeing (inner t) (inner' t)) : Agreeing (primary inner) (primary inner') := by
  -- Only what stands in parentheses is read with levels of its own.
  intro c
  unfold primary
  cases c.pending with
  | nil => exact .refl _
  | cons t rest =>
    dsimp only
    split
    · exact .refl _
    · exact .refl _
    · exact .bind (agree t _) fun _ => .refl _
    · exact .refl _

/-- Expressions have as many levels as the inside of their parentheses. -/
theorem agreeing_expressionWith {inner inner' : Token → Reader Node}
    (agree : ∀ t, Agreeing (inner t) (inner' t)) :
    Agreeing (expressionWith inner) (expressionWith inner') :=
  agreeing_operands (agreeing_operands (agreeing_operands (agreeing_primary agree)))

/-- Expressions are read with one level more as well. -/
theorem agreeing_expression (room : Nat) :
    Agreeing (expression room) (expression (room + 1)) := by
  -- With no level left parentheses miss one; with some, their inside has one level less.
  induction room with
  | zero => exact agreeing_expressionWith fun t c => .inr ⟨_, rfl⟩
  | succ room ih => exact agreeing_expressionWith fun _ => ih

/-- Print statements have as many levels as their values. -/
theorem agreeing_printing (agree : Agreeing expr expr') (opening : Token) :
    Agreeing (printing expr opening) (printing expr' opening) := by
  -- Tokens that are expected take no levels.
  intro c
  exact .bind (.refl _) fun _ => .bind (agree _) fun _ => .refl _

/-- Assignments have as many levels as their values. -/
theorem agreeing_assignment (agree : Agreeing expr expr') :
    Agreeing (assignment expr) (assignment expr') := by
  -- As for a print statement, only the value takes levels.
  intro c
  exact .bind (.refl _) fun _ => .bind (.refl _) fun _ => .bind (agree _) fun _ => .refl _

/-- Loops have as many levels as their parts. -/
theorem agreeing_looping (expression : Agreeing expr expr') (statement : Agreeing stmt stmt')
    (opening : Token) : Agreeing (looping expr stmt opening) (looping expr' stmt' opening) := by
  -- The condition and the body both take from the same levels.
  intro c
  exact .bind (.refl _) fun _ => .bind (expression _) fun _ => .bind (.refl _) fun _ =>
    .bind (statement _) fun _ => .refl _

/-- Choices have as many levels as their parts. -/
theorem agreeing_choice (expression : Agreeing expr expr') (statement : Agreeing stmt stmt')
    (opening : Token) : Agreeing (choice expr stmt opening) (choice expr' stmt' opening) := by
  intro c
  refine .bind (.refl _) fun _ => .bind (expression _) fun _ => .bind (.refl _) fun _ =>
    .bind (statement _) fun _ => ?_
  -- The second part is read only if there is one.
  dsimp only
  split
  · split
    · exact .bind (statement _) fun _ => .refl _
    · exact .refl _
  · exact .refl _

/-- The loop over statements has as many levels as they have. -/
theorem spares_statements {isEnd : Kind → Bool} (agree : Agreeing stmt stmt') (bound : List Token)
    (c : Cursor) : Spares (statements isEnd stmt bound c) (statements isEnd stmt' bound c) := by
  -- Tokens that end the row take no levels, so only the statements are compared.
  induction bound generalizing c with
  | nil => exact .refl _
  | cons _ bound ih =>
    obtain ⟨pending, next⟩ := c
    cases pending with
    | nil => exact .refl _
    | cons t rest =>
      simp only [statements]
      split
      · exact .refl _
      · exact .bind (agree _) fun _ => .bind (ih _) fun _ => .refl _

/-- Blocks have as many levels as their statements. -/
theorem agreeing_blocking (agree : Agreeing stmt stmt') (opening : Token) :
    Agreeing (blocking stmt opening) (blocking stmt' opening) := by
  -- The closing brace takes no level.
  intro c
  exact .bind (spares_statements agree _ _) fun _ => .refl _

/-- Statements have as many levels as what is read on their own and on the next level. -/
theorem agreeing_statementWith {inner : Option (Reader Node × Reader Node)}
    (expression : Agreeing expr expr') {deepExpr deepStmt : Reader Node}
    (below : ∀ deepExpr' deepStmt', inner = some (deepExpr', deepStmt') →
      Agreeing deepExpr' deepExpr ∧ Agreeing deepStmt' deepStmt) :
    Agreeing (statementWith expr inner) (statementWith expr' (some (deepExpr, deepStmt))) := by
  -- The kind of the first token selects the alternative.
  intro c
  unfold statementWith
  cases c.pending with
  | nil => exact agreeing_assignment expression c
  | cons t rest =>
    dsimp only
    split
    · exact .refl _
    · exact agreeing_printing expression t _
    · cases inner with
      | none => exact .inr ⟨_, rfl⟩
      | some deep => exact agreeing_choice (below _ _ rfl).1 (below _ _ rfl).2 t _
    · cases inner with
      | none => exact .inr ⟨_, rfl⟩
      | some deep => exact agreeing_looping (below _ _ rfl).1 (below _ _ rfl).2 t _
    · cases inner with
      | none => exact .inr ⟨_, rfl⟩
      | some deep => exact agreeing_blocking (below _ _ rfl).2 t _
    · exact agreeing_assignment expression c

/-- Statements are read with one level more as well. -/
theorem agreeing_statement (room : Nat) : Agreeing (statement room) (statement (room + 1)) := by
  -- With no level left no part may hold another statement, so both refuse alike.
  induction room with
  | zero => exact agreeing_statementWith (agreeing_expression 0) (by simp)
  | succ room ih =>
    refine agreeing_statementWith (agreeing_expression (room + 1)) ?_
    intro deepExpr deepStmt same
    cases same
    exact ⟨agreeing_expression room, ih⟩

/-- Statements are read with any number of levels more as well. -/
theorem agreeing_statement_le {room room' : Nat} (more : room ≤ room') :
    Agreeing (statement room) (statement room') := by
  -- The levels are added one at a time.
  induction more with
  | refl => exact fun c => .refl _
  | step _ ih => exact fun c => (ih c).trans (agreeing_statement _ c)

end BlockCode.Node
