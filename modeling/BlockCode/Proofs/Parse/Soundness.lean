import BlockCode.Node.Parse
import BlockCode.Proofs.Attempt
import BlockCode.Proofs.Grammar.Numbered

/-! What is read from tokens is derived by the grammar, with alternatives at the nearest choices and
no more levels than there is room for. -/

namespace BlockCode.Node

open Grammar

variable {category : Category} {level : Level} {bound : Nat}

/-- A derivation explains the way of a cursor: it covers the tokens between two places, has fewer
levels than a bound, and is not left open before an alternative. -/
structure Explains (bound : Nat) (d : Derivation category) (c c' : Cursor) : Prop where
  covers : c.pending = d.tokens ++ c'.pending
  nearest : d.Nearest
  shallow : d.depth < bound
  settled : d.isOpen = true → ∀ t rest, c'.pending = t :: rest → t.kind ≠ .kwElse

/-- A reader reads only expressions of a level. -/
def SoundExpression (level : Level) (bound : Nat) (r : Reader Node) : Prop :=
  -- A reader that fails need not explain anything.
  ∀ ⦃c c' : Cursor⦄ ⦃n : Node⦄, r c = .ok (n, c') →
    ∃ d : Derivation (.expression level), Explains bound d c c' ∧ d.build c.next = (n, c'.next)

/-- A reader reads only statements. -/
def SoundStatement (bound : Nat) (r : Reader Node) : Prop :=
  -- The derivation is of the tokens taken, and its numbers start where the cursor's did.
  ∀ ⦃c c' : Cursor⦄ ⦃n : Node⦄, r c = .ok (n, c') →
    ∃ d : Derivation .statement, Explains bound d c c' ∧ d.build c.next = (n, c'.next)

/-- A token that was expected stands in front and is passed. -/
theorem expect_ok {c c' : Cursor} {t : Token} {kind : Kind} {expected : String}
    (read : c.expect kind expected = .ok (t, c')) :
    t.kind = kind ∧ c = ⟨t :: c'.pending, c'.next⟩ := by
  -- The only way to succeed is a first token of that kind.
  obtain ⟨pending, next⟩ := c
  cases pending with
  | nil => simp [Cursor.expect] at read
  | cons first rest =>
    by_cases same : first.kind = kind
    · simp only [Cursor.expect, if_pos same, Except.ok.injEq, Prod.mk.injEq] at read
      obtain ⟨rfl, rfl⟩ := read
      exact ⟨same, rfl⟩
    · simp [Cursor.expect, same] at read

/-- Operands joined from the left are the tail of a level. -/
theorem chain_sound {operand : Reader Node} (sound : SoundExpression level.operand bound operand)
    (tokens : List Token) {left n : Node} {c c' : Cursor} (positive : 0 < bound)
    (read : chain level.isOperator operand tokens left c = .ok (n, c')) :
    ∃ d : Derivation (.tail level), Explains bound d c c' ∧ d.build left c.next = (n, c'.next) := by
  -- Each turn of the loop adds one operator with its operand.
  induction tokens generalizing left c with
  | nil => simp [chain] at read
  | cons _ tokens ih =>
    obtain ⟨pending, next⟩ := c
    cases pending with
    | nil => simp [chain] at read
    | cons operator rest =>
      by_cases joins : level.isOperator operator.kind = true
      · simp only [chain, joins, if_true, bind_eq_ok] at read
        obtain ⟨⟨right, middle⟩, first, read⟩ := read
        obtain ⟨operandPart, explained, built⟩ := sound first
        obtain ⟨others, explainedOthers, builtOthers⟩ := ih read
        refine ⟨.more ⟨operator, joins⟩ operandPart others, ⟨?_, ?_, ?_, ?_⟩, ?_⟩
        · have covers := explained.covers
          have further := explainedOthers.covers
          simp only [Cursor.number] at covers further
          simp [Derivation.tokens, covers, further]
        · exact ⟨explained.nearest, explainedOthers.nearest⟩
        · exact max_lt explained.shallow explainedOthers.shallow
        · intro opened; simp [Derivation.isOpen] at opened
        · simp only [Derivation.build, built]
          exact builtOthers
      · simp only [chain, joins, Bool.false_eq_true, if_false, Except.ok.injEq,
          Prod.mk.injEq] at read
        obtain ⟨rfl, rfl⟩ := read
        exact ⟨.done, ⟨rfl, trivial, positive, by simp [Derivation.isOpen]⟩, rfl⟩

/-- Operands with the operators of a level between them are an expression of that level. -/
theorem operands_sound {operand : Reader Node} (composite : level ≠ .primary)
    (sound : SoundExpression level.operand bound operand) :
    SoundExpression level bound (operands level.isOperator operand) := by
  -- The first operand is read like the others, and the loop reads the rest.
  intro c c' n read
  obtain ⟨⟨left, middle⟩, first, read⟩ := bind_eq_ok.mp read
  obtain ⟨operandPart, explained, built⟩ := sound first
  obtain ⟨others, explainedOthers, builtOthers⟩ :=
    chain_sound sound _ (Nat.zero_lt_of_lt explained.shallow) read
  refine ⟨.chain composite operandPart others, ⟨?_, ?_, ?_, ?_⟩, ?_⟩
  · rw [explained.covers, explainedOthers.covers, Derivation.tokens, List.append_assoc]
  · exact ⟨explained.nearest, explainedOthers.nearest⟩
  · exact max_lt explained.shallow explainedOthers.shallow
  · intro opened; simp [Derivation.isOpen] at opened
  · simp only [Derivation.build, built]
    exact builtOthers

/-- Numbers, variables and parentheses are primaries; parentheses are one level of their own. -/
theorem primary_sound {inner : Token → Reader Node}
    (sound : ∀ t, SoundExpression .comparison bound (inner t)) :
    SoundExpression .primary (bound + 1) (primary inner) := by
  -- The kind of the first token selects the alternative.
  intro c c' n read
  obtain ⟨pending, next⟩ := c
  cases pending with
  | nil => simp [primary] at read
  | cons t rest =>
    unfold primary at read
    dsimp only at read
    split at read
    · rename_i kind
      simp only [Cursor.number] at read
      split at read
      · rename_i value numeral
        simp only [Except.ok.injEq, Prod.mk.injEq] at read
        obtain ⟨rfl, rfl⟩ := read
        refine ⟨.number ⟨t, kind⟩, ⟨rfl, trivial, Nat.succ_pos _, by simp [Derivation.isOpen]⟩, ?_⟩
        simp [Derivation.build, Terminal.value, numeral]
      · cases read
    · rename_i kind
      simp only [Cursor.number, Except.ok.injEq, Prod.mk.injEq] at read
      obtain ⟨rfl, rfl⟩ := read
      exact ⟨.use ⟨t, kind⟩, ⟨rfl, trivial, Nat.succ_pos _, by simp [Derivation.isOpen]⟩, rfl⟩
    · rename_i kind
      obtain ⟨⟨value, middle⟩, inside, read⟩ := bind_eq_ok.mp read
      obtain ⟨⟨closing, last⟩, closed, read⟩ := bind_eq_ok.mp read
      cases read
      obtain ⟨part, explained, built⟩ := sound t inside
      obtain ⟨closingKind, rfl⟩ := expect_ok closed
      refine ⟨.group ⟨t, kind⟩ part ⟨closing, closingKind⟩, ⟨?_, ?_, ?_, ?_⟩, built⟩
      · have covers := explained.covers
        simp only at covers
        simp [Derivation.tokens, covers]
      · exact explained.nearest
      · exact Nat.succ_lt_succ explained.shallow
      · intro opened; simp [Derivation.isOpen] at opened
    · cases read

/-- Reading an expression goes through all levels down to the primaries. -/
theorem expressionWith_sound {inner : Token → Reader Node}
    (sound : ∀ t, SoundExpression .comparison bound (inner t)) :
    SoundExpression .comparison (bound + 1) (expressionWith inner) := by
  -- Each level reads its operands on the next one.
  have multiplicative : SoundExpression .multiplicative (bound + 1) _ :=
    operands_sound (by decide) (primary_sound sound)
  have additive : SoundExpression .additive (bound + 1) _ :=
    operands_sound (by decide) multiplicative
  have comparison : SoundExpression .comparison (bound + 1) _ := operands_sound (by decide) additive
  -- The operators of the levels are those that the reader looks for.
  rw [Level.isOperator_comparison, Level.isOperator_additive, Level.isOperator_multiplicative]
    at comparison
  exact comparison

/-- Nothing is read beyond the last level. -/
theorem tooDeep_sound (t : Token) : SoundExpression level 0 (tooDeep t) := by
  -- It fails whatever comes.
  intro c c' n read
  cases read

/-- What is read as an expression is one, with at most as many levels as there is room for. -/
theorem expression_sound (room : Nat) :
    SoundExpression .comparison (room + 1) (expression room) := by
  -- Parentheses use one level up.
  induction room with
  | zero => exact expressionWith_sound tooDeep_sound
  | succ room ih => exact expressionWith_sound fun _ => ih

/-- A reader that continues behind an opening token reads only statements that start with it. -/
def SoundBehind (kind : Kind) (bound : Nat) (r : Token → Reader Node) : Prop :=
  -- The opening token was taken by the caller, so it is put back in front here.
  ∀ (opening : Terminal kind) ⦃c c' : Cursor⦄ ⦃n : Node⦄, r opening.val c = .ok (n, c') →
    ∃ d : Derivation .statement, Explains bound d ⟨opening.val :: c.pending, c.next⟩ c' ∧
      d.build c.next = (n, c'.next)

/-- What is read as a declaration is one. -/
theorem declaration_sound (positive : 0 < bound) : SoundBehind .kwInt bound declaration := by
  -- A name and a semicolon are expected.
  intro opening c c' n read
  obtain ⟨⟨name, c₁⟩, named, read⟩ := bind_eq_ok.mp read
  obtain ⟨⟨semicolon, c₂⟩, ended, read⟩ := bind_eq_ok.mp read
  cases read
  obtain ⟨nameKind, rfl⟩ := expect_ok named
  obtain ⟨semicolonKind, rfl⟩ := expect_ok ended
  exact ⟨.declare opening ⟨name, nameKind⟩ ⟨semicolon, semicolonKind⟩,
    ⟨rfl, trivial, positive, by simp [Derivation.isOpen]⟩, rfl⟩

/-- What is read as a print statement is one. -/
theorem printing_sound {expr : Reader Node} (sound : SoundExpression .comparison bound expr) :
    SoundBehind .kwPrint bound (printing expr) := by
  -- The value stands in parentheses that belong to the statement.
  intro opening c c' n read
  obtain ⟨⟨left, c₁⟩, opened, read⟩ := bind_eq_ok.mp read
  obtain ⟨⟨value, c₂⟩, inside, read⟩ := bind_eq_ok.mp read
  obtain ⟨⟨right, c₃⟩, closed, read⟩ := bind_eq_ok.mp read
  obtain ⟨⟨semicolon, c₄⟩, ended, read⟩ := bind_eq_ok.mp read
  cases read
  obtain ⟨leftKind, same⟩ := expect_ok opened
  obtain ⟨part, explained, built⟩ := sound inside
  obtain ⟨rightKind, rfl⟩ := expect_ok closed
  obtain ⟨semicolonKind, rfl⟩ := expect_ok ended
  simp only [Cursor.mk.injEq] at same
  refine ⟨.print opening ⟨left, leftKind⟩ part ⟨right, rightKind⟩ ⟨semicolon, semicolonKind⟩,
    ⟨?_, explained.nearest, explained.shallow, by simp [Derivation.isOpen]⟩, ?_⟩
  · simp [Derivation.tokens, same.1, explained.covers]
  · simp [Derivation.build, same.2, built]

/-- What is read as an assignment is one. -/
theorem assignment_sound {expr : Reader Node} (sound : SoundExpression .comparison bound expr) :
    SoundStatement bound (assignment expr) := by
  -- A name is followed by its value.
  intro c c' n read
  obtain ⟨⟨name, c₁⟩, named, read⟩ := bind_eq_ok.mp read
  obtain ⟨⟨equals, c₂⟩, assigned, read⟩ := bind_eq_ok.mp read
  obtain ⟨⟨value, c₃⟩, inside, read⟩ := bind_eq_ok.mp read
  obtain ⟨⟨semicolon, c₄⟩, ended, read⟩ := bind_eq_ok.mp read
  cases read
  obtain ⟨nameKind, rfl⟩ := expect_ok named
  obtain ⟨equalsKind, same⟩ := expect_ok assigned
  obtain ⟨part, explained, built⟩ := sound inside
  obtain ⟨semicolonKind, rfl⟩ := expect_ok ended
  simp only [Cursor.mk.injEq] at same
  refine ⟨.assign ⟨name, nameKind⟩ ⟨equals, equalsKind⟩ part ⟨semicolon, semicolonKind⟩,
    ⟨?_, explained.nearest, explained.shallow, by simp [Derivation.isOpen]⟩, ?_⟩
  · simp [Derivation.tokens, same.1, explained.covers]
  · simp [Derivation.build, same.2, built]

/-- What is read as a loop is one; it is one level of its own. -/
theorem looping_sound {expr stmt : Reader Node}
    (expression : SoundExpression .comparison bound expr) (statement : SoundStatement bound stmt) :
    SoundBehind .kwWhile (bound + 1) (looping expr stmt) := by
  -- The condition and what is repeated are read one level deeper.
  intro opening c c' n read
  obtain ⟨⟨left, c₁⟩, opened, read⟩ := bind_eq_ok.mp read
  obtain ⟨⟨condition, c₂⟩, inside, read⟩ := bind_eq_ok.mp read
  obtain ⟨⟨right, c₃⟩, closed, read⟩ := bind_eq_ok.mp read
  obtain ⟨⟨body, c₄⟩, repeated, read⟩ := bind_eq_ok.mp read
  cases read
  obtain ⟨leftKind, same⟩ := expect_ok opened
  obtain ⟨test, explainedTest, builtTest⟩ := expression inside
  obtain ⟨rightKind, rfl⟩ := expect_ok closed
  obtain ⟨part, explained, built⟩ := statement repeated
  simp only [Cursor.mk.injEq] at same
  refine ⟨.loop opening ⟨left, leftKind⟩ test ⟨right, rightKind⟩ part,
    ⟨?_, ⟨explainedTest.nearest, explained.nearest⟩, ?_, explained.settled⟩, ?_⟩
  · simp [Derivation.tokens, same.1, explainedTest.covers, explained.covers]
  · exact Nat.succ_lt_succ (max_lt explainedTest.shallow explained.shallow)
  · simp [Derivation.build, same.2, builtTest, built]

/-- What is read as a choice is one; an alternative that follows it is read with it. -/
theorem choice_sound {expr stmt : Reader Node} (expression : SoundExpression .comparison bound expr)
    (statement : SoundStatement bound stmt) :
    SoundBehind .kwIf (bound + 1) (choice expr stmt) := by
  intro opening c c' n read
  obtain ⟨⟨left, c₁⟩, opened, read⟩ := bind_eq_ok.mp read
  obtain ⟨⟨condition, c₂⟩, inside, read⟩ := bind_eq_ok.mp read
  obtain ⟨⟨right, c₃⟩, closed, read⟩ := bind_eq_ok.mp read
  obtain ⟨⟨yes, c₄⟩, first, final⟩ := bind_eq_ok.mp read
  obtain ⟨leftKind, same⟩ := expect_ok opened
  obtain ⟨test, explainedTest, builtTest⟩ := expression inside
  obtain ⟨rightKind, rfl⟩ := expect_ok closed
  obtain ⟨part, explained, built⟩ := statement first
  simp only [Cursor.mk.injEq] at same
  have deeper := max_lt explainedTest.shallow explained.shallow
  dsimp only at final
  split at final
  · rename_i t rest pending
    split at final
    · -- The first part is not left open, since an alternative comes next.
      rename_i otherwise
      obtain ⟨⟨no, c₅⟩, second, last⟩ := bind_eq_ok.mp final
      cases last
      obtain ⟨other, explainedOther, builtOther⟩ := statement second
      have covers := explainedOther.covers
      have closedPart : part.isOpen = false := by
        cases state : part.isOpen with
        | false => rfl
        | true => exact absurd otherwise (explained.settled state t rest pending)
      refine ⟨.chooseElse opening ⟨left, leftKind⟩ test ⟨right, rightKind⟩ part ⟨t, otherwise⟩
        other,
        ⟨?_, ⟨explainedTest.nearest, explained.nearest, explainedOther.nearest, closedPart⟩, ?_,
          explainedOther.settled⟩, ?_⟩
      · simp only at covers
        simp [Derivation.tokens, same.1, explainedTest.covers, explained.covers, pending, covers]
      · exact Nat.succ_lt_succ (max_lt deeper explainedOther.shallow)
      · simp only at builtOther
        simp [Derivation.build, same.2, builtTest, built, builtOther]
    · -- Nothing but an alternative could have been read on.
      rename_i other
      cases final
      refine ⟨.choose opening ⟨left, leftKind⟩ test ⟨right, rightKind⟩ part,
        ⟨?_, ⟨explainedTest.nearest, explained.nearest⟩, Nat.succ_lt_succ deeper, ?_⟩, ?_⟩
      · simp [Derivation.tokens, same.1, explainedTest.covers, explained.covers]
      · intro _ t' rest' pending'
        rw [pending] at pending'
        cases pending'
        exact other
      · simp [Derivation.build, same.2, builtTest, built]
  · cases final

/-- Statements read in a row are a body, and a token that ends it comes next. -/
theorem statements_sound {isEnd : Kind → Bool} {stmt : Reader Node}
    (sound : SoundStatement bound stmt) (positive : 0 < bound) (tokens : List Token)
    {c c' : Cursor} {ns : List Node} (read : statements isEnd stmt tokens c = .ok (ns, c')) :
    ∃ d : Derivation .body, Explains bound d c c' ∧ d.build c.next = (ns, c'.next) ∧
      ∃ t rest, c'.pending = t :: rest ∧ isEnd t.kind = true := by
  -- Each turn of the loop adds one statement.
  induction tokens generalizing c ns with
  | nil => cases read
  | cons _ tokens ih =>
    obtain ⟨pending, next⟩ := c
    cases pending with
    | nil => cases read
    | cons t rest =>
      by_cases ended : isEnd t.kind = true
      · simp only [statements, ended, if_true, Except.ok.injEq, Prod.mk.injEq] at read
        obtain ⟨rfl, rfl⟩ := read
        exact ⟨.nothing, ⟨rfl, trivial, positive, by simp [Derivation.isOpen]⟩, rfl, t, rest, rfl,
          ended⟩
      · simp only [statements, ended, Bool.false_eq_true, if_false] at read
        obtain ⟨⟨n, c₁⟩, first, read⟩ := bind_eq_ok.mp read
        obtain ⟨⟨others, c₂⟩, following, read⟩ := bind_eq_ok.mp read
        cases read
        obtain ⟨part, explained, built⟩ := sound first
        obtain ⟨body, explainedBody, builtBody, stops⟩ := ih following
        refine ⟨.also part body, ⟨?_, ⟨explained.nearest, explainedBody.nearest⟩, ?_, ?_⟩, ?_,
          stops⟩
        · rw [explained.covers, explainedBody.covers, Derivation.tokens, List.append_assoc]
        · exact max_lt explained.shallow explainedBody.shallow
        · intro opened; simp [Derivation.isOpen] at opened
        · simp only at built
          simp [Derivation.build, built, builtBody]

/-- What is read as a block is one; it is one level of its own. -/
theorem blocking_sound {stmt : Reader Node} (sound : SoundStatement bound stmt)
    (positive : 0 < bound) : SoundBehind .openBrace (bound + 1) (blocking stmt) := by
  -- The statements end at a closing brace, since nothing else is accepted behind them.
  intro opening c c' n read
  obtain ⟨⟨body, c₁⟩, inside, read⟩ := bind_eq_ok.mp read
  obtain ⟨⟨closing, c₂⟩, closed, read⟩ := bind_eq_ok.mp read
  cases read
  obtain ⟨part, explained, built, -⟩ := statements_sound sound positive _ inside
  obtain ⟨closingKind, rfl⟩ := expect_ok closed
  have covers := explained.covers
  simp only at covers
  refine ⟨.block opening part ⟨closing, closingKind⟩,
    ⟨?_, explained.nearest, Nat.succ_lt_succ explained.shallow, by simp [Derivation.isOpen]⟩, ?_⟩
  · simp [Derivation.tokens, covers]
  · simp only at built
    simp [Derivation.build, built]

/-- What is read as a statement is one, if the parts on its own and on the next level are. -/
theorem statementWith_sound {expr : Reader Node} {inner : Option (Reader Node × Reader Node)}
    (sound : SoundExpression .comparison (bound + 1) expr)
    (deeper : ∀ deepExpr deepStmt, inner = some (deepExpr, deepStmt) →
      0 < bound ∧ SoundExpression .comparison bound deepExpr ∧ SoundStatement bound deepStmt) :
    SoundStatement (bound + 1) (statementWith expr inner) := by
  -- The kind of the first token selects the alternative.
  intro c c' n read
  obtain ⟨pending, next⟩ := c
  cases pending with
  | nil => exact assignment_sound sound read
  | cons t rest =>
    unfold statementWith at read
    dsimp only at read
    split at read
    · rename_i kind
      exact declaration_sound (Nat.succ_pos bound) ⟨t, kind⟩ read
    · rename_i kind
      exact printing_sound sound ⟨t, kind⟩ read
    · rename_i kind
      split at read
      · cases read
      · obtain ⟨_, expression, statement⟩ := deeper _ _ rfl
        exact choice_sound expression statement ⟨t, kind⟩ read
    · rename_i kind
      split at read
      · cases read
      · obtain ⟨_, expression, statement⟩ := deeper _ _ rfl
        exact looping_sound expression statement ⟨t, kind⟩ read
    · rename_i kind
      split at read
      · cases read
      · obtain ⟨positive, _, statement⟩ := deeper _ _ rfl
        exact blocking_sound statement positive ⟨t, kind⟩ read
    · exact assignment_sound sound read

/-- What is read as a statement is one, with at most as many levels as there is room for. -/
theorem statement_sound (room : Nat) : SoundStatement (room + 1) (statement room) := by
  -- Blocks, choices and loops use one level up.
  induction room with
  | zero => exact statementWith_sound (expression_sound 0) (by simp)
  | succ room ih =>
    refine statementWith_sound (expression_sound (room + 1)) ?_
    intro deepExpr deepStmt same
    cases same
    exact ⟨Nat.succ_pos room, expression_sound room, ih⟩

/-- What is read as a program is the body before an end mark. -/
theorem programFrom_sound {tokens : List Token} {tree : Node} {c' : Cursor}
    (read : programFrom ⟨tokens, 0⟩ = .ok (tree, c')) :
    ∃ d : Derivation .body, ∃ first mark rest, tokens = d.tokens ++ mark :: rest ∧
      mark.kind = .finish ∧ d.Nearest ∧ d.depth ≤ maxNesting ∧
      tree = .program ⟨0, first⟩ (d.build 1).1 := by
  -- The program takes the number zero, and its statements follow.
  obtain ⟨t, _, read⟩ := bind_eq_ok.mp read
  obtain ⟨⟨body, c₁⟩, inside, read⟩ := bind_eq_ok.mp read
  cases read
  obtain ⟨part, explained, built, mark, rest, pending, ended⟩ :=
    statements_sound (statement_sound maxNesting) (Nat.succ_pos _) _ inside
  refine ⟨part, t.position, mark, rest, ?_, by simpa using ended, explained.nearest,
    Nat.le_of_lt_succ explained.shallow, ?_⟩
  · exact explained.covers.trans (by rw [pending])
  · simp only at built
    rw [built]
    rfl

end BlockCode.Node
