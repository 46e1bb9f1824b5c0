import BlockCode.Node.Parse
import BlockCode.Proofs.Grammar.Numbered
import BlockCode.Proofs.Grammar.Unambiguous

/-! What the grammar derives is read: from the tokens of a derivation that fits into the levels
left, exactly its numbered tree. -/

namespace BlockCode.Node

open Grammar

variable {category : Category} {level : Level}

/-- Reads what is in parentheses when a number of levels are left. -/
def inside : (room : Nat) → Token → Reader Node
  -- With no level left, a parenthesis is refused before it is looked into.
  | 0 => tooDeep
  | room + 1 => fun _ => expression room

/-- Reads an expression of a level. -/
def reader : Level → (room : Nat) → Reader Node
  -- Each reader tries the next level first, and then its own operators.
  | .comparison, room => expressionWith (inside room)
  | .additive, room =>
    operands Kind.isAdditive (operands Kind.isMultiplicative (primary (inside room)))
  | .multiplicative, room => operands Kind.isMultiplicative (primary (inside room))
  | .primary, room => primary (inside room)

/-- A composite level is read as operands of the level below. -/
theorem reader_composite (composite : level ≠ .primary) (room : Nat) :
    reader level room = operands level.isOperator (reader level.operand room) := by
  -- All levels but the last are built in the same way.
  cases level with
  | primary => exact absurd rfl composite
  | comparison =>
    rw [Level.isOperator_comparison]
    rfl
  | additive =>
    rw [Level.isOperator_additive]
    rfl
  | multiplicative =>
    rw [Level.isOperator_multiplicative]
    rfl

/-- The loosest level is what an expression is read on. -/
theorem expression_eq_reader (room : Nat) : expression room = reader .comparison room := by
  -- With or without a level left, only the inside of parentheses differs.
  cases room <;> rfl

/-- The readers of the next level, if there is one. -/
def deeper : (room : Nat) → Option (Reader Node × Reader Node)
  -- Expressions and statements go one level down together.
  | 0 => none
  | room + 1 => some (expression room, statement room)

/-- A statement is read with the readers of its own and of the next level. -/
theorem statement_eq (room : Nat) :
    statement room = statementWith (expression room) (deeper room) := by
  -- With or without a level left, only the next level differs.
  cases room <;> rfl

/-- From the tokens of a derivation its numbered tree is read, if there are levels enough and
nothing follows that would make it longer. -/
def Reads : {category : Category} → Derivation category → Prop
  | .expression level, d => ∀ (room next : Nat) (rest : List Token), d.depth ≤ room →
    d.Followed rest → reader level room ⟨d.tokens ++ rest, next⟩ =
      .ok ((d.build next).1, ⟨rest, (d.build next).2⟩)
  -- The bound is a list that gets shorter with each operator.
  | .tail level, d => ∀ (room next : Nat) (rest bound : List Token) (left : Node),
    d.depth ≤ room → d.Followed rest → (d.tokens ++ rest).length ≤ bound.length →
    chain level.isOperator (reader level.operand room) bound left ⟨d.tokens ++ rest, next⟩ =
      .ok ((d.build left next).1, ⟨rest, (d.build left next).2⟩)
  | .statement, d => ∀ (room next : Nat) (rest : List Token), d.depth ≤ room → d.Followed rest →
    statement room ⟨d.tokens ++ rest, next⟩ = .ok ((d.build next).1, ⟨rest, (d.build next).2⟩)
  | .body, d => ∀ (isEnd : Kind → Bool) (room next : Nat) (rest bound : List Token),
    -- A body is read up to an end that the reader is asked to look for.
    (∀ kind, isEnd kind = true → kind = .closeBrace ∨ kind = .finish) → d.depth ≤ room →
    (∃ t more, rest = t :: more ∧ isEnd t.kind = true) →
    (d.tokens ++ rest).length ≤ bound.length →
    statements isEnd (statement room) bound ⟨d.tokens ++ rest, next⟩ =
      .ok ((d.build next).1, ⟨rest, (d.build next).2⟩)

/-- A terminal that is expected and stands in front is read. -/
theorem expect_terminal {kind : Kind} (t : Terminal kind) (expected : String) (rest : List Token)
    (next : Nat) :
    Cursor.expect ⟨t.val :: rest, next⟩ kind expected = .ok (t.val, ⟨rest, next⟩) := by
  -- Its kind is the one asked for.
  simp [Cursor.expect]

/-- A construct that takes a level leaves the others for its inside. -/
theorem exists_lower {depth room : Nat} (enough : depth + 1 ≤ room) :
    ∃ lower, room = lower + 1 ∧ depth ≤ lower := by
  -- There is a level to take.
  cases room with
  | zero => omega
  | succ lower => exact ⟨lower, rfl, Nat.le_of_succ_le_succ enough⟩

namespace Reads

/-- A number is read if its numeral can be. -/
theorem number {numeral : Terminal .number} (legible : Numeral.Legible numeral.val.lexeme) :
    Reads (Derivation.number numeral) := by
  -- The value of the node is what the numeral is read as.
  intro room next rest _ _
  have read := Numeral.read_legible legible
  simp [reader, primary, Derivation.tokens, Derivation.build, Terminal.value, read, Cursor.number]

/-- A variable is read. -/
theorem use (name : Terminal .name) : Reads (Derivation.use name) := by
  -- A name needs no further token.
  intro room next rest _ _
  simp [reader, primary, Derivation.tokens, Derivation.build, Cursor.number]

/-- Parentheses are read with one level less for their inside. -/
theorem group {opening : Terminal .openParen} {part : Derivation (.expression .comparison)}
    {closing : Terminal .closeParen} (ih : Reads part) :
    Reads (Derivation.group opening part closing) := by
  -- The closing parenthesis ends the inside.
  intro room next rest enough _
  obtain ⟨lower, rfl, fits⟩ := exists_lower enough
  have read := ih lower next _ fits (part.followed_terminal closing rest rfl)
  rw [← expression_eq_reader] at read
  simp [reader, primary, inside, Derivation.tokens, Derivation.build, read, expect_terminal,
    Bind.bind, Except.bind, Pure.pure, Except.pure]

/-- Joined operands are read if the first one and the others are. -/
theorem chain {composite : level ≠ .primary} {first : Derivation (.expression level.operand)}
    {others : Derivation (.tail level)} (firstIh : Reads first) (othersIh : Reads others) :
    Reads (Derivation.chain composite first others) := by
  -- The loop starts behind the first operand, with all tokens that are left as its bound.
  intro room next rest enough follows
  have left := firstIh room next _ (le_of_max_le_left enough)
    (first.followed_operand others follows)
  have all := othersIh room (first.build next).2 rest _ (first.build next).1
    (le_of_max_le_right enough) follows (Nat.le_refl _)
  rw [reader_composite composite]
  simp only [operands, Derivation.tokens, List.append_assoc, left, Bind.bind, Except.bind]
  exact all

/-- The loop over operands ends where no operator of its level follows. -/
theorem done : Reads (Derivation.done : Derivation (.tail level)) := by
  -- The first token behind is no operator of the level.
  intro room next rest bound left _ follows enough
  obtain ⟨t, more, rfl, stops⟩ := follows
  cases bound with
  | nil => simp at enough
  | cons _ bound =>
    simp [Node.chain, Derivation.tokens, Derivation.build, (Level.stops_inside stops).1]

/-- The loop over operands reads a further operator with its operand. -/
theorem more {operator : { t : Token // level.isOperator t.kind }}
    {right : Derivation (.expression level.operand)} {others : Derivation (.tail level)}
    (rightIh : Reads right) (othersIh : Reads others) :
    Reads (Derivation.more operator right others) := by
  -- Each turn takes at least the operator away from the tokens, and one from the bound.
  intro room next rest bound left enough follows fits
  simp only [Derivation.tokens, List.cons_append, List.append_assoc, List.length_cons] at fits
  cases bound with
  | nil => simp at fits
  | cons _ bound =>
    have operand := rightIh room next _ (le_of_max_le_left enough)
      (right.followed_operand others follows)
    have shorter : (others.tokens ++ rest).length ≤ bound.length := by
      simp only [List.length_append, List.length_cons] at fits ⊢
      omega
    have all := othersIh room ((right.build next).2 + 1) rest bound
      (.binary ⟨(right.build next).2, left.position⟩ left operator (right.build next).1)
      (le_of_max_le_right enough) follows shorter
    simp only [Node.chain, Derivation.tokens, List.cons_append, List.append_assoc,
      operator.property, if_true, operand, Bind.bind, Except.bind, Cursor.number]
    exact all

/-- A declaration is read. -/
theorem declare {keyword : Terminal .kwInt} {name : Terminal .name}
    {semicolon : Terminal .semicolon} :
    Reads (Derivation.declare keyword name semicolon) := by
  -- All three tokens are the ones that are expected.
  intro room next rest _ _
  simp [statement_eq, statementWith, declaration, Derivation.tokens, Derivation.build,
    expect_terminal, Cursor.number, Bind.bind, Except.bind, Pure.pure, Except.pure]

/-- An assignment is read if its value is. -/
theorem assign {name : Terminal .name} {equals : Terminal .assign}
    {value : Derivation (.expression .comparison)} {semicolon : Terminal .semicolon}
    (ih : Reads value) : Reads (Derivation.assign name equals value semicolon) := by
  -- The semicolon ends the value.
  intro room next rest enough _
  have read := ih room (next + 1) _ enough (value.followed_terminal semicolon rest rfl)
  rw [← expression_eq_reader] at read
  simp [statement_eq, statementWith, assignment, Derivation.tokens, Derivation.build, read,
    expect_terminal, Cursor.number, Bind.bind, Except.bind, Pure.pure, Except.pure]

/-- A print statement is read if its value is. -/
theorem print {keyword : Terminal .kwPrint} {opening : Terminal .openParen}
    {value : Derivation (.expression .comparison)} {closing : Terminal .closeParen}
    {semicolon : Terminal .semicolon} (ih : Reads value) :
    Reads (Derivation.print keyword opening value closing semicolon) := by
  -- The closing parenthesis ends the value.
  intro room next rest enough _
  have read := ih room (next + 1) _ enough
    (value.followed_terminal closing (semicolon.val :: rest) rfl)
  rw [← expression_eq_reader] at read
  simp [statement_eq, statementWith, printing, Derivation.tokens, Derivation.build, read,
    expect_terminal, Cursor.number, Bind.bind, Except.bind, Pure.pure, Except.pure]

/-- A choice without an alternative is read if none follows. -/
theorem choose {keyword : Terminal .kwIf} {opening : Terminal .openParen}
    {condition : Derivation (.expression .comparison)} {closing : Terminal .closeParen}
    {yes : Derivation .statement} (conditionIh : Reads condition) (yesIh : Reads yes) :
    Reads (Derivation.choose keyword opening condition closing yes) := by
  -- No alternative follows, so the choice ends with its first part.
  intro room next rest enough follows
  obtain ⟨lower, rfl, fits⟩ := exists_lower enough
  have test := conditionIh lower (next + 1) _ (le_of_max_le_left fits)
    (condition.followed_terminal closing (yes.tokens ++ rest) rfl)
  have part := yesIh lower (condition.build (next + 1)).2 rest (le_of_max_le_right fits)
    (fun _ => follows rfl)
  obtain ⟨t, more, rfl, other⟩ := follows rfl
  rw [← expression_eq_reader] at test
  simp [statement_eq (lower + 1), deeper, statementWith, choice, Derivation.tokens,
    Derivation.build, test, part, other, expect_terminal, Cursor.number, Bind.bind, Except.bind,
    Pure.pure, Except.pure]

/-- A choice with an alternative is read if its first part is closed. -/
theorem chooseElse {keyword : Terminal .kwIf} {opening : Terminal .openParen}
    {condition : Derivation (.expression .comparison)} {closing : Terminal .closeParen}
    {yes no : Derivation .statement} {otherwise : Terminal .kwElse} (closed : yes.isOpen = false)
    (conditionIh : Reads condition) (yesIh : Reads yes) (noIh : Reads no) :
    Reads (Derivation.chooseElse keyword opening condition closing yes otherwise no) := by
  -- The first part is closed, so the alternative is left for this choice.
  intro room next rest enough follows
  obtain ⟨lower, rfl, fits⟩ := exists_lower enough
  have both := le_of_max_le_left fits
  have test := conditionIh lower (next + 1) _ (le_of_max_le_left both)
    (condition.followed_terminal closing (yes.tokens ++ otherwise.val :: (no.tokens ++ rest)) rfl)
  have part := yesIh lower (condition.build (next + 1)).2 (otherwise.val :: (no.tokens ++ rest))
    (le_of_max_le_right both) (yes.followed_closed closed)
  have other := noIh lower (yes.build (condition.build (next + 1)).2).2 rest
    (le_of_max_le_right fits) follows
  rw [← expression_eq_reader] at test
  simp [statement_eq (lower + 1), deeper, statementWith, choice, Derivation.tokens,
    Derivation.build, test, part, other, expect_terminal, Cursor.number, Bind.bind, Except.bind,
    Pure.pure, Except.pure]

/-- A loop is read if its parts are. -/
theorem loop {keyword : Terminal .kwWhile} {opening : Terminal .openParen}
    {condition : Derivation (.expression .comparison)} {closing : Terminal .closeParen}
    {repeated : Derivation .statement} (conditionIh : Reads condition)
    (repeatedIh : Reads repeated) :
    Reads (Derivation.loop keyword opening condition closing repeated) := by
  -- The condition ends at its parenthesis, and the loop with what it repeats.
  intro room next rest enough follows
  obtain ⟨lower, rfl, fits⟩ := exists_lower enough
  have test := conditionIh lower (next + 1) _ (le_of_max_le_left fits)
    (condition.followed_terminal closing (repeated.tokens ++ rest) rfl)
  have part := repeatedIh lower (condition.build (next + 1)).2 rest (le_of_max_le_right fits)
    follows
  rw [← expression_eq_reader] at test
  simp [statement_eq (lower + 1), deeper, statementWith, looping, Derivation.tokens,
    Derivation.build, test, part, expect_terminal, Cursor.number, Bind.bind, Except.bind,
    Pure.pure, Except.pure]

/-- A block is read if its inside is; the inside ends at the closing brace. -/
theorem block {opening : Terminal .openBrace} {part : Derivation .body}
    {closing : Terminal .closeBrace} (ih : Reads part) :
    Reads (Derivation.block opening part closing) := by
  -- The closing brace is what the loop over statements stops at.
  intro room next rest enough _
  obtain ⟨lower, rfl, fits⟩ := exists_lower enough
  have read := ih (fun kind => kind = .closeBrace ∨ kind = .finish) lower (next + 1)
    (closing.val :: rest) _ (by simp) fits ⟨closing.val, rest, rfl, by simp⟩ (Nat.le_refl _)
  simp only [Bool.decide_or] at read
  simp [statement_eq (lower + 1), deeper, statementWith, blocking, Derivation.tokens,
    Derivation.build, read, expect_terminal, Cursor.number, Bind.bind, Except.bind, Pure.pure,
    Except.pure]

/-- The loop over statements ends at a token that ends it. -/
theorem nothing : Reads Derivation.nothing := by
  -- The token that ends the loop comes at once.
  intro isEnd room next rest bound _ _ follows enough
  obtain ⟨t, more, rfl, ended⟩ := follows
  cases bound with
  | nil => simp at enough
  | cons _ bound => simp [statements, Derivation.tokens, Derivation.build, ended]

/-- The loop over statements reads a further one. -/
theorem also {first : Derivation .statement} {others : Derivation .body} (firstIh : Reads first)
    (othersIh : Reads others) : Reads (Derivation.also first others) := by
  -- No statement starts with a token that ends the loop.
  intro isEnd room next rest bound ends enough follows fits
  obtain ⟨t, more, starts, brace, finish, -⟩ := first.tokens_statement
  simp only [Derivation.tokens, List.append_assoc] at fits ⊢
  cases bound with
  | nil => simp [starts] at fits
  | cons _ bound =>
    have goesOn : isEnd t.kind = false := by
      cases ended : isEnd t.kind with
      | false => rfl
      | true => exact ((ends _ ended).elim brace finish).elim
    have closes : others.Followed rest := by
      obtain ⟨last, beyond, same, ended⟩ := follows
      exact ⟨last, beyond, same, ends _ ended⟩
    have part := firstIh room next _ (le_of_max_le_left enough)
      (first.followed_statement others closes)
    -- A statement takes at least one token, so the bound is enough for the others.
    have shorter : (others.tokens ++ rest).length ≤ bound.length := by
      simp only [starts, List.cons_append, List.length_cons, List.length_append] at fits ⊢
      omega
    have all := othersIh isEnd room (first.build next).2 rest bound ends
      (le_of_max_le_right enough) follows shorter
    simp only [starts, List.cons_append] at part
    simp [statements, starts, goesOn, part, all, Derivation.build, Bind.bind, Except.bind,
      Pure.pure, Except.pure]

end Reads

/-- Every legible derivation with alternatives at the nearest choices is read. -/
theorem reads (d : Derivation category) (own : d.Nearest) (legible : d.Legible) : Reads d := by
  -- One case for each alternative of the grammar; the parts are legible as the whole is.
  induction d with simp only [Derivation.Legible, Derivation.tokens, List.forall_mem_cons,
      List.forall_mem_append] at legible
  | number numeral => exact .number (legible.1 numeral.2)
  | use name => exact .use name
  | group _ part _ ih =>
    obtain ⟨-, legible, -⟩ := legible
    exact .group (ih own legible)
  | chain _ first others firstIh othersIh =>
    obtain ⟨inFirst, inOthers⟩ := legible
    exact .chain (firstIh own.1 inFirst) (othersIh own.2 inOthers)
  | done => exact .done
  | more _ right others rightIh othersIh =>
    obtain ⟨-, inRight, inOthers⟩ := legible
    exact .more (rightIh own.1 inRight) (othersIh own.2 inOthers)
  | declare => exact .declare
  | assign _ _ value _ ih =>
    obtain ⟨-, -, inValue, -⟩ := legible
    exact .assign (ih own inValue)
  | print _ _ value _ _ ih =>
    obtain ⟨-, -, inValue, -⟩ := legible
    exact .print (ih own inValue)
  | choose _ _ condition _ yes conditionIh yesIh =>
    obtain ⟨-, -, inCondition, -, inYes⟩ := legible
    exact .choose (conditionIh own.1 inCondition) (yesIh own.2 inYes)
  | chooseElse _ _ condition _ yes _ no conditionIh yesIh noIh =>
    obtain ⟨ownCondition, ownYes, ownNo, closed⟩ := own
    obtain ⟨-, -, inCondition, -, inYes, -, inNo⟩ := legible
    exact .chooseElse closed (conditionIh ownCondition inCondition) (yesIh ownYes inYes)
      (noIh ownNo inNo)
  | loop _ _ condition _ repeated conditionIh repeatedIh =>
    obtain ⟨-, -, inCondition, -, inRepeated⟩ := legible
    exact .loop (conditionIh own.1 inCondition) (repeatedIh own.2 inRepeated)
  | block _ part _ ih =>
    obtain ⟨-, inPart, -⟩ := legible
    exact .block (ih own inPart)
  | nothing => exact .nothing
  | also first others firstIh othersIh =>
    obtain ⟨inFirst, inOthers⟩ := legible
    exact .also (firstIh own.1 inFirst) (othersIh own.2 inOthers)

end BlockCode.Node
