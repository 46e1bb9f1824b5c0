import BlockCode.Proofs.Parse.Completeness
import BlockCode.Proofs.Parse.Reading
import BlockCode.Proofs.Parse.Soundness

/-! What each reader comes to before an end mark, by the grammar alone: a row that the grammar
allows is read, or the first token that cannot continue one is refused. -/

namespace BlockCode.Node

open Grammar

variable {room : Nat}

/-- Within the tokens left it makes no difference what bounds the loop over operands. -/
theorem chain_bound {isOperator : Kind → Bool} {operand : Reader Node} {level : Level} {size : Nat}
    (sound : SoundExpression level size operand) (bound bound' : List Token) (left : Node)
    (c : Cursor) (enough : c.pending.length ≤ bound.length)
    (enough' : c.pending.length ≤ bound'.length) :
    chain isOperator operand bound left c = chain isOperator operand bound' left c := by
  -- Each turn takes a token, so neither bound runs out before the tokens do.
  induction bound generalizing bound' left c with
  | nil =>
    have none : c.pending = [] := List.length_eq_zero_iff.mp (by simpa using enough)
    cases bound' <;> simp [chain, none]
  | cons _ bound ih =>
    obtain ⟨pending, next⟩ := c
    cases bound' with
    | nil =>
      have none : pending = [] := List.length_eq_zero_iff.mp (by simpa using enough')
      simp [chain, none]
    | cons _ bound' =>
      cases pending with
      | nil => rfl
      | cons operator rest =>
        simp only [List.length_cons, Nat.add_le_add_iff_right] at enough enough'
        simp only [chain]
        split
        · cases read : operand ⟨rest, next⟩ with
          | error e => rfl
          | ok p =>
            obtain ⟨right, c⟩ := p
            obtain ⟨d, explained, -⟩ := sound read
            have covers := congrArg List.length explained.covers
            simp only [List.length_append] at covers
            exact ih bound' _ _ (by simp [Cursor.number]; omega) (by simp [Cursor.number]; omega)
        · rfl

/-- Where an operator stands, the loop over operands reads its operand and starts again. -/
theorem chain_turn {isOperator : Kind → Bool} {operand : Reader Node} {level : Level} {size : Nat}
    (sound : SoundExpression level size operand) {operator : Token}
    (joins : isOperator operator.kind = true) (left : Node) (p : List Token) (next : Nat) :
    chain isOperator operand (operator :: p) left ⟨operator :: p, next⟩ =
      operand ⟨p, next⟩ >>= fun (right, c) => chain isOperator operand c.pending
        (.binary ⟨c.next, left.position⟩ left operator right) ⟨c.pending, c.next + 1⟩ := by
  -- The tokens behind the operand are a bound for what follows, as those behind the operator are.
  simp only [chain, joins, if_true]
  cases read : operand ⟨p, next⟩ with
  | error e => rfl
  | ok q =>
    obtain ⟨right, c⟩ := q
    obtain ⟨d, explained, -⟩ := sound read
    have covers := congrArg List.length explained.covers
    simp only [List.length_append] at covers
    exact chain_bound sound _ _ _ _ (by simp [Cursor.number]; omega) (Nat.le_refl _)

/-- The loop over operands reads what follows the first one. -/
theorem reading_chain {operand : Reader Node} {level : Level} {size : Nat}
    (sound : SoundExpression level.operand size operand)
    (obeys : Obeys [.phrase (.expression level.operand)] room operand) (pending : List Token)
    (left : Node) (next : Nat) : Reading [.phrase (.tail level)] room
      (fun p => chain level.isOperator operand p left ⟨p, next⟩) pending := by
  -- Every turn leaves fewer tokens, since it takes an operator.
  induction size' : pending.length using Nat.strongRecOn generalizing pending left next with
  | ind n ih =>
    cases pending with
    | nil => exact .unmarked (by simp)
    | cons t rest =>
      by_cases joins : level.isOperator t.kind = true
      · have plain : t.Plain := by
          constructor
          all_goals
            intro same
            rw [same] at joins
            cases level <;> cases joins
        refine .widen ?_ fun _ _ _ => Spells.more
        refine .behind (fun _ _ => ⟨t, rfl, joins⟩) plain ?_ (chain_turn sound joins left · next)
        refine .bindWith (obeys rest next) rfl fun right next used t' rest' split _ => ?_
        refine ih _ ?_ (t' :: rest') (.binary ⟨next, left.position⟩ left t right) (next + 1) rfl
        simp [← size', split]
      · refine .widen (.congr (.done left next (t :: rest)) fun u p alike => ?_)
          fun _ _ _ => Spells.done
        simp [chain, alike, joins]

/-- Operands with the operators of a level between them are read as an expression of that level. -/
theorem obeys_operands {operand : Reader Node} {level : Level} {size : Nat}
    (composite : level ≠ .primary) (sound : SoundExpression level.operand size operand)
    (obeys : Obeys [.phrase (.expression level.operand)] room operand) :
    Obeys [.phrase (.expression level)] room (operands level.isOperator operand) := by
  -- A level is read as its first operand with a tail behind it.
  intro pending next
  refine .widen ?_ fun _ _ _ => Spells.chain composite
  exact .bind (obeys pending next) rfl fun left next pending =>
    reading_chain sound obeys pending left next

/-- Primaries are read, with the inside of parentheses on the next level. -/
theorem obeys_primary (deeper : ∀ lower, room = lower + 1 →
    Obeys [.phrase (.expression .comparison)] lower (expression lower)) :
    Obeys [.phrase (.expression .primary)] room (primary (inside room)) := by
  -- The kind of the first token selects the alternative.
  intro pending next
  cases pending with
  | nil => exact .unmarked (by simp)
  | cons t rest =>
    cases kind : t.kind with
    | number =>
      cases value : Numeral.read t.lexeme with
      | ok n =>
        have plain : t.Plain := ⟨by simp [kind], fun _ => ⟨n, value⟩⟩
        refine .widen ?_ fun _ _ _ => Spells.number
        refine .behind (fun _ _ => ⟨t, rfl, kind⟩) plain (.done (.literal ⟨next, t.position⟩ n)
          (next + 1) rest) fun p => ?_
        simp [primary, kind, value, Cursor.number]
      | error e =>
        have completes : Completes [.phrase (.expression .primary)] room [t] :=
          ⟨[], fun _ _ => Spells.number (spells_singleton.mpr ⟨t, rfl, kind⟩)⟩
        refine .refused [] t rest (.unread e) rfl (.unread kind value completes) (by simp) ?_
        rintro u p rfl
        simp [primary, kind, value, Reason.failure]
    | name =>
      refine .widen ?_ fun _ _ _ => Spells.use
      refine .take kind (by decide) (.done (.use ⟨next, t.position⟩ t) (next + 1) rest) fun p => ?_
      simp [primary, kind, Cursor.number]
    | openParen =>
      refine .nested kind (by decide) rfl rfl (fun _ _ _ => Spells.group) ?_ ?_
      · rintro rfl u p alike
        simp [primary, alike, inside, Node.tooDeep, Bind.bind, Except.bind]
      · rintro lower rfl
        refine ⟨fun p => primary (inside (lower + 1)) ⟨t :: p, next⟩, ?_, fun _ => rfl⟩
        simp only [primary, kind, inside]
        refine .bind (deeper lower rfl rest next) rfl fun value next pending => ?_
        dsimp only
        refine .expect .closeParen (by decide) rfl fun _ next pending => ?_
        exact .done _ _ _
    | _ =>
      refine .reject "an expression" rfl fun u p alike => ?_
      simp [primary, alike, kind]

/-- What is read in parentheses is an expression, with fewer levels than there is room for. -/
theorem inside_sound (room : Nat) (t : Token) :
    SoundExpression .comparison room (inside room t) := by
  -- With no room parentheses are refused; with some, an expression is read with one level less.
  cases room with
  | zero => exact tooDeep_sound t
  | succ room => exact expression_sound room

/-- Expressions are read. -/
theorem obeys_expression (room : Nat) :
    Obeys [.phrase (.expression .comparison)] room (expression room) := by
  induction room using Nat.strongRecOn with
  | ind room ih =>
    -- Each level reads its operands on the next one.
    have primary : Obeys [.phrase (.expression .primary)] room _ :=
      obeys_primary fun lower same => ih lower (by omega)
    have primarySound := primary_sound (inside_sound room)
    have multiplicative : Obeys [.phrase (.expression .multiplicative)] room _ :=
      obeys_operands (by decide) primarySound primary
    have multiplicativeSound : SoundExpression .multiplicative (room + 1) _ :=
      operands_sound (by decide) primarySound
    have additive : Obeys [.phrase (.expression .additive)] room _ :=
      obeys_operands (by decide) multiplicativeSound multiplicative
    have additiveSound : SoundExpression .additive (room + 1) _ :=
      operands_sound (by decide) multiplicativeSound
    have comparison : Obeys [.phrase (.expression .comparison)] room _ :=
      obeys_operands (by decide) additiveSound additive
    rw [Level.isOperator_comparison, Level.isOperator_additive, Level.isOperator_multiplicative]
      at comparison
    rw [expression_eq_reader]
    exact comparison

/-- The rest of a declaration is read. -/
theorem obeys_declaration (opening : Token) :
    Obeys [.token .name, .token .semicolon] room (declaration opening) := by
  -- Two tokens are expected and none of them holds a phrase.
  intro pending next
  refine .expect .name (by decide) rfl fun name next pending => ?_
  dsimp only
  refine .expect .semicolon (by decide) rfl fun _ next pending => ?_
  exact .done (declare ⟨next, opening.position⟩ name) (next + 1) pending

/-- The rest of a print statement is read. -/
theorem obeys_printing {expr : Reader Node}
    (expression : Obeys [.phrase (.expression .comparison)] room expr) (opening : Token) :
    Obeys [.token .openParen, .phrase (.expression .comparison), .token .closeParen,
      .token .semicolon] room (printing expr opening) := by
  -- The number of the node is taken first, and then the parts are read in their order.
  intro pending next
  dsimp only [printing, Cursor.number]
  refine .expect .openParen (by decide) rfl fun _ next pending => ?_
  refine .bind (expression pending next) rfl fun value next pending => ?_
  dsimp only
  refine .expect .closeParen (by decide) rfl fun _ next pending => ?_
  dsimp only
  refine .expect .semicolon (by decide) rfl fun _ next pending => ?_
  exact .done _ _ _

/-- Assignments are read. -/
theorem obeys_assignment {expr : Reader Node}
    (expression : Obeys [.phrase (.expression .comparison)] room expr) :
    Obeys [.token .name, .token .assign, .phrase (.expression .comparison), .token .semicolon] room
      (assignment expr) := by
  -- The name comes before the number of the node, so that the number is the one behind it.
  intro pending next
  refine .expect .name (by decide) rfl fun name next pending => ?_
  dsimp only [Cursor.number]
  refine .expect .assign (by decide) rfl fun _ next pending => ?_
  refine .bind (expression pending next) rfl fun value next pending => ?_
  dsimp only
  refine .expect .semicolon (by decide) rfl fun _ next pending => ?_
  exact .done _ _ _

/-- The rest of a loop is read. -/
theorem obeys_looping {expr stmt : Reader Node}
    (expression : Obeys [.phrase (.expression .comparison)] room expr)
    (statement : Obeys [.phrase .statement] room stmt) (opening : Token) :
    Obeys [.token .openParen, .phrase (.expression .comparison), .token .closeParen,
      .phrase .statement] room (looping expr stmt opening) := by
  -- The condition and the body are read with the same room.
  intro pending next
  dsimp only [looping, Cursor.number]
  refine .expect .openParen (by decide) rfl fun _ next pending => ?_
  refine .bind (expression pending next) rfl fun condition next pending => ?_
  dsimp only
  refine .expect .closeParen (by decide) rfl fun _ next pending => ?_
  refine .bind (statement pending next) rfl fun body next pending => ?_
  exact .done (loop _ condition body) next pending

/-- Reads the parts of a choice behind its condition. -/
def branching (stmt : Reader Node) (mark : Mark) (condition : Node) : Reader Node := fun c => do
  let (yes, c) ← stmt c
  -- The keyword decides, and a choice that comes without it is complete.
  match c.pending with
  | t :: rest =>
    if t.kind = .kwElse then
      let (no, c) ← stmt { c with pending := rest }
      return (.chooseElse mark condition yes no, c)
    else return (.choose mark condition yes, c)
  | [] => .error Cursor.beyond

/-- The parts of a choice are read; an alternative that follows the first one belongs to it. -/
theorem obeys_branching {stmt : Reader Node} (statement : Obeys [.phrase .statement] room stmt)
    (mark : Mark) (condition : Node) : Obeys [.branches] room (branching stmt mark condition) := by
  intro pending next
  cases statement pending next with
  | read used t rest yes next split spelled plain same =>
    have own := spells_singleton.mp spelled
    rw [split]
    by_cases otherwise : t.kind = .kwElse
    · -- The alternative's keyword is taken, and the second part is read behind it.
      have taken : (Part.token .kwElse).Spells room [t] t := ⟨t, rfl, otherwise⟩
      have stops : Completes [.phrase .statement, .token .kwElse, .phrase .statement] room
          (used ++ [t]) := (Completes.stop taken rfl).behind own rfl
      refine .widen ?_ fun _ _ _ => Spells.bothBranches
      have second : Reading [.phrase .statement] room (fun p => stmt ⟨p, next⟩ >>= fun (no, c) =>
          .ok (chooseElse mark condition yes no, c)) rest :=
        .bind (statement rest next) rfl fun no next pending => .done _ next pending
      have following : Reading [.token .kwElse, .phrase .statement] room
          (fun p => stmt ⟨p.tail, next⟩ >>= fun (no, c) =>
            .ok (chooseElse mark condition yes no, c)) (t :: rest) :=
        .take otherwise (by decide) second fun _ => rfl
      refine .prepend own plain stops.before following fun u rest alike => ?_
      simp [branching, same u rest alike, alike, otherwise, Bind.bind, Except.bind, Pure.pure,
        Except.pure]
    · refine .read used t rest (choose mark condition yes) next rfl
        (Spells.onlyBranch spelled otherwise) plain fun u rest alike => ?_
      simp [branching, same u rest alike, alike, otherwise, Bind.bind, Except.bind, Pure.pure,
        Except.pure]
  | refused front t rest reason split refuses plain same =>
    have completes : ∀ {room front}, Completes [.phrase .statement] room front →
        Completes [.branches] room front := by
      rintro room front ⟨more, spelled⟩
      exact ⟨more, fun next other => (spelled next other).onlyBranch other⟩
    refine .refused front t rest reason split (refuses.map completes completes completes) plain
      fun u rest alike => ?_
    simp [branching, same u rest alike, Bind.bind, Except.bind]
  | unmarked none => exact .unmarked none

/-- The rest of a choice is read. -/
theorem obeys_choice {expr stmt : Reader Node}
    (expression : Obeys [.phrase (.expression .comparison)] room expr)
    (statement : Obeys [.phrase .statement] room stmt) (opening : Token) :
    Obeys [.token .openParen, .phrase (.expression .comparison), .token .closeParen, .branches] room
      (choice expr stmt opening) := by
  -- What comes behind the condition is a matter of its own: one branch or two.
  intro pending next
  dsimp only [choice, Cursor.number]
  refine .expect .openParen (by decide) rfl fun _ next' pending => ?_
  refine .bind (expression pending next') rfl fun condition next' pending => ?_
  dsimp only
  refine .expect .closeParen (by decide) rfl fun _ next' pending => ?_
  exact obeys_branching statement ⟨next, opening.position⟩ condition pending next'

/-- A statement takes at least one token. -/
theorem SoundStatement.shorter {stmt : Reader Node} {size : Nat} (sound : SoundStatement size stmt)
    {c c' : Cursor} {n : Node} (read : stmt c = .ok (n, c')) :
    c'.pending.length < c.pending.length := by
  -- What was used is a derivation, and the tokens of a statement are never none.
  obtain ⟨d, explained, -⟩ := sound read
  obtain ⟨t, more, starts, -⟩ := d.tokens_statement
  simp only [explained.covers, starts, List.length_append, List.length_cons]
  omega

/-- Within the tokens left it makes no difference what bounds the loop over statements. -/
theorem statements_bound {isEnd : Kind → Bool} {stmt : Reader Node} {size : Nat}
    (sound : SoundStatement size stmt) (bound bound' : List Token) (c : Cursor)
    (enough : c.pending.length ≤ bound.length) (enough' : c.pending.length ≤ bound'.length) :
    statements isEnd stmt bound c = statements isEnd stmt bound' c := by
  -- Each turn takes a token, so neither bound runs out before the tokens do.
  induction bound generalizing bound' c with
  | nil =>
    have none : c.pending = [] := List.length_eq_zero_iff.mp (by simpa using enough)
    cases bound' <;> simp [statements, none]
  | cons _ bound ih =>
    obtain ⟨pending, next⟩ := c
    cases bound' with
    | nil =>
      have none : pending = [] := List.length_eq_zero_iff.mp (by simpa using enough')
      simp [statements, none]
    | cons _ bound' =>
      cases pending with
      | nil => rfl
      | cons t rest =>
        simp only [List.length_cons, Nat.add_le_add_iff_right] at enough enough'
        simp only [statements]
        split
        · rfl
        · cases read : stmt ⟨t :: rest, next⟩ with
          | error e => rfl
          | ok p =>
            obtain ⟨first, c⟩ := p
            have shorter := sound.shorter read
            simp only [List.length_cons] at shorter
            have same := ih bound' c (by omega) (by omega)
            simp only [Bind.bind, Except.bind, same]

/-- Where no token ends it, the loop over statements reads one and starts again. -/
theorem statements_turn {isEnd : Kind → Bool} {stmt : Reader Node} {size : Nat}
    (sound : SoundStatement size stmt) {t : Token} (goesOn : isEnd t.kind = false)
    (p : List Token) (next : Nat) :
    statements isEnd stmt (t :: p) ⟨t :: p, next⟩ = stmt ⟨t :: p, next⟩ >>= fun (first, c) =>
      statements isEnd stmt c.pending c >>= fun (others, c) => .ok (first :: others, c) := by
  -- A statement takes a token, so the tokens behind it are a bound for what follows.
  simp only [statements, goesOn, Bool.false_eq_true, if_false]
  cases read : stmt ⟨t :: p, next⟩ with
  | error e => rfl
  | ok q =>
    obtain ⟨first, c⟩ := q
    have shorter := sound.shorter read
    simp only [List.length_cons] at shorter
    simp only [Bind.bind, Except.bind]
    rw [statements_bound sound p c.pending c (by omega) (Nat.le_refl _)]
    rfl

/-- The loop over statements reads a body. -/
theorem reading_statements {isEnd : Kind → Bool} {stmt : Reader Node} {size : Nat}
    (sound : SoundStatement size stmt) (obeys : Obeys [.phrase .statement] room stmt)
    (pending : List Token) (next : Nat) : Reading [.phrase .body] room
      (fun p => statements isEnd stmt p ⟨p, next⟩) pending := by
  -- Every turn leaves fewer tokens, since no statement is empty.
  induction size' : pending.length using Nat.strongRecOn generalizing pending next with
  | ind n ih =>
    cases pending with
    | nil => exact .unmarked (by simp)
    | cons t rest =>
      cases ended : isEnd t.kind with
      | true =>
        refine .widen (.congr (.done [] next (t :: rest)) fun u p alike => ?_)
          fun _ _ _ => Spells.nothing
        simp [statements, alike, ended]
      | false =>
        have turn : Reading [.phrase .statement, .phrase .body] room (fun p =>
            stmt ⟨p, next⟩ >>= fun (first, c) => statements isEnd stmt c.pending c >>=
              fun (others, c) => .ok (first :: others, c)) (t :: rest) := by
          refine .bindWith (obeys (t :: rest) next) rfl
            fun first next used t' rest' split spelled => ?_
          have fewer : (t' :: rest').length < n := by
            obtain ⟨d, covers, -⟩ := spelled
            obtain ⟨u, more, starts, -⟩ := d.tokens_statement
            simp [← size', split, covers, starts]
          exact .bind (ih _ fewer (t' :: rest') next rfl) rfl fun others next pending =>
            .done (first :: others) next pending
        refine .widen (turn.congr fun u p alike => ?_) fun _ _ _ => Spells.also
        exact statements_turn sound (by rw [alike, ended]) p next

/-- The rest of a block is read. -/
theorem obeys_blocking {stmt : Reader Node} {size : Nat} (sound : SoundStatement size stmt)
    (statement : Obeys [.phrase .statement] room stmt) (opening : Token) :
    Obeys [.phrase .body, .token .closeBrace] room (blocking stmt opening) := by
  -- The statements are read up to the brace, which is expected behind them.
  intro pending next
  dsimp only [blocking, Cursor.number]
  refine .bind (reading_statements sound statement pending (next + 1)) rfl
    fun body next pending => ?_
  dsimp only
  refine .expect .closeBrace (by decide) rfl fun _ next pending => ?_
  exact .done _ _ _

/-- Statements are read if those on the next level are. -/
theorem obeys_statementWith (below : ∀ lower, room = lower + 1 →
    Obeys [.phrase .statement] lower (statement lower)) :
    Obeys [.phrase .statement] room (statementWith (expression room) (deeper room)) := by
  -- The kind of the first token selects the alternative.
  intro pending next
  cases pending with
  | nil => exact .unmarked (by simp)
  | cons t rest =>
    cases kind : t.kind with
    | kwInt =>
      refine .widen (.take kind (by decide) (obeys_declaration t rest next) fun p => ?_)
        fun _ _ _ => Spells.declare
      simp [statementWith, kind]
    | kwPrint =>
      refine .widen (.take kind (by decide) (obeys_printing (obeys_expression room) t rest next)
        fun p => ?_) fun _ _ _ => Spells.print
      simp [statementWith, kind]
    | kwIf =>
      refine .nested kind (by decide) rfl rfl (fun _ _ _ => Spells.choose) ?_ ?_
      · rintro rfl u p alike
        simp [statementWith, alike, deeper, Node.tooDeep]
      · rintro lower rfl
        have parts := obeys_choice (obeys_expression lower) (below lower rfl) t rest next
        refine ⟨_, parts, fun p => ?_⟩
        simp [statementWith, kind, deeper]
    | kwWhile =>
      refine .nested kind (by decide) rfl rfl (fun _ _ _ => Spells.loop) ?_ ?_
      · rintro rfl u p alike
        simp [statementWith, alike, deeper, Node.tooDeep]
      · rintro lower rfl
        have parts := obeys_looping (obeys_expression lower) (below lower rfl) t rest next
        refine ⟨_, parts, fun p => ?_⟩
        simp [statementWith, kind, deeper]
    | openBrace =>
      refine .nested kind (by decide) rfl rfl (fun _ _ _ => Spells.block) ?_ ?_
      · rintro rfl u p alike
        simp [statementWith, alike, deeper, Node.tooDeep]
      · rintro lower rfl
        have parts := obeys_blocking (statement_sound lower) (below lower rfl) t rest next
        refine ⟨_, parts, fun p => ?_⟩
        simp [statementWith, kind, deeper]
    | _ =>
      -- Everything else is taken for an assignment.
      have assigned := obeys_assignment (obeys_expression room) (t :: rest) next
      refine .widen (assigned.congr fun u p alike => ?_) fun _ _ _ => Spells.assign
      simp [statementWith, alike, kind]

/-- Statements are read. -/
theorem obeys_statement (room : Nat) : Obeys [.phrase .statement] room (statement room) := by
  -- Choices, loops and blocks go one level deeper.
  induction room with
  | zero =>
    rw [statement_eq]
    exact obeys_statementWith (by simp)
  | succ room ih =>
    rw [statement_eq]
    refine obeys_statementWith fun lower same => ?_
    cases same
    exact ih

end BlockCode.Node
