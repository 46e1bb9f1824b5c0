import BlockCode.Proofs.Grammar.Nearest
import BlockCode.Proofs.Grammar.Shape
import BlockCode.Proofs.Grammar.Unambiguous
import BlockCode.Proofs.Parse.Readers

/-! Parsing accepts exactly what the grammar derives within the bound on nesting, and gives the tree
of the one derivation whose alternatives belong to the nearest choices. -/

namespace BlockCode

open Grammar

namespace Grammar.Derivation

variable {category : Category}

/-- No derivation covers an end mark. -/
theorem not_finish (d : Derivation category) : ∀ t ∈ d.tokens, t.kind ≠ .finish := by
  -- No alternative of the grammar has an end mark as a terminal, and it is no operator either.
  induction d with
  | more operator right others rightIh othersIh =>
    intro t member
    simp only [tokens, List.mem_cons, List.mem_append] at member
    rcases member with rfl | member | member
    · intro same
      have joins := operator.property
      rw [same] at joins
      revert joins
      cases ‹Level› <;> decide
    · exact rightIh t member
    · exact othersIh t member
  | done => simp [tokens]
  | nothing => simp [tokens]
  | _ =>
    intro t member
    simp only [tokens, List.mem_cons, List.mem_append, List.not_mem_nil, or_false] at member
    grind [Terminal.kind_val]

end Grammar.Derivation

namespace Node

/-- An end mark is the last token. -/
def Closed (tokens : List Token) : Prop :=
  ∃ before mark, tokens = before ++ [mark] ∧ mark.kind = .finish

/-- Token lists as they are given to the parser: an end mark closes them, and their numbers can be
read. -/
structure Admissible (tokens : List Token) : Prop where
  closed : Closed tokens
  legible : ∀ t ∈ tokens, t.kind = .number → Numeral.Legible t.lexeme

/-- The tokens of the program in a list: those before the first end mark. -/
def programTokens (tokens : List Token) : List Token :=
  tokens.takeWhile (·.kind ≠ .finish)

/-- The program in a closed list ends at an end mark of the list. -/
theorem Closed.eq_programTokens {tokens : List Token} (closed : Closed tokens) :
    ∃ mark after, tokens = programTokens tokens ++ mark :: after ∧ mark.kind = .finish := by
  -- The last token is such a mark if no token before it is.
  obtain ⟨before, last, rfl, ended⟩ := closed
  induction before with
  | nil => exact ⟨last, [], by simp [programTokens, ended], ended⟩
  | cons t others ih =>
    by_cases first : t.kind = .finish
    · exact ⟨t, others ++ [last], by simp [programTokens, first], first⟩
    · obtain ⟨mark, after, same, marks⟩ := ih
      refine ⟨mark, after, ?_, marks⟩
      simpa [programTokens, first] using same

/-- Tokens without an end mark before one are the program of a list. -/
theorem programTokens_append {before : List Token} {mark : Token} {after : List Token}
    (others : ∀ t ∈ before, t.kind ≠ .finish) (ended : mark.kind = .finish) :
    programTokens (before ++ mark :: after) = before := by
  -- All of them pass, and the mark does not.
  unfold programTokens
  rw [List.takeWhile_append_of_pos (by simpa using others)]
  simp [ended]

/-- Only closed lists are parsed. -/
theorem Closed.of_parse {tokens : List Token} {tree : Node} (read : parse tokens = .ok tree) :
    Closed tokens := by
  -- A list without a mark at its end is refused before it is read.
  unfold parse at read
  split at read
  · rename_i ended
    obtain ⟨mark, last, kind⟩ := Option.any_eq_true _ _ |>.mp ended
    obtain ⟨before, split⟩ := List.getLast?_eq_some_iff.mp last
    exact ⟨before, mark, split, by simpa using kind⟩
  · cases read

/-- A closed list is parsed by reading a program from its first token on. -/
theorem Closed.parse_eq {tokens : List Token} (closed : Closed tokens) :
    parse tokens = (do let (tree, _) ← programFrom ⟨tokens, 0⟩; return tree) := by
  -- The mark is there, so the check in front of the reading passes.
  obtain ⟨before, mark, rfl, ended⟩ := closed
  simp [parse, ended]

/-- A program within the bound on nesting is read up to its end mark. -/
theorem programFrom_complete {d : Derivation .body} (own : d.Nearest) (legible : d.Legible)
    (shallow : d.depth ≤ maxNesting) {mark : Token} (ended : mark.kind = .finish)
    (after : List Token) :
    ∃ first c', programFrom ⟨d.tokens ++ mark :: after, 0⟩ =
      .ok (.program ⟨0, first⟩ (d.build 1).1, c') := by
  -- The statements are read behind the number of the program.
  have read := reads d own legible (· = .finish) maxNesting 1 (mark :: after)
    (d.tokens ++ mark :: after) (by simp) shallow ⟨mark, after, rfl, by simp [ended]⟩
    (Nat.le_refl _)
  cases pending : d.tokens ++ mark :: after with
  | nil => simp at pending
  | cons t rest =>
    rw [pending] at read
    refine ⟨t.position, ⟨mark :: after, (d.build 1).2⟩, ?_⟩
    simp [programFrom, Cursor.peek, Cursor.number, read, Bind.bind, Except.bind, Pure.pure,
      Except.pure]

/-- A derivation reads a list: it covers the program in it, and every alternative belongs to the
nearest choice that has none. -/
structure ReadBy (tokens : List Token) (d : Derivation .body) : Prop where
  covers : d.tokens = programTokens tokens
  own : d.Nearest

/-- A program has at most one such derivation. -/
theorem ReadBy.unique {tokens : List Token} {d d' : Derivation .body} (reading : ReadBy tokens d)
    (reading' : ReadBy tokens d') : d = d' :=
  Derivation.eq_of_tokens_eq reading.own reading'.own (reading.covers.trans reading'.covers.symm)

/-- The numbers of a program in a legible list can be read. -/
theorem ReadBy.legible {tokens : List Token} {d : Derivation .body} (reading : ReadBy tokens d)
    (admissible : Admissible tokens) : d.Legible := by
  -- The program is the front of the list, so its numbers are numbers of the list.
  intro t member number
  rw [reading.covers] at member
  exact admissible.legible t ((List.takeWhile_sublist _).mem member) number

/-- A tree is only given for a program that the grammar derives, and it is the one built for the
derivation. -/
theorem parse_sound {tokens : List Token} {tree : Node} (read : parse tokens = .ok tree) :
    ∃ d first, ReadBy tokens d ∧ d.depth ≤ maxNesting ∧
      tree = .program ⟨0, first⟩ (d.build 1).1 := by
  -- Parsing gives what reading the program gives, without the place it has come to.
  rw [(Closed.of_parse read).parse_eq, bind_eq_ok] at read
  obtain ⟨⟨tree', c'⟩, from_start, returned⟩ := read
  cases returned
  obtain ⟨d, first, mark, rest, split, ended, own, shallow, built⟩ := programFrom_sound from_start
  refine ⟨d, first, ⟨?_, own⟩, shallow, built⟩
  rw [split, programTokens_append d.not_finish ended]

/-- A tree that is given is a program of statements, and no number in it is taken twice. -/
theorem parse_program {tokens : List Token} {tree : Node} (read : parse tokens = .ok tree) :
    ∃ mark body, tree = .program mark body ∧ (∀ n ∈ body, n.IsStatement) ∧ tree.ids.Nodup := by
  -- The program takes the first number, and its statements take those that follow.
  obtain ⟨d, first, _, _, rfl⟩ := parse_sound read
  exact ⟨_, _, rfl, d.shaped 1, (Numbered.cons 0 (d.numbers 1)).nodup⟩

/-- A tree is given for every program that the grammar derives within the bound on nesting. -/
theorem parse_complete {tokens : List Token} {d : Derivation .body}
    (admissible : Admissible tokens) (reading : ReadBy tokens d) (shallow : d.depth ≤ maxNesting) :
    ∃ tree, parse tokens = .ok tree := by
  -- The derivation is read up to the first mark.
  obtain ⟨mark, after, split, ended⟩ := admissible.closed.eq_programTokens
  obtain ⟨first, c', read⟩ :=
    programFrom_complete reading.own (reading.legible admissible) shallow ended after
  rw [reading.covers, ← split] at read
  exact ⟨_, by rw [admissible.closed.parse_eq, read]; rfl⟩

/-- What parsing comes to on a closed list, with the tokens that it depends on. -/
inductive Verdict (tokens : List Token) : Prop
  /-- A program is read up to an end mark, whatever stands behind. -/
  | accepted (used : List Token) (t : Token) (rest : List Token) (tree : Node)
      (split : tokens = used ++ t :: rest) (ended : t.kind = .finish)
      (spelled : Spells [.phrase .body] maxNesting used t) (plain : ∀ u ∈ used, u.Plain)
      (same : ∀ rest, Closed (used ++ t :: rest) → parse (used ++ t :: rest) = .ok tree)
  /-- A token is refused, whatever stands behind. -/
  | refused (front : List Token) (t : Token) (rest : List Token) (reason : Reason)
      (split : tokens = front ++ t :: rest)
      (refuses : Refuses [.phrase .body] maxNesting front t reason) (plain : ∀ u ∈ front, u.Plain)
      (same : ∀ u rest, reason.Concerns t u → Closed (front ++ u :: rest) →
        parse (front ++ u :: rest) = .error (reason.failure u))

/-- A closed list is parsed by reading its statements; the program has the place of the first
token. -/
theorem Closed.parse_eq_statements {before after : List Token} {t : Token}
    (closed : Closed (before ++ t :: after)) : parse (before ++ t :: after) =
      statements (· = .finish) (statement maxNesting) (before ++ t :: after)
        ⟨before ++ t :: after, 1⟩ >>= fun (body, _) =>
          .ok (.program ⟨0, (before.headD t).position⟩ body) := by
  -- The list is not empty, so the first token is there to be looked at.
  rw [closed.parse_eq]
  have first : Cursor.peek ⟨before ++ t :: after, 0⟩ = .ok (before.headD t) := by
    cases before <;> rfl
  simp only [programFrom, first, Cursor.number, Bind.bind, Except.bind, Pure.pure, Except.pure]
  cases statements (· = .finish) (statement maxNesting) (before ++ t :: after)
    ⟨before ++ t :: after, 1⟩ <;> rfl

/-- Parsing a closed list comes to one of the two. -/
theorem Closed.verdict {tokens : List Token} (closed : Closed tokens) : Verdict tokens := by
  -- An end mark is to come, so reading the statements tells what happens.
  have reading : Reading [.phrase .body] maxNesting
      (fun p => statements (· = .finish) (statement maxNesting) p ⟨p, 1⟩) tokens :=
    reading_statements (statement_sound maxNesting) (obeys_statement maxNesting) tokens 1
  cases reading with
  | read used t rest body next split spelled plain same =>
    have ended : t.kind = .finish := by
      obtain ⟨_, _, _, mark, after, stands, ends⟩ :=
        statements_sound (statement_sound maxNesting) (Nat.succ_pos _) _ (same t rest rfl)
      cases stands
      simpa using ends
    refine .accepted used t rest (.program ⟨0, (used.headD t).position⟩ body) split ended spelled
      plain fun rest closed => ?_
    rw [closed.parse_eq_statements, same t rest rfl]
    rfl
  | refused front t rest reason split refuses plain same =>
    refine .refused front t rest reason split refuses plain fun u rest alike closed => ?_
    rw [closed.parse_eq_statements, same u rest alike]
    rfl
  | unmarked none =>
    obtain ⟨before, mark, rfl, ended⟩ := closed
    exact absurd ended (none mark (by simp))

/-- No token is looked for beyond a closed list. -/
theorem Closed.parse_inside {tokens : List Token} (closed : Closed tokens) :
    parse tokens ≠ .error Cursor.beyond := by
  -- A token that is refused is one of the list.
  cases closed.verdict with
  | accepted used t rest tree split ended spelled plain same =>
    simp [split, same rest (split ▸ closed)]
  | refused front t rest reason split refuses plain same =>
    rw [split, same t rest (.refl _ _) (split ▸ closed)]
    cases reason <;> simp [Reason.failure, Token.refuse, Cursor.beyond]

/-- Whatever closed row of tokens follows an end mark, the outcome is that of the list which the
mark closes. -/
theorem parse_upTo_mark {before after : List Token} {mark : Token} (ended : mark.kind = .finish)
    (closed : Closed (before ++ mark :: after)) :
    parse (before ++ mark :: after) = parse (before ++ [mark]) := by
  -- The token that decides stands in the list up to the mark.
  have marked : Closed (before ++ [mark]) := ⟨before, mark, rfl, ended⟩
  have longer : before ++ mark :: after = before ++ [mark] ++ after := by simp
  rw [longer] at closed ⊢
  cases marked.verdict with
  | accepted used t rest tree split ended spelled plain same =>
    rw [split, List.append_assoc, List.cons_append] at closed
    rw [split, same rest (split ▸ marked), List.append_assoc, List.cons_append, same _ closed]
  | refused front t rest reason split refuses plain same =>
    rw [split, List.append_assoc, List.cons_append] at closed
    rw [split, same t rest (.refl _ _) (split ▸ marked), List.append_assoc, List.cons_append,
      same t _ (.refl _ _) closed]

/-- Parsing accepts exactly the programs that the grammar derives within the bound on nesting, and
gives the tree of the one derivation in which every alternative belongs to the nearest choice that
has none. What follows the first end mark makes no difference, and no token is looked for beyond
the list. -/
theorem parse_grammar {tokens : List Token} (admissible : Admissible tokens) :
    ((∃ tree, parse tokens = .ok tree) ↔ ∃ d, ReadBy tokens d ∧ d.depth ≤ maxNesting) ∧
    ((∃ d : Derivation .body, d.tokens = programTokens tokens) → ∃! d, ReadBy tokens d) ∧
    (∀ tree d, parse tokens = .ok tree → ReadBy tokens d →
      tree.unmarked = .program blank d.tree) ∧
    (∀ before mark after other, tokens = before ++ mark :: after → mark.kind = .finish →
      Closed (before ++ mark :: other) → parse (before ++ mark :: other) = parse tokens) ∧
    parse tokens ≠ .error Cursor.beyond := by
  -- Reading is sound and complete, and there is only one derivation to read.
  refine ⟨⟨?_, ?_⟩, ?_, ?_, ?_, admissible.closed.parse_inside⟩
  · -- What is read is derived, within the bound.
    rintro ⟨tree, read⟩
    obtain ⟨d, _, reading, shallow, _⟩ := parse_sound read
    exact ⟨d, reading, shallow⟩
  · rintro ⟨d, reading, shallow⟩
    exact parse_complete admissible reading shallow
  · -- With every alternative moved to its nearest choice, the same tokens are derived.
    rintro ⟨d, covers⟩
    have reading : ReadBy tokens d.nearest := ⟨d.tokens_nearest.trans covers, d.nearest_nearest⟩
    exact ⟨d.nearest, reading, fun d' reading' => reading'.unique reading⟩
  · -- The tree that is read is built from a derivation, and there is no other one.
    intro tree d read reading
    obtain ⟨d', first, reading', _, built⟩ := parse_sound read
    obtain rfl := reading.unique reading'
    have same := d.buildsTree (reading.legible admissible) 1
    rw [built, unmarked, same]
  · rintro before mark after other rfl ended closed
    rw [parse_upTo_mark ended closed, parse_upTo_mark ended admissible.closed]

/-- A token of a kind, at the start of a text. -/
def sampleTerminal (kind : Kind) (lexeme : String) : Terminal kind := ⟨⟨kind, lexeme, ⟨1, 1⟩⟩, rfl⟩

/-- A primary on its own as an expression. -/
def sampleValue (d : Derivation (.expression .primary)) : Derivation (.expression .comparison) :=
  .chain (by decide) (.chain (by decide) (.chain (by decide) d .done) .done) .done

/-- The number one. -/
def sampleOne : Derivation (.expression .primary) := .number (sampleTerminal .number "1")

/-- A sum. -/
def sampleSum : Derivation (.expression .comparison) :=
  -- Each level of operators puts a chain around the one below it.
  .chain (by decide) (.chain (by decide) (.chain (by decide) sampleOne .done)
    (.more ⟨(sampleTerminal .plus "+").val, rfl⟩ (.chain (by decide) sampleOne .done) .done)) .done

/-- A statement that prints a number. -/
def samplePrint (numeral : String) : Derivation .statement :=
  -- The numeral is left open, so that programs of different values can be built.
  .print (sampleTerminal .kwPrint "print") (sampleTerminal .openParen "(")
    (sampleValue (.number (sampleTerminal .number numeral))) (sampleTerminal .closeParen ")")
    (sampleTerminal .semicolon ";")

/-- A name compared with a sum that has a product in it: `b < 1 + 1 * 1`. -/
def sampleCondition : Derivation (.expression .comparison) :=
  -- Operators of all three levels are in it, so that their order shows.
  .chain (by decide)
    (.chain (by decide) (.chain (by decide) (.use (sampleTerminal .name "b")) .done) .done)
    (.more ⟨(sampleTerminal .less "<").val, rfl⟩
      (.chain (by decide) (.chain (by decide) sampleOne .done)
        (.more ⟨(sampleTerminal .plus "+").val, rfl⟩
          (.chain (by decide) sampleOne
            (.more ⟨(sampleTerminal .star "*").val, rfl⟩ sampleOne .done)) .done)) .done)

/-- Two differences, one behind the other: `1 - 1 - 1`. -/
def sampleDifference : Derivation (.expression .comparison) :=
  -- The second difference stands behind the first one, so it is done last.
  .chain (by decide) (.chain (by decide) (.chain (by decide) sampleOne .done)
    (.more ⟨(sampleTerminal .minus "-").val, rfl⟩ (.chain (by decide) sampleOne .done)
      (.more ⟨(sampleTerminal .minus "-").val, rfl⟩ (.chain (by decide) sampleOne .done)
        .done))) .done

/-- A choice inside a choice, with the one alternative given to the inner choice. -/
def sampleProgram : Derivation .body :=
  -- The alternative is the inner choice's; the outer one has none.
  .also (.choose (sampleTerminal .kwIf "if") (sampleTerminal .openParen "(")
    (sampleValue (.use (sampleTerminal .name "a"))) (sampleTerminal .closeParen ")")
    (.chooseElse (sampleTerminal .kwIf "if") (sampleTerminal .openParen "(")
      sampleCondition (sampleTerminal .closeParen ")")
      (.print (sampleTerminal .kwPrint "print") (sampleTerminal .openParen "(") sampleDifference
        (sampleTerminal .closeParen ")") (sampleTerminal .semicolon ";"))
      (sampleTerminal .kwElse "else") (samplePrint "2"))) .nothing

/-- The tokens of that program, with a token between two end marks behind it. -/
def sampleTokens : List Token :=
  -- What stands behind the first end mark is not read.
  sampleProgram.tokens ++ [(sampleTerminal .finish "").val, (sampleTerminal .kwElse "else").val,
    (sampleTerminal .finish "").val]

/-- The alternative goes to the inner choice, whatever stands behind the first end mark. The product
is made before the sum and the sum before the comparison, and of two differences the left one
first. -/
theorem parse_grammar_sample : Admissible sampleTokens ∧ ∃ tree, parse sampleTokens = .ok tree ∧
    tree.unmarked = .program blank
      [.choose blank (.use blank (sampleTerminal .name "a").val)
        (.chooseElse blank
          (.binary blank (.use blank (sampleTerminal .name "b").val)
            (sampleTerminal .less "<").val
            (.binary blank (.literal blank 1) (sampleTerminal .plus "+").val
              (.binary blank (.literal blank 1) (sampleTerminal .star "*").val
                (.literal blank 1))))
          (.print blank (.binary blank
            (.binary blank (.literal blank 1) (sampleTerminal .minus "-").val (.literal blank 1))
            (sampleTerminal .minus "-").val (.literal blank 1)))
          (.print blank (.literal blank 2)))] := by
  -- The tokens are those of a derivation at hand, which the general facts are asked about.
  have admissible : Admissible sampleTokens := by
    refine ⟨⟨_, _, (List.dropLast_append_getLast (by decide)).symm, by decide⟩, ?_⟩
    decide
  have reading : ReadBy sampleTokens sampleProgram :=
    ⟨rfl, by simp [sampleProgram, sampleCondition, sampleDifference, sampleOne, samplePrint,
      sampleValue, Derivation.Nearest, Derivation.isOpen]⟩
  obtain ⟨accepts, _, gives, _, _⟩ := parse_grammar admissible
  obtain ⟨tree, read⟩ := accepts.mpr ⟨sampleProgram, reading, by decide⟩
  exact ⟨admissible, tree, read, gives tree _ read reading⟩

end Node

end BlockCode
