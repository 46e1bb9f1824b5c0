import BlockCode.Proofs.Grammar

/-! Tokens have at most one derivation whose alternatives belong to the nearest choices. -/

namespace BlockCode.Grammar.Derivation

variable {category : Category} {level : Level}

/-- What may stand behind a derivation so that it is not the beginning of a longer one. -/
def Followed : {category : Category} → Derivation category → List Token → Prop
  | .expression level, _, rest | .tail level, _, rest =>
    -- An operator of this level or of a deeper one would be taken too.
    ∃ t more, rest = t :: more ∧ level.continues t.kind = false
  -- A closed statement ends where it ends, whatever follows.
  | .statement, d, rest => d.isOpen = true → ∃ t more, rest = t :: more ∧ t.kind ≠ .kwElse
  | .body, _, rest => ∃ t more, rest = t :: more ∧ (t.kind = .closeBrace ∨ t.kind = .finish)

/-- A terminal that continues no expression of a level may follow one. -/
theorem followed_terminal {kind : Kind} (d : Derivation (.expression level)) (t : Terminal kind)
    (rest : List Token) (stops : level.continues kind = false) : d.Followed (t.val :: rest) := by
  -- Only the kind of the first token is looked at.
  exact ⟨t.val, rest, rfl, by rw [t.property]; exact stops⟩

/-- The first operand of a level may be followed by the other ones. -/
theorem followed_operand (d : Derivation (.expression level.operand))
    (others : Derivation (.tail level)) {rest : List Token} (follows : others.Followed rest) :
    d.Followed (others.tokens ++ rest) := by
  -- Behind an operand stands an operator of the level, or what ends the whole expression.
  cases others with
  | done =>
    obtain ⟨t, more, rfl, stops⟩ := follows
    exact ⟨t, more, rfl, (Level.stops_inside stops).2⟩
  | more operator right others =>
    exact ⟨operator, _, rfl, Level.stops_at_operator operator.property⟩

/-- A statement starts with a token that neither ends a body nor opens an alternative. -/
theorem tokens_statement (d : Derivation .statement) :
    ∃ t more, d.tokens = t :: more ∧ t.kind ≠ .closeBrace ∧ t.kind ≠ .finish ∧
      t.kind ≠ .kwElse := by
  -- Every kind of statement has a keyword, a name or a brace of its own in front.
  cases d <;> exact ⟨_, _, rfl, by simp⟩

/-- Anything may follow a statement that is closed. -/
theorem followed_closed (d : Derivation .statement) {rest : List Token}
    (closed : d.isOpen = false) : d.Followed rest := by
  -- A condition is put on what follows an open one only.
  intro opened
  cases closed.symm.trans opened

/-- A statement may be followed by the other ones of its body. -/
theorem followed_statement (d : Derivation .statement) (others : Derivation .body)
    {rest : List Token} (follows : others.Followed rest) : d.Followed (others.tokens ++ rest) := by
  -- Neither a statement nor what ends a body starts with an alternative.
  intro _
  cases others with
  | nothing =>
    obtain ⟨t, more, rfl, ending⟩ := follows
    exact ⟨t, more, rfl, by rintro same; simp [same] at ending⟩
  | also first others =>
    obtain ⟨t, more, starts, -, -, other⟩ := first.tokens_statement
    exact ⟨t, more ++ others.tokens ++ rest, by simp [tokens, starts], other⟩

/-- A derivation is the only one of its category that its tokens begin with. -/
def Determined (d : Derivation category) : Prop :=
  -- Both have to give their alternatives to the nearest choices; otherwise there may be two.
  ∀ (d' : Derivation category) {rest rest' : List Token}, d.Nearest → d'.Nearest →
    d.Followed rest → d'.Followed rest' → d.tokens ++ rest = d'.tokens ++ rest' →
    d = d' ∧ rest = rest'

namespace Determined

/-- An expression is determined together with the terminal that ends it. -/
theorem enclosed {d d' : Derivation (.expression .comparison)} (determined : d.Determined)
    (own : d.Nearest) (own' : d'.Nearest) {kind : Kind} {closing closing' : Terminal kind}
    (stops : Level.comparison.continues kind = false) {rest rest' : List Token}
    (same : d.tokens ++ closing.val :: rest = d'.tokens ++ closing'.val :: rest') :
    d = d' ∧ closing = closing' ∧ rest = rest' := by
  -- The terminals are what follows the expressions, so they are the same as well.
  obtain ⟨inside, remains⟩ := determined d' own own' (followed_terminal d closing rest stops)
    (followed_terminal d' closing' rest' stops) same
  obtain ⟨first, ends⟩ := List.cons.inj remains
  exact ⟨inside, Subtype.ext first, ends⟩

/-- A number is read in one way. -/
theorem number (numeral : Terminal .number) : (Derivation.number numeral).Determined := by
  -- The first token tells the alternatives of a primary apart.
  intro d' rest rest' _ _ _ _ same
  cases d' with
  | number numeral' =>
    obtain ⟨first, ends⟩ := List.cons.inj same
    exact ⟨by rw [Subtype.ext first], ends⟩
  | chain composite => exact absurd rfl composite
  | _ => exact absurd (List.cons.inj same).1 (Terminal.val_ne _ _ (by decide))

/-- A variable is read in one way. -/
theorem use (name : Terminal .name) : (Derivation.use name).Determined := by
  -- The first token tells the alternatives of a primary apart.
  intro d' rest rest' _ _ _ _ same
  cases d' with
  | use name' =>
    obtain ⟨first, ends⟩ := List.cons.inj same
    exact ⟨by rw [Subtype.ext first], ends⟩
  | chain composite => exact absurd rfl composite
  | _ => exact absurd (List.cons.inj same).1 (Terminal.val_ne _ _ (by decide))

/-- Parentheses are read in one way if their inside is. -/
theorem group {opening : Terminal .openParen} {inside : Derivation (.expression .comparison)}
    {closing : Terminal .closeParen} (ih : inside.Determined) :
    (Derivation.group opening inside closing).Determined := by
  -- The inside ends at the closing parenthesis on both sides.
  intro d' rest rest' own own' _ _ same
  cases d' with
  | group opening' inside' closing' =>
    simp only [tokens, List.cons_append, List.append_assoc, List.nil_append] at same
    obtain ⟨first, remains⟩ := List.cons.inj same
    obtain ⟨rfl, rfl, ends⟩ := ih.enclosed own own' rfl remains
    exact ⟨by rw [Subtype.ext first], ends⟩
  | chain composite => exact absurd rfl composite
  | _ => exact absurd (List.cons.inj same).1 (Terminal.val_ne _ _ (by decide))

/-- Joined operands are read in one way if the first one and the others are. -/
theorem chain {composite : level ≠ .primary} {first : Derivation (.expression level.operand)}
    {others : Derivation (.tail level)} (firstIh : first.Determined)
    (othersIh : others.Determined) : (Derivation.chain composite first others).Determined := by
  -- Only a primary has other alternatives.
  intro d' rest rest' own own' follows follows' same
  cases d' with
  | chain composite' first' others' =>
    simp only [tokens, List.append_assoc] at same
    obtain ⟨rfl, remains⟩ := firstIh first' own.1 own'.1 (first.followed_operand others follows)
      (first'.followed_operand others' follows') same
    obtain ⟨rfl, ends⟩ := othersIh others' own.2 own'.2 follows follows' remains
    exact ⟨rfl, ends⟩
  | _ => exact absurd rfl composite

/-- Operands end in one way. -/
theorem done : (Derivation.done : Derivation (.tail level)).Determined := by
  -- A further operator would continue the expression.
  intro d' rest rest' _ _ follows follows' same
  cases d' with
  | done => exact ⟨rfl, same⟩
  | more operator right others =>
    obtain ⟨t, more, rfl, stops⟩ := follows
    have joins := operator.property
    rw [← (List.cons.inj same).1, (Level.stops_inside stops).1] at joins
    cases joins

/-- A further operand is read in one way if it and those behind it are. -/
theorem more {operator : { t : Token // level.isOperator t.kind }}
    {right : Derivation (.expression level.operand)} {others : Derivation (.tail level)}
    (rightIh : right.Determined) (othersIh : others.Determined) :
    (Derivation.more operator right others).Determined := by
  -- The operands cannot end before an operator of their level.
  intro d' rest rest' own own' follows follows' same
  cases d' with
  | done =>
    obtain ⟨t, more, rfl, stops⟩ := follows'
    have joins := operator.property
    rw [(List.cons.inj same).1, (Level.stops_inside stops).1] at joins
    cases joins
  | more operator' right' others' =>
    simp only [tokens, List.cons_append, List.append_assoc] at same
    obtain ⟨first, remains⟩ := List.cons.inj same
    obtain ⟨rfl, beyond⟩ := rightIh right' own.1 own'.1 (right.followed_operand others follows)
      (right'.followed_operand others' follows') remains
    obtain ⟨rfl, ends⟩ := othersIh others' own.2 own'.2 follows follows' beyond
    exact ⟨by rw [Subtype.ext first], ends⟩

/-- A declaration is read in one way. -/
theorem declare {keyword : Terminal .kwInt} {name : Terminal .name}
    {semicolon : Terminal .semicolon} :
    (Derivation.declare keyword name semicolon).Determined := by
  -- The first token tells the statements apart.
  intro d' rest rest' _ _ _ _ same
  cases d' with
  | declare keyword' name' semicolon' =>
    simp only [tokens, List.cons_append, List.nil_append, List.cons.injEq] at same
    obtain ⟨first, second, third, ends⟩ := same
    exact ⟨by rw [Subtype.ext first, Subtype.ext second, Subtype.ext third], ends⟩
  | _ => exact absurd (List.cons.inj same).1 (Terminal.val_ne _ _ (by decide))

/-- An assignment is read in one way if its value is. -/
theorem assign {name : Terminal .name} {equals : Terminal .assign}
    {value : Derivation (.expression .comparison)} {semicolon : Terminal .semicolon}
    (ih : value.Determined) : (Derivation.assign name equals value semicolon).Determined := by
  -- The value ends at the semicolon on both sides.
  intro d' rest rest' own own' _ _ same
  cases d' with
  | assign name' equals' value' semicolon' =>
    simp only [tokens, List.cons_append, List.append_assoc, List.nil_append,
      List.cons.injEq] at same
    obtain ⟨first, second, remains⟩ := same
    obtain ⟨rfl, rfl, ends⟩ := ih.enclosed own own' rfl remains
    exact ⟨by rw [Subtype.ext first, Subtype.ext second], ends⟩
  | _ => exact absurd (List.cons.inj same).1 (Terminal.val_ne _ _ (by decide))

/-- A print statement is read in one way if its value is. -/
theorem print {keyword : Terminal .kwPrint} {opening : Terminal .openParen}
    {value : Derivation (.expression .comparison)} {closing : Terminal .closeParen}
    {semicolon : Terminal .semicolon} (ih : value.Determined) :
    (Derivation.print keyword opening value closing semicolon).Determined := by
  -- The value ends at the closing parenthesis on both sides.
  intro d' rest rest' own own' _ _ same
  cases d' with
  | print keyword' opening' value' closing' semicolon' =>
    simp only [tokens, List.cons_append, List.append_assoc, List.nil_append,
      List.cons.injEq] at same
    obtain ⟨first, second, remains⟩ := same
    obtain ⟨rfl, rfl, beyond⟩ := ih.enclosed own own' rfl remains
    obtain ⟨third, ends⟩ := List.cons.inj beyond
    exact ⟨by rw [Subtype.ext first, Subtype.ext second, Subtype.ext third], ends⟩
  | _ => exact absurd (List.cons.inj same).1 (Terminal.val_ne _ _ (by decide))

/-- A condition with its statement is read in one way if both are. -/
theorem guarded {condition condition' : Derivation (.expression .comparison)}
    {part part' : Derivation .statement} (conditionIh : condition.Determined)
    (partIh : part.Determined) (own : condition.Nearest ∧ part.Nearest)
    (own' : condition'.Nearest ∧ part'.Nearest) {closing closing' : Terminal .closeParen}
    {after after' : List Token} (follows : part.Followed after) (follows' : part'.Followed after')
    (same : condition.tokens ++ closing.val :: (part.tokens ++ after) =
      condition'.tokens ++ closing'.val :: (part'.tokens ++ after')) :
    condition = condition' ∧ closing = closing' ∧ part = part' ∧ after = after' := by
  -- The condition ends at its parenthesis, and the statements start at the same place behind it.
  obtain ⟨conditions, closings, remains⟩ := conditionIh.enclosed own.1 own'.1 rfl same
  obtain ⟨parts, ends⟩ := partIh part' own.2 own'.2 follows follows' remains
  exact ⟨conditions, closings, parts, ends⟩

/-- A choice without an alternative is read in one way if its parts are. -/
theorem choose {keyword : Terminal .kwIf} {opening : Terminal .openParen}
    {condition : Derivation (.expression .comparison)} {closing : Terminal .closeParen}
    {yes : Derivation .statement} (conditionIh : condition.Determined)
    (yesIh : yes.Determined) :
    (Derivation.choose keyword opening condition closing yes).Determined := by
  intro d' rest rest' own own' follows follows' same
  have after := follows rfl
  cases d' with
  | choose keyword' opening' condition' closing' yes' =>
    simp only [tokens, List.cons_append, List.append_assoc, List.cons.injEq] at same
    obtain ⟨first, second, remains⟩ := same
    obtain ⟨rfl, rfl, rfl, ends⟩ := guarded conditionIh yesIh own own' (fun _ => after)
      (fun _ => follows' rfl) remains
    exact ⟨by rw [Subtype.ext first, Subtype.ext second], ends⟩
  | chooseElse keyword' opening' condition' closing' yes' otherwise no =>
    -- The part before an alternative is closed, so it would end where the other one ends.
    simp only [tokens, List.cons_append, List.append_assoc, List.cons.injEq] at same
    obtain ⟨_, _, _, ends⟩ := guarded conditionIh yesIh own ⟨own'.1, own'.2.1⟩ (fun _ => after)
      (yes'.followed_closed own'.2.2.2) same.2.2
    obtain ⟨t, more, rfl, other⟩ := after
    exact absurd ((List.cons.inj ends).1 ▸ otherwise.property) other
  | _ => exact absurd (List.cons.inj same).1 (Terminal.val_ne _ _ (by decide))

/-- A choice with an alternative is read in one way if its parts are. -/
theorem chooseElse {keyword : Terminal .kwIf} {opening : Terminal .openParen}
    {condition : Derivation (.expression .comparison)} {closing : Terminal .closeParen}
    {yes no : Derivation .statement} {otherwise : Terminal .kwElse}
    (conditionIh : condition.Determined) (yesIh : yes.Determined) (noIh : no.Determined) :
    (Derivation.chooseElse keyword opening condition closing yes otherwise no).Determined := by
  intro d' rest rest' own own' follows follows' same
  cases d' with
  | choose keyword' opening' condition' closing' yes' =>
    -- An open choice cannot stand before an alternative.
    simp only [tokens, List.cons_append, List.append_assoc, List.cons.injEq] at same
    have after := follows' rfl
    obtain ⟨_, _, _, ends⟩ := guarded conditionIh yesIh ⟨own.1, own.2.1⟩ own'
      (yes.followed_closed own.2.2.2) (fun _ => after) same.2.2
    obtain ⟨t, more, rfl, other⟩ := after
    exact absurd ((List.cons.inj ends).1 ▸ otherwise.property) other
  | chooseElse keyword' opening' condition' closing' yes' otherwise' no' =>
    simp only [tokens, List.cons_append, List.append_assoc, List.cons.injEq] at same
    obtain ⟨first, second, remains⟩ := same
    obtain ⟨rfl, rfl, rfl, beyond⟩ := guarded conditionIh yesIh ⟨own.1, own.2.1⟩
      ⟨own'.1, own'.2.1⟩ (yes.followed_closed own.2.2.2) (yes'.followed_closed own'.2.2.2) remains
    obtain ⟨third, further⟩ := List.cons.inj beyond
    obtain ⟨rfl, ends⟩ := noIh no' own.2.2.1 own'.2.2.1 follows follows' further
    exact ⟨by rw [Subtype.ext first, Subtype.ext second, Subtype.ext third], ends⟩
  | _ => exact absurd (List.cons.inj same).1 (Terminal.val_ne _ _ (by decide))

/-- A loop is read in one way if its parts are. -/
theorem loop {keyword : Terminal .kwWhile} {opening : Terminal .openParen}
    {condition : Derivation (.expression .comparison)} {closing : Terminal .closeParen}
    {repeated : Derivation .statement} (conditionIh : condition.Determined)
    (repeatedIh : repeated.Determined) :
    (Derivation.loop keyword opening condition closing repeated).Determined := by
  -- A loop is open when what it repeats is, so the same may follow both.
  intro d' rest rest' own own' follows follows' same
  cases d' with
  | loop keyword' opening' condition' closing' repeated' =>
    simp only [tokens, List.cons_append, List.append_assoc, List.cons.injEq] at same
    obtain ⟨first, second, remains⟩ := same
    obtain ⟨rfl, rfl, rfl, ends⟩ :=
      guarded conditionIh repeatedIh own own' follows follows' remains
    exact ⟨by rw [Subtype.ext first, Subtype.ext second], ends⟩
  | _ => exact absurd (List.cons.inj same).1 (Terminal.val_ne _ _ (by decide))

/-- A block is read in one way if its inside is. -/
theorem block {opening : Terminal .openBrace} {inside : Derivation .body}
    {closing : Terminal .closeBrace} (ih : inside.Determined) :
    (Derivation.block opening inside closing).Determined := by
  -- The inside ends at the closing brace on both sides.
  intro d' rest rest' own own' _ _ same
  cases d' with
  | block opening' inside' closing' =>
    simp only [tokens, List.cons_append, List.append_assoc, List.nil_append] at same
    obtain ⟨first, remains⟩ := List.cons.inj same
    obtain ⟨rfl, beyond⟩ := ih inside' own own' ⟨_, _, rfl, .inl closing.property⟩
      ⟨_, _, rfl, .inl closing'.property⟩ remains
    obtain ⟨last, ends⟩ := List.cons.inj beyond
    exact ⟨by rw [Subtype.ext first, Subtype.ext last], ends⟩
  | _ => exact absurd (List.cons.inj same).1 (Terminal.val_ne _ _ (by decide))

/-- What ends a body is not the start of a statement. -/
theorem not_statement_at_end {first : Derivation .statement} {others : Derivation .body}
    {rest rest' : List Token} (follows : Derivation.nothing.Followed rest)
    (same : rest = (Derivation.also first others).tokens ++ rest') : False := by
  -- A statement has neither a closing brace nor the end mark in front.
  obtain ⟨t, more, rfl, ending⟩ := follows
  obtain ⟨t', more', starts, brace, finish, -⟩ := first.tokens_statement
  simp only [tokens, starts, List.cons_append, List.cons.injEq] at same
  obtain ⟨rfl, -⟩ := same
  exact ending.elim brace finish

/-- A body ends in one way. -/
theorem nothing : Derivation.nothing.Determined := by
  -- A statement cannot begin where a body has ended.
  intro d' rest rest' _ _ follows _ same
  cases d' with
  | nothing => exact ⟨rfl, same⟩
  | also first others => exact (not_statement_at_end follows same).elim

/-- A further statement is read in one way if it and those behind it are. -/
theorem also {first : Derivation .statement} {others : Derivation .body}
    (firstIh : first.Determined) (othersIh : others.Determined) :
    (Derivation.also first others).Determined := by
  -- One more statement is read in both, since no body ends where a statement begins.
  intro d' rest rest' own own' follows follows' same
  cases d' with
  | nothing => exact (not_statement_at_end follows' same.symm).elim
  | also first' others' =>
    simp only [tokens, List.append_assoc] at same
    obtain ⟨rfl, remains⟩ := firstIh first' own.1 own'.1 (first.followed_statement others follows)
      (first'.followed_statement others' follows') same
    obtain ⟨rfl, ends⟩ := othersIh others' own.2 own'.2 follows follows' remains
    exact ⟨rfl, ends⟩

end Determined

/-- Every derivation is determined by its tokens. -/
theorem determined (d : Derivation category) : d.Determined := by
  -- One case for each alternative of the grammar.
  induction d with
  | number numeral => exact .number numeral
  | use name => exact .use name
  | group _ _ _ ih => exact .group ih
  | chain _ _ _ firstIh othersIh => exact .chain firstIh othersIh
  | done => exact .done
  | more _ _ _ rightIh othersIh => exact .more rightIh othersIh
  | declare => exact .declare
  | assign _ _ _ _ ih => exact .assign ih
  | print _ _ _ _ _ ih => exact .print ih
  | choose _ _ _ _ _ conditionIh yesIh => exact .choose conditionIh yesIh
  | chooseElse _ _ _ _ _ _ _ conditionIh yesIh noIh => exact .chooseElse conditionIh yesIh noIh
  | loop _ _ _ _ _ conditionIh repeatedIh => exact .loop conditionIh repeatedIh
  | block _ _ _ ih => exact .block ih
  | nothing => exact .nothing
  | also _ _ firstIh othersIh => exact .also firstIh othersIh

/-- A program has one derivation whose alternatives belong to the nearest choices. -/
theorem eq_of_tokens_eq {d d' : Derivation .body} (own : d.Nearest) (own' : d'.Nearest)
    (same : d.tokens = d'.tokens) : d = d' := by
  -- An end mark may follow both.
  let mark : Token := ⟨.finish, "", ⟨0, 0⟩⟩
  have follows (e : Derivation .body) : e.Followed [mark] := ⟨mark, [], rfl, .inr rfl⟩
  exact (d.determined d' own own' (follows d) (follows d') (by rw [same])).1

end BlockCode.Grammar.Derivation
