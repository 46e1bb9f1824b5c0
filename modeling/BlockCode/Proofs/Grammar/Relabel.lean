import BlockCode.Proofs.Grammar.Production

/-! The grammar looks at the kinds of tokens only: with other tokens of the same kinds there is a
derivation of the same shape. -/

namespace BlockCode.Grammar

variable {category : Category} {f : Token → Token} {kind : Kind}

/-- Another token in the place of a terminal. -/
def Terminal.relabel (keeps : ∀ t, (f t).kind = t.kind) (t : Terminal kind) : Terminal kind :=
  ⟨f t.val, (keeps t.val).trans t.property⟩

namespace Derivation

/-- The derivation of the same shape with other tokens of the same kinds. -/
def relabel (keeps : ∀ t, (f t).kind = t.kind) :
    {category : Category} → Derivation category → Derivation category
  | _, number numeral => number (numeral.relabel keeps)
  | _, use name => use (name.relabel keeps)
  | _, group opening inside closing =>
    group (opening.relabel keeps) (inside.relabel keeps) (closing.relabel keeps)
  | _, chain composite first others =>
    chain composite (first.relabel keeps) (others.relabel keeps)
  | _, done => done
  | _, more operator right others =>
    -- The operator keeps its level, as that depends on its kind alone.
    more ⟨f operator.val, by rw [keeps]; exact operator.property⟩ (right.relabel keeps)
      (others.relabel keeps)
  | _, declare keyword name semicolon =>
    declare (keyword.relabel keeps) (name.relabel keeps) (semicolon.relabel keeps)
  | _, assign name equals value semicolon =>
    assign (name.relabel keeps) (equals.relabel keeps) (value.relabel keeps)
      (semicolon.relabel keeps)
  | _, print keyword opening value closing semicolon =>
    print (keyword.relabel keeps) (opening.relabel keeps) (value.relabel keeps)
      (closing.relabel keeps) (semicolon.relabel keeps)
  | _, choose keyword opening condition closing yes =>
    choose (keyword.relabel keeps) (opening.relabel keeps) (condition.relabel keeps)
      (closing.relabel keeps) (yes.relabel keeps)
  | _, chooseElse keyword opening condition closing yes otherwise no =>
    chooseElse (keyword.relabel keeps) (opening.relabel keeps) (condition.relabel keeps)
      (closing.relabel keeps) (yes.relabel keeps) (otherwise.relabel keeps) (no.relabel keeps)
  | _, loop keyword opening condition closing repeated =>
    loop (keyword.relabel keeps) (opening.relabel keeps) (condition.relabel keeps)
      (closing.relabel keeps) (repeated.relabel keeps)
  | _, block opening inside closing =>
    block (opening.relabel keeps) (inside.relabel keeps) (closing.relabel keeps)
  | _, nothing => nothing
  | _, also first others => also (first.relabel keeps) (others.relabel keeps)

variable (keeps : ∀ t, (f t).kind = t.kind)

/-- The other tokens stand in the places of the first ones. -/
theorem tokens_relabel (d : Derivation category) : (d.relabel keeps).tokens = d.tokens.map f := by
  induction d <;> simp_all [relabel, tokens, Terminal.relabel]

/-- The levels stay. -/
theorem depth_relabel (d : Derivation category) : (d.relabel keeps).depth = d.depth := by
  induction d <;> simp_all [relabel, depth]

/-- An open choice at the end stays open. -/
theorem isOpen_relabel (d : Derivation category) : (d.relabel keeps).isOpen = d.isOpen := by
  induction d <;> simp_all [relabel, isOpen]

/-- Alternatives stay with their nearest choices. -/
theorem nearest_relabel (d : Derivation category) (own : d.Nearest) :
    (d.relabel keeps).Nearest := by
  induction d <;> simp_all [relabel, Nearest, isOpen_relabel]

end Derivation

end BlockCode.Grammar
