import BlockCode.Proofs.Grammar

/-! All that the grammar derives has a derivation whose alternatives belong to the nearest
choices. -/

namespace BlockCode.Grammar.Derivation

/-- Gives an alternative to the last choice of a statement that has none. -/
def attach : {category : Category} → Derivation category → Terminal .kwElse →
    Derivation .statement → Derivation category
  | _, choose keyword opening condition closing yes, otherwise, no =>
    -- The inner choice is nearer, so it is served first.
    if yes.isOpen then choose keyword opening condition closing (yes.attach otherwise no)
    else chooseElse keyword opening condition closing yes otherwise no
  | _, chooseElse keyword opening condition closing yes first alternative, otherwise, no =>
    -- An alternative that is there already may hold an open choice.
    chooseElse keyword opening condition closing yes first (alternative.attach otherwise no)
  | _, loop keyword opening condition closing repeated, otherwise, no =>
    loop keyword opening condition closing (repeated.attach otherwise no)
  -- Other statements have no open choice at their end.
  | _, d, _, _ => d

/-- The derivation of the same tokens whose alternatives belong to the nearest choices. -/
def nearest : {category : Category} → Derivation category → Derivation category
  | _, group opening inside closing => group opening inside.nearest closing
  | _, chain composite first others => chain composite first.nearest others.nearest
  | _, more operator right others => more operator right.nearest others.nearest
  | _, assign name equals value semicolon => assign name equals value.nearest semicolon
  | _, print keyword opening value closing semicolon =>
    print keyword opening value.nearest closing semicolon
  | _, choose keyword opening condition closing yes =>
    choose keyword opening condition.nearest closing yes.nearest
  | _, chooseElse keyword opening condition closing yes otherwise no =>
    -- When its branch is open, the alternative goes in there, and the choice loses it.
    if yes.nearest.isOpen then
      choose keyword opening condition.nearest closing (yes.nearest.attach otherwise no.nearest)
    else
      chooseElse keyword opening condition.nearest closing yes.nearest otherwise no.nearest
  | _, loop keyword opening condition closing repeated =>
    loop keyword opening condition.nearest closing repeated.nearest
  | _, block opening inside closing => block opening inside.nearest closing
  | _, also first others => also first.nearest others.nearest
  | _, number numeral => number numeral
  | _, use name => use name
  | _, done => done
  | _, declare keyword name semicolon => declare keyword name semicolon
  | _, nothing => nothing

variable {category : Category}

/-- An alternative that is attached stands behind the statement it is attached to. -/
theorem tokens_attach (otherwise : Terminal .kwElse) (no : Derivation .statement)
    (d : Derivation category) (opened : d.isOpen = true) :
    (d.attach otherwise no).tokens = d.tokens ++ otherwise.val :: no.tokens := by
  -- The way to the open choice runs along the last parts of the statement.
  induction d with
  | choose keyword opening condition closing yes _ ih =>
    by_cases inner : yes.isOpen = true
    · simp [attach, inner, tokens, ih inner]
    · simp [attach, inner, tokens]
  | chooseElse keyword opening condition closing yes first alternative _ _ ih =>
    simp [attach, tokens, ih opened]
  | loop keyword opening condition closing repeated _ ih => simp [attach, tokens, ih opened]
  | _ => simp [isOpen] at opened

/-- Attaching an alternative to the last open choice leaves all of them with their nearest ones. -/
theorem nearest_attach {otherwise : Terminal .kwElse} {no : Derivation .statement}
    (settled : no.Nearest) (d : Derivation category) (opened : d.isOpen = true)
    (own : d.Nearest) : (d.attach otherwise no).Nearest := by
  -- An outer choice is passed over only when there is an open one inside it.
  induction d with
  | choose keyword opening condition closing yes _ ih =>
    obtain ⟨first, second⟩ := own
    by_cases inner : yes.isOpen = true
    · simp only [attach, inner, if_true, Nearest]
      exact ⟨first, ih inner second⟩
    · simp only [attach, inner, Bool.false_eq_true, if_false, Nearest]
      exact ⟨first, second, settled, by simp⟩
  | chooseElse keyword opening condition closing yes first alternative _ _ ih =>
    obtain ⟨condition, yes, alternative, closed⟩ := own
    exact ⟨condition, yes, ih opened alternative, closed⟩
  | loop keyword opening condition closing repeated _ ih =>
    exact ⟨own.1, ih opened own.2⟩
  | _ => simp [isOpen] at opened

/-- Moving alternatives to their nearest choices keeps the tokens. -/
theorem tokens_nearest (d : Derivation category) : d.nearest.tokens = d.tokens := by
  -- Only a choice whose first part is open changes, and its alternative moves into that part.
  induction d with
  | chooseElse keyword opening condition closing yes otherwise no conditionIh yesIh noIh =>
    by_cases inner : yes.nearest.isOpen = true
    · simp [nearest, inner, tokens, tokens_attach, conditionIh, yesIh, noIh]
    · simp [nearest, inner, tokens, conditionIh, yesIh, noIh]
  | _ => simp_all [nearest, tokens]

/-- After the move every alternative belongs to its nearest choice. -/
theorem nearest_nearest (d : Derivation category) : d.nearest.Nearest := by
  -- The parts are settled first, and then the alternative goes to the open choice among them.
  induction d with
  | chooseElse keyword opening condition closing yes otherwise no conditionIh yesIh noIh =>
    by_cases inner : yes.nearest.isOpen = true
    · simp only [nearest, inner, if_true, Nearest]
      exact ⟨conditionIh, nearest_attach noIh _ inner yesIh⟩
    · simp only [nearest, inner, Bool.false_eq_true, if_false, Nearest]
      exact ⟨conditionIh, yesIh, noIh, by simp⟩
  | _ => simp_all [nearest, Nearest]

end BlockCode.Grammar.Derivation
