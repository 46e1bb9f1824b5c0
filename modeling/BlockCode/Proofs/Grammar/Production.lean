import BlockCode.Proofs.Grammar

/-! The alternatives of the grammar as rows of parts, and the tokens that begin such a row. -/

namespace BlockCode.Grammar

variable {category : Category} {level : Level} {room room' : Nat} {row front : List Token}
  {next next' : Token}

/-- A derivation stands before a token: its alternatives are with the nearest choices, it has few
enough levels, and it is not left open before an alternative. -/
structure Fits (room : Nat) (next : Token) (d : Derivation category) : Prop where
  nearest : d.Nearest
  shallow : d.depth ≤ room
  settled : d.isOpen = true → next.kind ≠ .kwElse

/-- What the alternatives of the grammar are made of. -/
inductive Part where
  /-- A token of a kind. -/
  | token (kind : Kind)
  /-- An operator between the operands of a level. -/
  | operator (level : Level)
  /-- Whatever a category derives. -/
  | phrase (category : Category)
  /-- What follows the condition of a choice: a statement, or two of them with an alternative's
  keyword between them. -/
  | branches
deriving DecidableEq, Repr

namespace Part

/-- The rows of tokens that a part can be, with so many levels left and a token behind them. -/
def Spells : Part → (room : Nat) → List Token → (next : Token) → Prop
  | token kind, _, row, _ => ∃ t, row = [t] ∧ t.kind = kind
  | operator level, _, row, _ => ∃ t, row = [t] ∧ level.isOperator t.kind = true
  -- The token behind a phrase decides whether it ends there.
  | phrase category, room, row, next => ∃ d : Derivation category, row = d.tokens ∧ Fits room next d
  | branches, room, row, next => ∃ yes : Derivation .statement,
    -- Without an alternative, none may follow either.
    (row = yes.tokens ∧ Fits room next yes ∧ next.kind ≠ .kwElse) ∨
    ∃ (otherwise : Terminal .kwElse) (no : Derivation .statement),
      row = yes.tokens ++ otherwise.val :: no.tokens ∧ Fits room otherwise.val yes ∧
        Fits room next no

/-- Parts that can always be found, and do not start with an alternative's keyword. -/
def starts : Part → Bool
  | token kind => kind ≠ .kwElse
  -- An operator is never asked for: where there is none, the expression ends.
  | operator _ => false
  | phrase _ | branches => true

end Part

/-- The rows of tokens that parts in a row can be. -/
def Spells : List Part → (room : Nat) → List Token → (next : Token) → Prop
  | [], _, row, _ => row = []
  | part :: parts, room, row, next => ∃ used others, row = used ++ others ∧
    -- The token behind a part is the first one of the parts that follow, if they have any.
    part.Spells room used (others.headD next) ∧ Spells parts room others next

/-- Some tokens begin a row that parts can be, whatever follows but an alternative. -/
def Completes (parts : List Part) (room : Nat) (front : List Token) : Prop :=
  ∃ more, ∀ next : Token, next.kind ≠ .kwElse → Spells parts room (front ++ more) next

/-- A row of a single part is a row of that part. -/
@[simp] theorem spells_singleton {part : Part} :
    Spells [part] room row next ↔ part.Spells room row next := by
  -- Nothing is left for the parts behind a single one.
  constructor
  · rintro ⟨used, others, rfl, spelled, rfl⟩
    simpa using spelled
  · intro spelled
    exact ⟨row, [], by simp, spelled, rfl⟩

/-- A row behind a token starts with the token. -/
theorem spells_token {kind : Kind} {parts : List Part} :
    Spells (.token kind :: parts) room row next ↔ ∃ (t : Terminal kind) (others : List Token),
      row = t.val :: others ∧ Spells parts room others next := by
  -- The kind of the token is kept with it, as a terminal.
  constructor
  · rintro ⟨_, others, rfl, ⟨t, rfl, isKind⟩, spelled⟩
    exact ⟨⟨t, isKind⟩, others, rfl, spelled⟩
  · rintro ⟨t, others, rfl, spelled⟩
    exact ⟨[t.val], others, rfl, ⟨t.val, rfl, t.property⟩, spelled⟩

/-- A row behind a phrase starts with the tokens of its derivation. -/
theorem spells_phrase {parts : List Part} :
    Spells (.phrase category :: parts) room row next ↔
      ∃ (d : Derivation category) (others : List Token), row = d.tokens ++ others ∧
        Fits room (others.headD next) d ∧ Spells parts room others next := by
  -- What follows the phrase is the first token behind it, or what follows the whole row.
  constructor
  · rintro ⟨_, others, rfl, ⟨d, rfl, fits⟩, spelled⟩
    exact ⟨d, others, rfl, fits, spelled⟩
  · rintro ⟨d, others, rfl, fits, spelled⟩
    exact ⟨d.tokens, others, rfl, ⟨d, rfl, fits⟩, spelled⟩

/-- No parts are no tokens. -/
theorem spells_nil : Spells [] room row next ↔ row = [] := Iff.rfl

namespace Spells

/-- A number is a primary. -/
theorem number (spelled : Spells [.token .number] room row next) :
    Spells [.phrase (.expression .primary)] room row next := by
  -- A single token has no levels and is never open, so it fits everywhere.
  simp only [spells_token, spells_nil] at spelled
  obtain ⟨numeral, _, rfl, rfl⟩ := spelled
  exact spells_singleton.mpr
    ⟨.number numeral, rfl, trivial, Nat.zero_le _, by simp [Derivation.isOpen]⟩

/-- A variable is a primary. -/
theorem use (spelled : Spells [.token .name] room row next) :
    Spells [.phrase (.expression .primary)] room row next := by
  -- As for a number, only the kind of the token has to be right.
  simp only [spells_token, spells_nil] at spelled
  obtain ⟨name, _, rfl, rfl⟩ := spelled
  exact spells_singleton.mpr ⟨.use name, rfl, trivial, Nat.zero_le _, by simp [Derivation.isOpen]⟩

/-- An expression in parentheses is a primary with one level more. -/
theorem group (spelled : Spells [.token .openParen, .phrase (.expression .comparison),
    .token .closeParen] room row next) :
    Spells [.phrase (.expression .primary)] (room + 1) row next := by
  -- The level that the parentheses add is the one that there is more room for.
  simp only [spells_token, spells_phrase, spells_nil] at spelled
  obtain ⟨opening, _, rfl, inside, _, rfl, fits, closing, _, rfl, rfl⟩ := spelled
  exact spells_singleton.mpr ⟨.group opening inside closing, rfl, fits.nearest,
    Nat.succ_le_succ fits.shallow, by simp [Derivation.isOpen]⟩

/-- Operands of a level make an expression of it. -/
theorem chain (composite : level ≠ .primary) (spelled : Spells
    [.phrase (.expression level.operand), .phrase (.tail level)] room row next) :
    Spells [.phrase (.expression level)] room row next := by
  -- Both parts are inside the same levels, so the deeper one decides.
  simp only [spells_phrase, spells_nil] at spelled
  obtain ⟨first, _, rfl, fits, others, _, rfl, further, rfl⟩ := spelled
  exact spells_singleton.mpr ⟨.chain composite first others, by simp [Derivation.tokens],
    ⟨fits.nearest, further.nearest⟩, max_le fits.shallow further.shallow,
    by simp [Derivation.isOpen]⟩

/-- An expression may have no further operands. -/
theorem done (spelled : Spells [] room row next) :
    Spells [.phrase (.tail level)] room row next := by
  -- No tokens, no levels, and nothing that an alternative could belong to.
  obtain rfl := spelled
  exact spells_singleton.mpr ⟨.done, rfl, trivial, Nat.zero_le _, by simp [Derivation.isOpen]⟩

/-- An operator with its operand may be followed by others. -/
theorem more (spelled : Spells [.operator level, .phrase (.expression level.operand),
    .phrase (.tail level)] room row next) : Spells [.phrase (.tail level)] room row next := by
  -- The operator is of the level of the operands, which keeps the derivation well formed.
  obtain ⟨_, _, rfl, ⟨operator, rfl, joins⟩, spelled⟩ := spelled
  simp only [spells_phrase, spells_nil] at spelled
  obtain ⟨right, _, rfl, fits, others, _, rfl, further, rfl⟩ := spelled
  exact spells_singleton.mpr ⟨.more ⟨operator, joins⟩ right others, by simp [Derivation.tokens],
    ⟨fits.nearest, further.nearest⟩, max_le fits.shallow further.shallow,
    by simp [Derivation.isOpen]⟩

/-- A declaration is a statement. -/
theorem declare (spelled : Spells [.token .kwInt, .token .name, .token .semicolon] room row next) :
    Spells [.phrase .statement] room row next := by
  -- A declaration is closed by its semicolon, so an alternative may follow without harm.
  simp only [spells_token, spells_nil] at spelled
  obtain ⟨keyword, _, rfl, name, _, rfl, semicolon, _, rfl, rfl⟩ := spelled
  exact spells_singleton.mpr ⟨.declare keyword name semicolon, rfl, trivial, Nat.zero_le _,
    by simp [Derivation.isOpen]⟩

/-- An assignment is a statement. -/
theorem assign (spelled : Spells [.token .name, .token .assign, .phrase (.expression .comparison),
    .token .semicolon] room row next) : Spells [.phrase .statement] room row next := by
  -- The levels are those of the value, and the semicolon closes the statement.
  simp only [spells_token, spells_phrase, spells_nil] at spelled
  obtain ⟨name, _, rfl, equals, _, rfl, value, _, rfl, fits, semicolon, _, rfl, rfl⟩ := spelled
  exact spells_singleton.mpr ⟨.assign name equals value semicolon, rfl, fits.nearest, fits.shallow,
    by simp [Derivation.isOpen]⟩

/-- A print statement is a statement. -/
theorem print (spelled : Spells [.token .kwPrint, .token .openParen,
    .phrase (.expression .comparison), .token .closeParen, .token .semicolon] room row next) :
    Spells [.phrase .statement] room row next := by
  -- As for an assignment, only the value has levels.
  simp only [spells_token, spells_phrase, spells_nil] at spelled
  obtain ⟨keyword, _, rfl, opening, _, rfl, value, _, rfl, fits, closing, _, rfl, semicolon, _, rfl,
    rfl⟩ := spelled
  exact spells_singleton.mpr ⟨.print keyword opening value closing semicolon, rfl, fits.nearest,
    fits.shallow, by simp [Derivation.isOpen]⟩

/-- A choice is a statement with one level more than its parts. -/
theorem choose (spelled : Spells [.token .kwIf, .token .openParen,
    .phrase (.expression .comparison), .token .closeParen, .branches] room row next) :
    Spells [.phrase .statement] (room + 1) row next := by
  simp only [spells_token, spells_phrase, spells_singleton] at spelled
  obtain ⟨keyword, _, rfl, opening, _, rfl, condition, _, rfl, fits, closing, _, rfl, yes,
    ⟨rfl, first, other⟩ | ⟨otherwise, no, rfl, first, second⟩⟩ := spelled
  · exact spells_singleton.mpr ⟨.choose keyword opening condition closing yes,
      by simp [Derivation.tokens], ⟨fits.nearest, first.nearest⟩,
      Nat.succ_le_succ (max_le fits.shallow first.shallow), fun _ => other⟩
  · -- The first part is closed, since an alternative follows it.
    have closed : yes.isOpen = false := by
      simpa using fun opened => first.settled opened otherwise.property
    exact spells_singleton.mpr ⟨.chooseElse keyword opening condition closing yes otherwise no,
      by simp [Derivation.tokens], ⟨fits.nearest, first.nearest, second.nearest, closed⟩,
      Nat.succ_le_succ (max_le (max_le fits.shallow first.shallow) second.shallow), second.settled⟩

/-- A loop is a statement with one level more than its parts. -/
theorem loop (spelled : Spells [.token .kwWhile, .token .openParen,
    .phrase (.expression .comparison), .token .closeParen, .phrase .statement] room row next) :
    Spells [.phrase .statement] (room + 1) row next := by
  -- An alternative behind the loop would belong to its body, so the body decides what may follow.
  simp only [spells_token, spells_phrase, spells_nil] at spelled
  obtain ⟨keyword, _, rfl, opening, _, rfl, condition, _, rfl, fits, closing, _, rfl, repeated, _,
    rfl, body, rfl⟩ := spelled
  exact spells_singleton.mpr ⟨.loop keyword opening condition closing repeated,
    by simp [Derivation.tokens], ⟨fits.nearest, body.nearest⟩,
    Nat.succ_le_succ (max_le fits.shallow body.shallow), body.settled⟩

/-- A block is a statement with one level more than its inside. -/
theorem block (spelled : Spells [.token .openBrace, .phrase .body, .token .closeBrace] room row
    next) : Spells [.phrase .statement] (room + 1) row next := by
  -- The brace closes the block, whatever stands last inside it.
  simp only [spells_token, spells_phrase, spells_nil] at spelled
  obtain ⟨opening, _, rfl, inside, _, rfl, fits, closing, _, rfl, rfl⟩ := spelled
  exact spells_singleton.mpr ⟨.block opening inside closing, rfl, fits.nearest,
    Nat.succ_le_succ fits.shallow, by simp [Derivation.isOpen]⟩

/-- A body may be empty. -/
theorem nothing (spelled : Spells [] room row next) : Spells [.phrase .body] room row next := by
  -- Nothing is spelled by nothing.
  obtain rfl := spelled
  exact spells_singleton.mpr ⟨.nothing, rfl, trivial, Nat.zero_le _, by simp [Derivation.isOpen]⟩

/-- A statement may be followed by others. -/
theorem also (spelled : Spells [.phrase .statement, .phrase .body] room row next) :
    Spells [.phrase .body] room row next := by
  -- An alternative cannot follow a body, so only the last statement is asked about it.
  simp only [spells_phrase, spells_nil] at spelled
  obtain ⟨first, _, rfl, fits, others, _, rfl, further, rfl⟩ := spelled
  exact spells_singleton.mpr ⟨.also first others, by simp [Derivation.tokens],
    ⟨fits.nearest, further.nearest⟩, max_le fits.shallow further.shallow,
    by simp [Derivation.isOpen]⟩

/-- A statement may be a choice's only part, if no alternative follows. -/
theorem onlyBranch (spelled : Spells [.phrase .statement] room row next)
    (other : next.kind ≠ .kwElse) : Spells [.branches] room row next := by
  -- The statement may be open here, since what follows is no alternative.
  obtain ⟨yes, covers, fits⟩ := spells_singleton.mp spelled
  exact spells_singleton.mpr ⟨yes, .inl ⟨covers, fits, other⟩⟩

/-- Two statements may be a choice's parts. -/
theorem bothBranches (spelled : Spells [.phrase .statement, .token .kwElse, .phrase .statement] room
    row next) : Spells [.branches] room row next := by
  -- The keyword follows the first statement, which therefore has to be closed.
  simp only [spells_token, spells_phrase, spells_nil] at spelled
  obtain ⟨yes, _, rfl, first, otherwise, _, rfl, no, _, rfl, second, rfl⟩ := spelled
  exact spells_singleton.mpr ⟨yes, .inr ⟨otherwise, no, by simp, first, second⟩⟩

end Spells

/-- A derivation that fits has levels to spare. -/
theorem Fits.mono {d : Derivation category} (fits : Fits room next d) (more : room ≤ room') :
    Fits room' next d := by
  exact ⟨fits.nearest, Nat.le_trans fits.shallow more, fits.settled⟩

/-- A derivation that fits may stand before anything but an alternative. -/
theorem Fits.before {d : Derivation category} (fits : Fits room next d)
    (other : next'.kind ≠ .kwElse) : Fits room next' d := by
  exact ⟨fits.nearest, fits.shallow, fun _ => other⟩

namespace Part.Spells

variable {part : Part}

/-- More levels do no harm. -/
theorem mono (spelled : part.Spells room row next) (more : room ≤ room') :
    part.Spells room' row next := by
  -- Tokens have no levels; a phrase is asked for them, and a choice for those of each branch.
  cases part with
  | token => exact spelled
  | operator => exact spelled
  | phrase =>
    obtain ⟨d, covers, fits⟩ := spelled
    exact ⟨d, covers, fits.mono more⟩
  | branches =>
    obtain ⟨yes, ⟨covers, fits, other⟩ | ⟨otherwise, no, covers, first, second⟩⟩ := spelled
    · exact ⟨yes, .inl ⟨covers, fits.mono more, other⟩⟩
    · exact ⟨yes, .inr ⟨otherwise, no, covers, first.mono more, second.mono more⟩⟩

/-- Anything but an alternative may follow instead. -/
theorem before (spelled : part.Spells room row next) (other : next'.kind ≠ .kwElse) :
    part.Spells room row next' := by
  -- Only what is open asks what follows it, and it asks for nothing but an alternative.
  cases part with
  | token => exact spelled
  | operator => exact spelled
  | phrase =>
    obtain ⟨d, covers, fits⟩ := spelled
    exact ⟨d, covers, fits.before other⟩
  | branches =>
    obtain ⟨yes, ⟨covers, fits, _⟩ | ⟨otherwise, no, covers, first, second⟩⟩ := spelled
    · exact ⟨yes, .inl ⟨covers, fits.before other, other⟩⟩
    · exact ⟨yes, .inr ⟨otherwise, no, covers, first, second.before other⟩⟩

end Part.Spells

/-- A token of a kind that stands for any other one. -/
def Terminal.typical (kind : Kind) : Terminal kind := ⟨⟨kind, "x", .start⟩, rfl⟩

/-- A derivation that fits everywhere: it needs no level, it is not left open, and it does not start
with an alternative's keyword. -/
structure Simple (d : Derivation category) : Prop where
  nearest : d.Nearest
  shallow : d.depth = 0
  closed : d.isOpen = false
  neutral : ∀ next : Token, next.kind ≠ .kwElse → (d.tokens.headD next).kind ≠ .kwElse

namespace Simple

variable {d : Derivation category}

/-- Such a derivation fits. -/
theorem fits (simple : Simple d) (room : Nat) (next : Token) : Fits room next d := by
  -- It has no levels and is not open, so neither the room nor what follows is asked for.
  have shallow := simple.shallow
  exact ⟨simple.nearest, by omega, by simp [simple.closed]⟩

/-- An operand on its own is one of the next level. -/
theorem alone (level : Level) (composite : level ≠ .primary)
    {d : Derivation (.expression level.operand)} (simple : Simple d) :
    Simple (.chain composite d .done) := by
  -- An operand without a tail behind it adds neither tokens nor levels.
  obtain ⟨nearest, shallow, closed, neutral⟩ := simple
  refine ⟨?_, ?_, ?_, ?_⟩
  · simp [Derivation.Nearest, nearest]
  · simp [Derivation.depth, shallow]
  · simp [Derivation.isOpen]
  · simpa [Derivation.tokens] using neutral

end Simple

/-- Every category has a derivation that fits everywhere. -/
theorem exists_simple (category : Category) : ∃ d : Derivation category, Simple d := by
  cases category with
  | expression level =>
    -- A variable is an expression of every level.
    have primary : Simple (.use (.typical .name)) :=
      ⟨trivial, rfl, rfl, by simp [Derivation.tokens, Terminal.typical]⟩
    have multiplicative := primary.alone .multiplicative (by decide)
    have additive := multiplicative.alone .additive (by decide)
    cases level with
    | primary => exact ⟨_, primary⟩
    | multiplicative => exact ⟨_, multiplicative⟩
    | additive => exact ⟨_, additive⟩
    | comparison => exact ⟨_, additive.alone .comparison (by decide)⟩
  | tail level => exact ⟨.done, trivial, rfl, rfl, by simp [Derivation.tokens]⟩
  | statement =>
    refine ⟨.declare (.typical .kwInt) (.typical .name) (.typical .semicolon), trivial, rfl, rfl,
      ?_⟩
    simp [Derivation.tokens, Terminal.typical]
  | body => exact ⟨.nothing, trivial, rfl, rfl, by simp [Derivation.tokens]⟩

/-- Parts that start somewhere can be found, and what is found does not start with an alternative's
keyword. -/
theorem exists_spelled {parts : List Part} (starts : parts.all Part.starts = true) (room : Nat) :
    ∃ row, ∀ next : Token, next.kind ≠ .kwElse →
      (row.headD next).kind ≠ .kwElse ∧ Spells parts room row next := by
  induction parts with
  | nil => exact ⟨[], fun next other => ⟨other, rfl⟩⟩
  | cons part parts ih =>
    simp only [List.all_cons, Bool.and_eq_true] at starts
    obtain ⟨others, found⟩ := ih starts.2
    -- One row for the first part is enough, with the row of the others behind it.
    have first : ∃ used, ∀ next : Token, next.kind ≠ .kwElse →
        (used.headD next).kind ≠ .kwElse ∧ part.Spells room used next := by
      cases part with
      | token kind =>
        exact ⟨[(Terminal.typical kind).val], fun next _ =>
          ⟨by simpa [Part.starts] using starts.1, _, rfl, rfl⟩⟩
      | operator => cases starts.1
      | phrase category =>
        obtain ⟨d, simple⟩ := exists_simple category
        refine ⟨d.tokens, fun next other => ⟨simple.neutral next other, d, rfl, ?_⟩⟩
        exact simple.fits room next
      | branches =>
        obtain ⟨yes, simple⟩ := exists_simple .statement
        refine ⟨yes.tokens, fun next other => ⟨simple.neutral next other, yes, ?_⟩⟩
        exact .inl ⟨rfl, simple.fits room next, other⟩
    obtain ⟨used, spelled⟩ := first
    refine ⟨used ++ others, fun next other => ?_⟩
    obtain ⟨neutral, rest⟩ := found next other
    obtain ⟨neutral', own⟩ := spelled _ neutral
    refine ⟨?_, used, others, rfl, own, rest⟩
    cases used with
    | nil => exact neutral'
    | cons t used => exact neutral'

namespace Completes

variable {part : Part} {parts : List Part} {used : List Token}

/-- Nothing begins a row of parts that start somewhere. -/
theorem nil (starts : parts.all Part.starts = true) (room : Nat) : Completes parts room [] := by
  -- Any row of the parts does: all of it is still to come.
  obtain ⟨row, found⟩ := exists_spelled starts room
  exact ⟨row, fun next other => (found next other).2⟩

/-- What begins a first part begins a row of it and further parts. -/
theorem first (completes : Completes [part] room front) (starts : parts.all Part.starts = true) :
    Completes (part :: parts) room front := by
  -- The further parts stand behind the completed one, and do not start with an alternative.
  obtain ⟨more, spelled⟩ := completes
  obtain ⟨row, found⟩ := exists_spelled starts room
  refine ⟨more ++ row, fun next other => ?_⟩
  obtain ⟨neutral, rest⟩ := found next other
  exact ⟨front ++ more, row, by simp, spells_singleton.mp (spelled _ neutral), rest⟩

/-- What begins further parts begins a row of them behind a first part. -/
theorem behind {t : Token} (spelled : part.Spells room used t)
    (completes : Completes parts room front) (head : front.head? = some t) :
    Completes (part :: parts) room (used ++ front) := by
  -- The first part is followed by the token that it was read before.
  obtain ⟨more, others⟩ := completes
  refine ⟨more, fun next other => ⟨used, front ++ more, by simp, ?_, others next other⟩⟩
  cases front with
  | nil => cases head
  | cons t front => cases head; exact spelled

/-- A first part begins a row of it and further parts. -/
theorem stop (spelled : part.Spells room used next) (starts : parts.all Part.starts = true) :
    Completes (part :: parts) room used := by
  -- Whatever the further parts start with may follow the first one.
  obtain ⟨row, found⟩ := exists_spelled starts room
  refine ⟨row, fun next other => ?_⟩
  obtain ⟨neutral, rest⟩ := found next other
  exact ⟨used, row, rfl, spelled.before neutral, rest⟩

/-- Where tokens begin a row, so do those in front of them. -/
theorem before {more : List Token} (completes : Completes parts room (front ++ more)) :
    Completes parts room front := by
  -- What was cut off comes back in front of what was to follow.
  obtain ⟨others, spelled⟩ := completes
  exact ⟨more ++ others, fun next other => by simpa using spelled next other⟩

/-- Where rows are among those of other parts, so are their beginnings. -/
theorem widen {others : List Part} (completes : Completes parts room front)
    (included : ∀ row next, Spells parts room row next → Spells others room' row next) :
    Completes others room' front := by
  -- The same tokens make the row complete.
  obtain ⟨more, spelled⟩ := completes
  exact ⟨more, fun next other => included _ _ (spelled next other)⟩

end Completes

end BlockCode.Grammar
