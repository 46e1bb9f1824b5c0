import BlockCode.Compilation
import BlockCode.Proofs.Instruction.Emission
import BlockCode.Proofs.Parse.Overlong
import BlockCode.Proofs.Scope.Offence
import BlockCode.Proofs.Token.Cover

/-! Every source text is compiled or rejected, but for numbers with too many digits: no stage breaks
a promise to another one. -/

namespace BlockCode

namespace Token

/-- The longest token at an offset is a row of digits if it is a number. -/
theorem Longest.digits {source : List Char} {t : Token} {start : Nat}
    (longest : Longest source t start) (number : t.kind = .number) :
    t.lexeme.toList ≠ [] ∧ ∀ c ∈ t.lexeme.toList, c.isDigit = true := by
  -- Neither table has numbers among its kinds.
  have keywords : ∀ entry ∈ Kind.keywords, entry.2 ≠ .number := by decide
  have symbols : ∀ entry ∈ Kind.symbols, entry.2 ≠ .number := by decide
  cases longest with
  | number _ nonempty digits _ _ => exact ⟨nonempty, digits⟩
  | word _ _ _ _ kind =>
    rcases kind with keyword | ⟨name, _⟩
    · exact absurd number (keywords _ keyword)
    · cases name.symm.trans number
  | symbol known _ _ => exact absurd number (symbols _ known)

/-- The tokens of a source text have all that is asked of scanned ones. -/
theorem scanned_scan {source : String} {tokens : List Token} (read : scan source = .ok tokens) :
    Node.Scanned tokens := by
  have cover := cover_scan read
  refine ⟨?_, ?_, ?_⟩
  · obtain ⟨front, last, split, finish, _, _, others⟩ := cover.last
    exact ⟨front, last, split, finish, others⟩
  · intro t member number
    obtain ⟨start, _, _, longest⟩ := cover.stands member
    exact (longest (by simp [number])).digits number
  · -- Tokens at the same place would stand at the same offset.
    rw [List.Nodup, List.pairwise_map]
    refine cover.pairwise.imp_of_mem fun {t u} here there later same => ?_
    obtain ⟨i, _, stands, _⟩ := cover.stands here
    obtain ⟨j, _, stands', _⟩ := cover.stands there
    have offsets := stands.located
    rw [same, stands'.located, Option.some.injEq] at offsets
    have above := (later i j stands stands').1
    omega

end Token

namespace Code

/-- Every one of some places has a slot. -/
def Slotted (resolution : Resolution) (places : List Occurrence) : Prop :=
  ∀ u ∈ places, ∃ slot, resolution[u.id]? = some slot

variable {resolution : Resolution} {n : Node} {blocks : List Int}

/-- An instruction on a slot is emitted where there is one. -/
theorem exists_emitSlot (code : Code) (op : Opcode) (comment : Option String)
    (slotted : ∃ slot, resolution[n.id]? = some slot) :
    ∃ code', emitSlot resolution code op n comment = .ok code' := by
  -- The slot that is found is the operand.
  obtain ⟨slot, found⟩ := slotted
  exact ⟨_, emitSlot_some _ _ _ found⟩

/-- Places side by side have slots if both have. -/
theorem slotted_append {places more : List Occurrence} :
    Slotted resolution (places ++ more) ↔ Slotted resolution places ∧ Slotted resolution more :=
  List.forall_mem_append

end Code

namespace Node

open Code

variable {resolution : Resolution} {n : Node} {blocks : List Int}

/-- There is code for an expression whose variables have slots. -/
theorem IsExpression.exists_code (shape : n.IsExpression)
    (slotted : Slotted resolution (n.occurrences blocks)) (code : Code) :
    ∃ code', ofNode resolution code n = .ok code' := by
  induction shape generalizing code with
  | literal mark value => exact ⟨_, rfl⟩
  | use mark name => exact exists_emitSlot _ _ _ (slotted _ (.head _))
  | binary mark operator known leftShape rightShape leftIh rightIh =>
    obtain ⟨left, right⟩ := slotted_append.mp slotted
    -- There is an opcode for every operator of the grammar.
    refine exists_bind_eq_ok (leftIh left code) fun code =>
      exists_bind_eq_ok (rightIh right code) fun code => ?_
    exact ⟨_, emitOperator_some _ known⟩

/-- There is code for trees in turn if there is for each of them. -/
theorem exists_codeAll {ns : List Node}
    (each : ∀ n ∈ ns, Slotted resolution (n.occurrences blocks) →
      ∀ code, ∃ code', ofNode resolution code n = .ok code')
    (slotted : Slotted resolution (occurrencesAll blocks ns)) (code : Code) :
    ∃ code', ofNodes resolution code ns = .ok code' := by
  -- The slots of the first tree and those of the others are all there.
  induction ns generalizing code with
  | nil => exact ⟨_, rfl⟩
  | cons n ns ih =>
    obtain ⟨first, others⟩ := slotted_append.mp slotted
    exact exists_bind_eq_ok (each n (.head _) first code)
      (ih (fun m member => each m (.tail _ member)) others)

/-- There is code for a statement whose variables have slots. -/
theorem IsStatement.exists_code (shape : n.IsStatement)
    (slotted : Slotted resolution (n.occurrences blocks)) (code : Code) :
    ∃ code', ofNode resolution code n = .ok code' := by
  -- What is emitted around the parts cannot fail.
  induction shape generalizing blocks code with
  | declare mark name => exact exists_emitSlot _ _ _ (slotted _ (.head _))
  | assign mark name valueShape =>
    obtain ⟨target, value⟩ := List.forall_mem_cons.mp slotted
    exact exists_bind_eq_ok (valueShape.exists_code value code)
      fun code => exists_emitSlot _ _ _ target
  | print mark valueShape =>
    exact exists_bind_eq_ok (valueShape.exists_code slotted code) fun code => ⟨_, rfl⟩
  | choose mark conditionShape yesShape yesIh =>
    obtain ⟨condition, yes⟩ := slotted_append.mp slotted
    exact exists_bind_eq_ok (conditionShape.exists_code condition code) fun code =>
      exists_bind_eq_ok (yesIh yes _) fun code => ⟨_, rfl⟩
  | chooseElse mark conditionShape yesShape noShape yesIh noIh =>
    obtain ⟨both, no⟩ := slotted_append.mp slotted
    obtain ⟨condition, yes⟩ := slotted_append.mp both
    exact exists_bind_eq_ok (conditionShape.exists_code condition code) fun code =>
      exists_bind_eq_ok (yesIh yes _) fun code =>
        exists_bind_eq_ok (noIh no _) fun code => ⟨_, rfl⟩
  | loop mark conditionShape bodyShape bodyIh =>
    obtain ⟨condition, body⟩ := slotted_append.mp slotted
    exact exists_bind_eq_ok (conditionShape.exists_code condition code) fun code =>
      exists_bind_eq_ok (bodyIh body _) fun code => ⟨_, rfl⟩
  | block mark bodyShape ih =>
    exact exists_codeAll (fun n member slotted code => ih n member slotted code) slotted code

end Node

/-- There is code for every tree that was parsed and analyzed. -/
theorem exists_generate {tokens : List Token} {tree : Node} {analysis : Analysis}
    (parsed : Node.parse tokens = .ok tree)
    (analyzed : Analysis.empty.program tree = .ok analysis) :
    ∃ code, generate analysis.resolution tree = .ok code := by
  obtain ⟨mark, body, rfl, shape, distinct⟩ := Node.parse_program parsed
  obtain ⟨_, settles⟩ := Analysis.program_resolves shape distinct analyzed
  -- Every place is bound to a declaration and has its slot.
  have slotted : Code.Slotted analysis.resolution (Node.occurrencesAll [] body) := by
    intro u member
    obtain ⟨d, bound⟩ := settles.exists_bound member
    obtain ⟨slot, found, _⟩ := settles.slot_of_bound bound
    exact ⟨slot, found⟩
  have emitted : ∃ code, Code.program analysis.resolution #[] (.program mark body) = .ok code :=
    exists_bind_eq_ok (Node.exists_codeAll (fun n member => (shape n member).exists_code) slotted _)
      fun code => ⟨_, rfl⟩
  obtain ⟨code, emitted⟩ := emitted
  exact ⟨code, by rw [generate, emitted]⟩

/-- How far a source text gets. -/
inductive Passage (source : String) : Prop
  /-- It is not cut into tokens. -/
  | stray (character : String) (position : Option Position)
      (scanned : tokenize source = .error (.rejected ⟨.stray character, position⟩))
  /-- Its tokens are no program. -/
  | refused (tokens : List Token) (rejection : Rejection) (scanned : tokenize source = .ok tokens)
      (parsed : Node.parse tokens = .error (.rejected rejection))
      (syntactic : (∃ expected found, rejection.cause = .unexpected expected found) ∨
        ∃ limit, rejection.cause = .tooDeep limit)
  /-- A number has too many digits. -/
  | unread (tokens : List Token) (digits : Nat) (scanned : tokenize source = .ok tokens)
      (parsed : Node.parse tokens = .error (.numeral (.overlong digits)))
  /-- A name is declared twice or not at all. -/
  | blamed (tokens : List Token) (tree : Node) (known : Analysis) (cause : Cause) (place : Position)
      (scanned : tokenize source = .ok tokens) (parsed : Node.parse tokens = .ok tree)
      (analyzed : Analysis.empty.program tree = .error (.rejected ⟨cause, some place⟩, known))
      (semantic : ∃ name, cause = .redeclared name ∨ cause = .undeclared name)
  | compiled (tokens : List Token) (tree : Node) (analysis : Analysis) (code : Code)
      (scanned : tokenize source = .ok tokens) (parsed : Node.parse tokens = .ok tree)
      (analyzed : Analysis.empty.program tree = .ok analysis)
      (generated : generate analysis.resolution tree = .ok code)

/-- The tokens of a source text are those that are scanned. -/
theorem tokenize_eq_ok {source : String} {tokens : List Token} :
    tokenize source = .ok tokens ↔ Token.scan source = .ok tokens := by
  -- The failure is only wrapped.
  unfold tokenize
  cases Token.scan source <;> simp

/-- A source text is rejected for what the scan rejects it for. -/
theorem tokenize_eq_error {source : String} {rejection : Rejection} :
    tokenize source = .error (.rejected rejection) ↔ Token.scan source = .error rejection := by
  -- As for the tokens: wrapping a rejection loses nothing.
  unfold tokenize
  cases Token.scan source <;> simp

/-- The tokens of a source text have all that is asked of scanned ones. -/
theorem scanned_tokenize {source : String} {tokens : List Token}
    (scanned : tokenize source = .ok tokens) : Node.Scanned tokens :=
  Token.scanned_scan (tokenize_eq_ok.mp scanned)

/-- Every source text gets through or comes to an error of its own. -/
theorem passage (source : String) : Passage source := by
  cases scanned : tokenize source with
  | error failure =>
    cases read : Token.scan source with
    | ok tokens => cases scanned.symm.trans (tokenize_eq_ok.mpr read)
    | error rejection =>
      -- Nothing but a stray character ends the scan before the text does.
      have marked := Token.marked_scan source
      rw [read] at marked
      cases marked with
      | @stray _ _ c place =>
        exact .stray (String.singleton c) (some place) (tokenize_eq_error.mpr read)
  | ok tokens =>
    cases parsed : Node.parse tokens with
    | error failure =>
      -- The parser has refused one of the tokens.
      have closed := (scanned_tokenize scanned).closed
      cases closed.verdict with
      | accepted used t rest tree split ended spelled plain same =>
        rw [split, same rest (split ▸ closed)] at parsed
        cases parsed
      | refused front t rest reason split refuses plain same =>
        have failed := same t rest (.refl _ _) (split ▸ closed)
        rw [← split] at failed
        cases reason with
        | unexpected expected => exact .refused tokens _ scanned failed (.inl ⟨_, _, rfl⟩)
        | tooDeep => exact .refused tokens _ scanned failed (.inr ⟨_, rfl⟩)
        | unread e =>
          obtain ⟨⟨digits, rfl⟩, _⟩ := (scanned_tokenize scanned).of_numeral failed
          exact .unread tokens digits scanned failed
    | ok tree =>
      have judged := Analysis.program_judged parsed
      cases analyzed : Analysis.empty.program tree with
      | error failure =>
        rw [analyzed] at judged
        cases judged with
        | blamed split clean offends symbols =>
          exact .blamed tokens tree _ _ _ scanned parsed analyzed offends.semantic
      | ok analysis =>
        obtain ⟨code, generated⟩ := exists_generate parsed analyzed
        exact .compiled tokens tree analysis code scanned parsed analyzed generated

/-- The parser gets to the first number with too many digits exactly if that is why it fails. -/
theorem overlong_iff (source : String) :
    (∃ tokens k, tokenize source = .ok tokens ∧ Node.FirstOverlong tokens k ∧
      ∀ j ≤ k, ¬ Node.ErrorAt (tokens.map Token.shortened) j) ↔
    ∃ tokens e, tokenize source = .ok tokens ∧ Node.parse tokens = .error (.numeral e) := by
  -- On the tokens of a source text, the fact about scanned tokens applies.
  constructor
  · rintro ⟨tokens, k, scanned, first, passes⟩
    obtain ⟨e, failed⟩ := (scanned_tokenize scanned).numeral_iff.mpr ⟨k, first, passes⟩
    exact ⟨tokens, e, scanned, failed⟩
  · rintro ⟨tokens, e, scanned, failed⟩
    obtain ⟨k, first, passes⟩ := (scanned_tokenize scanned).numeral_iff.mp ⟨e, failed⟩
    exact ⟨tokens, k, scanned, first, passes⟩

namespace Compilation

/-- What is left of a source text that is rejected: nothing if it is not cut into tokens, its tokens
if they are no program, and its tree as well if a name in it is wrong. -/
def Keeps (source : String) (made : Compilation) : Cause → Prop
  | .stray _ => made.tokens = [] ∧ made.tree = none ∧ made.resolution = ∅ ∧ made.symbols = #[] ∧
      made.code = #[]
  -- A tree is kept only if all of it was read.
  | .unexpected .. | .tooDeep _ => tokenize source = .ok made.tokens ∧ made.tree = none ∧
      made.resolution = ∅ ∧ made.symbols = #[] ∧ made.code = #[]
  -- The symbols found before the wrong name are kept, and so are not spoken of.
  | .redeclared _ | .undeclared _ => tokenize source = .ok made.tokens ∧
      (∃ tree, Node.parse made.tokens = .ok tree ∧ made.tree = some tree) ∧
      made.resolution = ∅ ∧ made.code = #[]
  -- No source text is rejected for another cause.
  | .other _ => False

/-- A source text is compiled or rejected, as the plain way to its code would do it, unless a number
has too many digits and the parser gets to the first such number. No stage breaks a promise to
another one. -/
theorem ofSource_total (source : String) :
    ((∃ failure, ofSource source = .error failure) ↔
      ∃ tokens k, tokenize source = .ok tokens ∧ Node.FirstOverlong tokens k ∧
        ∀ j ≤ k, ¬ Node.ErrorAt (tokens.map Token.shortened) j) ∧
    (∀ failure, ofSource source = .error failure →
      compile source = .error failure ∧ ∃ digits, failure = .numeral (.overlong digits)) ∧
    (∀ made, ofSource source = .ok made →
      made.diagnostics = [] ∧ compile source = .ok made.code ∨
      ∃ rejection, made.diagnostics = [rejection.diagnostic] ∧
        compile source = .error (.rejected rejection) ∧ made.Keeps source rejection.cause) ∧
    ∀ defect, compile source ≠ .error (.defect defect) := by
  -- The parser is asked for its reason to fail before the cases are split.
  rw [overlong_iff]
  cases passage source with
  | stray character position scanned =>
    have plain : compile source = .error (.rejected ⟨.stray character, position⟩) := by
      rw [compile, scanned]
      rfl
    simp [ofSource, reject, scanned, plain, Keeps]
  | refused tokens rejection scanned parsed syntactic =>
    have plain : compile source = .error (.rejected rejection) := by
      rw [compile, scanned]
      simp [Bind.bind, Except.bind, parsed]
    rcases syntactic with ⟨expected, found, cause⟩ | ⟨limit, cause⟩ <;>
      simp [ofSource, reject, scanned, parsed, plain, Keeps, cause]
  | unread tokens digits scanned parsed =>
    have plain : compile source = .error (.numeral (.overlong digits)) := by
      rw [compile, scanned]
      simp [Bind.bind, Except.bind, parsed]
    simp [ofSource, reject, scanned, parsed, plain]
  | blamed tokens tree known cause place scanned parsed analyzed semantic =>
    have plain : compile source = .error (.rejected ⟨cause, some place⟩) := by
      rw [compile, scanned]
      simp [Bind.bind, Except.bind, parsed, resolve, analyzed]
    obtain ⟨name, rfl | rfl⟩ := semantic <;>
      simp [ofSource, reject, scanned, parsed, analyzed, plain, Keeps]
  | compiled tokens tree analysis code scanned parsed analyzed generated =>
    have plain : compile source = .ok code := by
      rw [compile, scanned]
      simp [Bind.bind, Except.bind, parsed, resolve, analyzed, generated]
    simp [ofSource, scanned, parsed, analyzed, generated, plain]

end Compilation

end BlockCode
