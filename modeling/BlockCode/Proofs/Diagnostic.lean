import BlockCode.Proofs.Totality

/-! Diagnostics point at the text that they quote: the position of each leads to the character, the
token or the end of the source text that it speaks of. -/

namespace BlockCode

open Grammar Occurrence

namespace Grammar

/-- No operator is a name. -/
theorem Level.kind_ne_name {level : Level} {kind : Kind} (joins : level.isOperator kind = true) :
    kind ≠ .name := by
  -- No level lists names among its operators.
  rintro rfl
  cases level <;> cases joins

namespace Derivation

variable {category : Category}

/-- The names among the tokens that a derivation covers. -/
def names (d : Derivation category) : List Token :=
  d.tokens.filter (·.kind = .name)

/-- The places of the numbered tree have the names of the derivation, in their order. -/
def Naming : {category : Category} → Derivation category → Prop
  | .expression _, d | .statement, d => ∀ blocks k,
    ((d.build k).1.occurrences blocks).map (·.name) = d.names
  -- The names of the left operand come first.
  | .tail _, d => ∀ blocks left k, ((d.build left k).1.occurrences blocks).map (·.name) =
    (left.occurrences blocks).map (·.name) ++ d.names
  | .body, d => ∀ blocks k,
    (Node.occurrencesAll blocks (d.build k).1).map (·.name) = d.names

/-- Every name of a derivation is that of a place. -/
theorem naming (d : Derivation category) : d.Naming := by
  -- Each node stands for a name exactly if its alternative has one of its own.
  induction d with
  | number numeral =>
    intro blocks k
    simp [names, tokens, build, Node.occurrences]
  | use name =>
    intro blocks k
    simp [names, tokens, build, Node.occurrences]
  | group opening inside closing ih =>
    intro blocks k
    rw [build, ih blocks k]
    simp [names, tokens]
  | chain composite first others firstIh othersIh =>
    intro blocks k
    rw [build, othersIh blocks, firstIh blocks]
    simp [names, tokens]
  | done =>
    intro blocks left k
    simp [names, tokens, build]
  | more operator right others rightIh othersIh =>
    intro blocks left k
    have other := Level.kind_ne_name operator.property
    rw [build, othersIh blocks, Node.occurrences, List.map_append, rightIh blocks]
    simp [names, tokens, other]
  | declare keyword name semicolon =>
    intro blocks k
    simp [names, tokens, build, Node.occurrences]
  | assign name equals value semicolon ih =>
    intro blocks k
    rw [build, Node.occurrences, List.map_cons, ih blocks]
    simp [names, tokens]
  | print keyword opening value closing semicolon ih =>
    intro blocks k
    rw [build, Node.occurrences, ih blocks]
    simp [names, tokens]
  | choose keyword opening condition closing yes conditionIh yesIh =>
    intro blocks k
    rw [build, Node.occurrences, List.map_append, conditionIh blocks, yesIh blocks]
    simp [names, tokens]
  | chooseElse keyword opening condition closing yes otherwise no conditionIh yesIh noIh =>
    intro blocks k
    rw [build, Node.occurrences, List.map_append, List.map_append, conditionIh blocks,
      yesIh blocks, noIh blocks]
    simp [names, tokens]
  | loop keyword opening condition closing repeated conditionIh repeatedIh =>
    intro blocks k
    rw [build, Node.occurrences, List.map_append, conditionIh blocks, repeatedIh blocks]
    simp [names, tokens]
  | block opening inside closing ih =>
    intro blocks k
    rw [build, Node.occurrences, ih]
    simp [names, tokens]
  | nothing =>
    intro blocks k
    simp [names, tokens, build, Node.occurrencesAll]
  | also first others firstIh othersIh =>
    intro blocks k
    rw [build, Node.occurrencesAll, List.map_append, firstIh blocks, othersIh blocks]
    simp [names, tokens]

end Derivation

end Grammar

/-- The places of a tree have names among the tokens, in their order. -/
theorem Node.names_sublist {tokens : List Token} {tree : Node} (parsed : parse tokens = .ok tree) :
    ((tree.occurrences []).map (·.name)).Sublist (tokens.filter (·.kind = .name)) := by
  -- The tree is built from a derivation, whose names are a part of its tokens.
  obtain ⟨d, first, reading, _, rfl⟩ := parse_sound parsed
  have named : _ = d.names := d.naming [] 1
  rw [occurrences, named, Derivation.names, reading.covers]
  exact (List.takeWhile_sublist _).filter _

/-- A token of a source text is all there is at an offset: it stands there and cannot be made
longer. -/
structure Token.Whole (source : String) (t : Token) (offset : Nat) : Prop where
  scanned : ∃ tokens, tokenize source = .ok tokens ∧ t ∈ tokens
  stands : StandsAt source.toList t offset
  longest : Longest source.toList t offset

/-- What a source text holds at an offset blamed for a cause, and how a message quotes it. -/
inductive Quotes (source : String) (offset : Nat) : Cause → String → Prop where
  | character {c : Char} (there : source.toList[offset]? = some c) :
      Quotes source offset (.stray (String.singleton c))
        ("Unexpected character '" ++ String.singleton c ++ "'")
  | token {t : Token} {expected : String} (whole : t.Whole source offset) :
      Quotes source offset (.unexpected expected ("'" ++ t.lexeme ++ "'"))
        ("Expected " ++ expected ++ ", found " ++ ("'" ++ t.lexeme ++ "'"))
  | finish {expected : String} (behind : offset = source.toList.length) :
      Quotes source offset (.unexpected expected "end of input")
        ("Expected " ++ expected ++ ", found " ++ "end of input")
  | opening {t : Token} (whole : t.Whole source offset)
      (opens : t.lexeme ∈ ["if", "while", "\x7b", "("]) :
      Quotes source offset (.tooDeep maxNesting) "Program nested too deeply"
  /-- The name of a declaration, behind another one of the same name in the same block. -/
  | redeclared {tokens : List Token} {tree : Node} {first again : Occurrence} {earlier : Nat}
      (scanned : tokenize source = .ok tokens) (parsed : Node.parse tokens = .ok tree)
      (declared : [first, again].Sublist (declarations (tree.occurrences [])))
      (named : first.name.lexeme = again.name.lexeme) (here : first.blocks = again.blocks)
      (before : earlier < offset) (known : first.name.Whole source earlier)
      (whole : again.name.Whole source offset) (kind : again.name.kind = .name) :
      Quotes source offset (.redeclared again.name.lexeme)
        ("Redeclaration of '" ++ again.name.lexeme ++ "'")
  /-- The name of a variable that is used. -/
  | undeclared {tokens : List Token} {tree : Node} {u : Occurrence}
      (scanned : tokenize source = .ok tokens) (parsed : Node.parse tokens = .ok tree)
      (used : u ∈ tree.occurrences []) (refers : u.declares = false)
      (whole : u.name.Whole source offset) (kind : u.name.kind = .name) :
      Quotes source offset (.undeclared u.name.lexeme)
        ("Use of undeclared variable '" ++ u.name.lexeme ++ "'")

/-- A rejection has a position, and what its message quotes stands there. -/
def Rejection.Located (source : String) (rejection : Rejection) : Prop :=
  -- The offset is the one that the position leads to, and the quote is looked for there.
  ∃ place offset, rejection.position = some place ∧ place.PointsAt source.toList offset ∧
    Quotes source offset rejection.cause rejection.cause.message

namespace Token

variable {source : String} {tokens : List Token} {t : Token}

/-- The position of a token points at the offset where it stands. -/
theorem exists_pointsAt (scanned : tokenize source = .ok tokens) (member : t ∈ tokens) :
    ∃ offset, t.position.PointsAt source.toList offset ∧ StandsAt source.toList t offset ∧
      (t.kind ≠ .finish → Longest source.toList t offset) := by
  -- The position was reached by going through the text before the token.
  have read := tokenize_eq_ok.mp scanned
  have marked := marked_scan source
  rw [read] at marked
  cases marked with
  | tokens each =>
    obtain ⟨before, rest, split, reached⟩ := each t member
    obtain ⟨offset, _, stands, longest⟩ := (cover_scan read).stands member
    have located := reached.offset?_eq rest
    rw [← split, stands.located, Option.some.injEq] at located
    subst located
    have points := reached.pointsAt rest
    rw [← split] at points
    exact ⟨before.length, points, stands, longest⟩

/-- A token other than the end mark is found where its position points. -/
theorem exists_whole (scanned : tokenize source = .ok tokens) (member : t ∈ tokens)
    (word : t.kind ≠ .finish) :
    ∃ offset, t.position.PointsAt source.toList offset ∧ t.Whole source offset := by
  -- A token other than the mark is the longest one at its offset.
  obtain ⟨offset, points, stands, longest⟩ := exists_pointsAt scanned member
  exact ⟨offset, points, ⟨tokens, scanned, member⟩, stands, longest word⟩

/-- The position of the end mark points at the end of the source text. -/
theorem pointsAt_end (scanned : tokenize source = .ok tokens) (member : t ∈ tokens)
    (finish : t.kind = .finish) : t.position.PointsAt source.toList source.toList.length := by
  obtain ⟨offset, points, stands, _⟩ := exists_pointsAt scanned member
  obtain ⟨front, last, split, _, _, atEnd, words⟩ := (cover_scan (tokenize_eq_ok.mp scanned)).last
  -- There is only one end mark.
  obtain rfl : t = last := by
    rw [split] at member
    rcases List.mem_append.mp member with inside | only
    · exact absurd finish (words t inside)
    · exact List.mem_singleton.mp only
  rwa [stands.unique atEnd] at points

/-- A token that opens a level is one of the four with a spelling of their own. -/
theorem Longest.opening {text : List Char} {offset : Nat} (longest : Longest text t offset)
    (opens : t.kind ∈ Node.openings) : t.lexeme ∈ ["if", "while", "\x7b", "("] := by
  -- Two of them are keywords and two are symbols.
  have table : ∀ entry ∈ Kind.keywords ++ Kind.symbols, entry.2 ∈ Node.openings →
      String.ofList entry.1 ∈ ["if", "while", "\x7b", "("] := by decide
  have spelled (known : (t.lexeme.toList, t.kind) ∈ Kind.keywords ++ Kind.symbols) :
      t.lexeme ∈ ["if", "while", "\x7b", "("] := by
    simpa using table _ known opens
  cases longest with
  | number kind _ _ _ _ => simp [kind, Node.openings] at opens
  | word _ _ _ _ kind =>
    rcases kind with keyword | ⟨name, _⟩
    · exact spelled (List.mem_append_left _ keyword)
    · simp [name, Node.openings] at opens
  | symbol known _ _ => exact spelled (List.mem_append_right _ known)

end Token

namespace Rejection

variable {source : String} {tokens : List Token} {tree : Node} {rejection : Rejection}

/-- A source text that is not cut into tokens is rejected for the character at the place. -/
theorem located_of_scan (failed : Token.scan source = .error rejection) :
    rejection.Located source := by
  -- The place is reached by going through the text before the character.
  have marked := Token.marked_scan source
  rw [failed] at marked
  cases marked with
  | @stray before rest c place split reached =>
    have points := reached.pointsAt (c :: rest)
    rw [← split] at points
    refine ⟨place, before.length, rfl, points, .character ?_⟩
    simp [split]

/-- Tokens that are no program are rejected for one of them. -/
theorem located_of_parse (scanned : tokenize source = .ok tokens)
    (failed : Node.parse tokens = .error (.rejected rejection)) : rejection.Located source := by
  -- The parser has refused a token, and the failure takes its place from there.
  have closed := (scanned_tokenize scanned).closed
  cases closed.verdict with
  | accepted used t rest tree split ended spelled plain same =>
    rw [split, same rest (split ▸ closed)] at failed
    cases failed
  | refused front t rest reason split refuses plain same =>
    have member : t ∈ tokens := by simp [split]
    rw [split, same t rest (.refl _ _) (split ▸ closed), Except.error.injEq] at failed
    cases refuses with
    | unread number unreadable completes => cases failed
    | unexpected expected completes =>
      cases failed
      -- The end mark has no text of its own and is named in other words.
      by_cases finish : t.kind = .finish
      · refine ⟨_, _, rfl, Token.pointsAt_end scanned member finish, ?_⟩
        rw [Token.found, if_pos finish]
        exact .finish rfl
      · obtain ⟨offset, points, whole⟩ := Token.exists_whole scanned member finish
        refine ⟨_, offset, rfl, points, ?_⟩
        rw [Token.found, if_neg finish]
        exact .token whole
    | tooDeep opens completes further =>
      cases failed
      have word : t.kind ≠ .finish := by
        intro finish
        simp [finish, Node.openings] at opens
      obtain ⟨offset, points, whole⟩ := Token.exists_whole scanned member word
      exact ⟨_, offset, rfl, points, .opening whole (whole.longest.opening opens)⟩

/-- A tree whose variables are not resolved is rejected for one of the names in it. -/
theorem located_of_program {known : Analysis} (scanned : tokenize source = .ok tokens)
    (parsed : Node.parse tokens = .ok tree)
    (failed : Analysis.empty.program tree = .error (.rejected rejection, known)) :
    rejection.Located source := by
  -- Every place is named by one of the tokens.
  have named {u : Occurrence} (member : u ∈ tree.occurrences []) :
      u.name ∈ tokens ∧ u.name.kind = .name := by
    simpa using (Node.names_sublist parsed).mem (List.mem_map_of_mem member)
  have standing {u : Occurrence} (member : u ∈ tree.occurrences []) :
      ∃ offset, u.name.position.PointsAt source.toList offset ∧ u.name.Whole source offset :=
    Token.exists_whole scanned (named member).1 (by simp [(named member).2])
  have judged := Analysis.program_judged parsed
  rw [failed] at judged
  cases judged with
  | @blamed front back u cause _ split clean offends symbols =>
    have member : u ∈ tree.occurrences [] :=
      (Node.visits_perm [] tree).mem_iff.mp (by simp [split])
    obtain ⟨offset, points, whole⟩ := standing member
    refine ⟨_, offset, rfl, points, ?_⟩
    cases offends with
    | undeclared refers unknown =>
      exact .undeclared scanned parsed member refers whole (named member).2
    | @redeclared d declares earlier same here =>
      -- The two declarations follow each other in the source text, as their names do.
      have declared : [d, u].Sublist (declarations (tree.occurrences [])) := by
        rw [← Node.declarations_visits, split, declarations_append,
          declarations_cons_declares _ declares]
        refine (List.singleton_sublist.mpr ?_).append ((List.nil_sublist _).cons_cons u)
        simpa using earlier
      have listed : [d, u].Sublist (tree.occurrences []) := declared.trans List.filter_sublist
      have spelled : [d.name, u.name].Sublist tokens :=
        ((listed.map Occurrence.name).trans (Node.names_sublist parsed)).trans List.filter_sublist
      obtain ⟨earlier, _, known⟩ := standing (listed.mem (.head _))
      have apart := (Token.cover_scan (tokenize_eq_ok.mp scanned)).pairwise.sublist spelled
      have before := (List.rel_of_pairwise_cons apart (.head _) _ _ known.stands whole.stands).1
      exact .redeclared scanned parsed declared same here before known whole (named member).2

end Rejection

namespace Compilation

variable {source : String} {c made : Compilation} {d : Diagnostic}

/-- What is reported at the end of a compilation is a rejection. -/
theorem of_reject {failure : Failure} (kept : reject c failure = .ok made)
    (reported : d ∈ made.diagnostics) :
    ∃ rejection, failure = .rejected rejection ∧ d = rejection.diagnostic := by
  -- Of all failures, only a rejection is kept as a diagnostic.
  cases failure with
  | rejected rejection =>
    cases kept
    exact ⟨rejection, rfl, List.mem_singleton.mp reported⟩
  | numeral | defect | unterminated => cases kept

/-- A diagnostic of a source text is about the rejection that ends its compilation. -/
theorem exists_rejection (compiled : ofSource source = .ok made) (reported : d ∈ made.diagnostics) :
    ∃ rejection, d = rejection.diagnostic ∧ compile source = .error (.rejected rejection) := by
  -- Both ways take the same stages and end at the first that fails.
  unfold ofSource at compiled
  split at compiled
  · rename_i failure scanned
    obtain ⟨rejection, rfl, same⟩ := of_reject compiled reported
    exact ⟨rejection, same, by simp [compile, scanned, Bind.bind, Except.bind]⟩
  · rename_i tokens scanned
    split at compiled
    · rename_i failure parsed
      obtain ⟨rejection, rfl, same⟩ := of_reject compiled reported
      exact ⟨rejection, same, by simp [compile, scanned, parsed, Bind.bind, Except.bind]⟩
    · rename_i tree parsed
      split at compiled
      · rename_i failure known analyzed
        obtain ⟨rejection, rfl, same⟩ := of_reject compiled reported
        exact ⟨rejection, same, by
          simp [compile, scanned, parsed, resolve, analyzed, Bind.bind, Except.bind]⟩
      · rename_i analysis analyzed
        obtain ⟨code, generated⟩ := exists_generate parsed analyzed
        rw [generated] at compiled
        cases compiled
        cases reported

end Compilation

/-- What ends the compilation of a source text is located in it. -/
theorem Rejection.located {source : String} {rejection : Rejection}
    (failed : compile source = .error (.rejected rejection)) : rejection.Located source := by
  -- The first stage that does not succeed is the one that rejects.
  cases scanned : tokenize source with
  | error failure =>
    obtain rfl : failure = .rejected rejection := by
      simpa [compile, scanned, Bind.bind, Except.bind] using failed
    exact located_of_scan (tokenize_eq_error.mp scanned)
  | ok tokens =>
    cases parsed : Node.parse tokens with
    | error failure =>
      obtain rfl : failure = .rejected rejection := by
        simpa [compile, scanned, parsed, Bind.bind, Except.bind] using failed
      exact located_of_parse scanned parsed
    | ok tree =>
      cases analyzed : Analysis.empty.program tree with
      | error e =>
        obtain ⟨failure, known⟩ := e
        obtain rfl : failure = .rejected rejection := by
          simpa [compile, scanned, parsed, resolve, analyzed, Bind.bind, Except.bind] using failed
        exact located_of_program scanned parsed analyzed
      | ok analysis =>
        obtain ⟨code, generated⟩ := exists_generate parsed analyzed
        simp [compile, scanned, parsed, resolve, analyzed, generated, Bind.bind,
          Except.bind] at failed

/-- Every diagnostic points at the text that it quotes. It has a position, which points at an offset
of the source text or at its end. The message quotes what stands there: the stray character, the
whole token that was not expected, or the whole name that is declared again or not at all; where
levels are nested too deep, there stands the token that opens one too many. The line that is shown
has the message and the position in it, and the rejection that ends the compilation has the same
position and the cause that the message is about. -/
theorem diagnostic_located {source : String} {made : Compilation} {d : Diagnostic}
    (compiled : Compilation.ofSource source = .ok made) (reported : d ∈ made.diagnostics) :
    ∃ cause place offset, d.severity = .error ∧ d.position = some place ∧
      place.PointsAt source.toList offset ∧ Quotes source offset cause d.message ∧
      d.line = "Error: " ++ (d.message ++ " at " ++
        ("line " ++ toString place.line ++ ", col " ++ toString place.column)) ∧
      compile source = .error (.rejected ⟨cause, some place⟩) := by
  -- The diagnostic comes from one rejection, and where that points is known.
  obtain ⟨⟨cause, position⟩, rfl, failed⟩ := Compilation.exists_rejection compiled reported
  obtain ⟨place, offset, rfl, points, quotes⟩ := Rejection.located failed
  exact ⟨cause, place, offset, rfl, rfl, points, quotes, rfl, failed⟩

/-- A source text that declares a name in an inner block, and then again where it was declared
first. -/
def repeatedSource : String := "int a;\n\x7b int a; \x7d\nint b; int a;"

/-- Of the three declarations of a name, the last one is reported, with the place of its name. -/
theorem diagnostic_located_repeated : ∃ made, Compilation.ofSource repeatedSource = .ok made ∧
    made.diagnostics = [⟨.error, "Redeclaration of 'a'", some ⟨3, 12⟩,
      some "Names must be unique within one block; declare it in a nested block to shadow it."⟩] ∧
    Quotes repeatedSource 29 (.redeclared "a") "Redeclaration of 'a'" ∧
    made.diagnostics.map (·.line) = ["Error: Redeclaration of 'a' at line 3, col 12"] := by
  have lines : (Compilation.ofSource repeatedSource).toOption.map (·.diagnostics) =
      some [⟨.error, "Redeclaration of 'a'", some ⟨3, 12⟩, some
        "Names must be unique within one block; declare it in a nested block to shadow it."⟩] := by
    decide +kernel
  have cause : Except.casesOn (motive := fun _ => Option Failure) (compile repeatedSource) some
      (fun _ => none) = some (.rejected ⟨.redeclared "a", some ⟨3, 12⟩⟩) := by decide +kernel
  cases compiled : Compilation.ofSource repeatedSource with
  | error failure => simp [compiled, Except.toOption] at lines
  | ok made =>
    simp only [compiled, Except.toOption, Option.map_some, Option.some.injEq] at lines
    obtain ⟨why, place, offset, _, position, points, quotes, line, failed⟩ :=
      diagnostic_located compiled (by rw [lines]; exact .head _)
    obtain ⟨rfl, _⟩ : .redeclared "a" = why ∧ _ := by simpa [failed, eq_comm] using cause
    obtain rfl : _ = place := Option.some.inj position
    -- The position leads to one offset only.
    have leads : Position.offset? repeatedSource.toList ⟨3, 12⟩ = some 29 := by decide +kernel
    obtain rfl : 29 = offset := Option.some.inj (leads.symm.trans points.offset?_eq)
    refine ⟨made, rfl, lines, quotes, ?_⟩
    rw [lines, List.map_singleton, line]
    decide +kernel

end BlockCode
