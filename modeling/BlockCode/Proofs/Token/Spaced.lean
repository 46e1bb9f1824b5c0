import BlockCode.Proofs.Token.Lexeme

/-! Lexemes with blanks and comments between them are scanned as those lexemes, whatever stands
between them. -/

namespace BlockCode.Token

/-- Text without a token in it: blanks, and comments with the breaks that end them. -/
inductive Filler : List Char → Prop where
  | none : Filler []
  | blank {c : Char} {rest : List Char} (blank : c ∈ [' ', '\t', '\r', '\n'])
      (further : Filler rest) : Filler (c :: rest)
  | comment {body rest : List Char} (inside : '\n' ∉ body) (further : Filler rest) :
      Filler ('/' :: '/' :: body ++ '\n' :: rest)

/-- A lexeme with the filler behind it. A comment does not follow a slash, which would be taken for
its first one. -/
structure Piece where
  kind : Kind
  lexeme : List Char
  behind : List Char
  spelled : Lexeme kind lexeme
  filler : Filler behind
  apart : lexeme = ['/'] → behind.head? ≠ some '/'

namespace Piece

/-- The characters of a piece. -/
def text (piece : Piece) : List Char := piece.lexeme ++ piece.behind

/-- The kind and the lexeme of a piece. -/
def content (piece : Piece) : Kind × String := (piece.kind, String.ofList piece.lexeme)

end Piece

/-- The kind and the lexeme of a token. -/
def content (t : Token) : Kind × String := (t.kind, t.lexeme)

variable {here : Position} {kind : Kind} {text behind more : List Char}

/-- Filler is passed over. -/
theorem scanFrom_filler (filler : Filler text) (here : Position) (more : List Char) :
    ∃ there, scanFrom here (text ++ more) = scanFrom there more := by
  induction filler generalizing here with
  | none => exact ⟨here, rfl⟩
  | @blank c rest blank further ih =>
    -- A break leads to the next line, the other blanks stay on theirs.
    by_cases breaks : c = '\n'
    · obtain ⟨there, passed⟩ := ih here.nextLine
      refine ⟨there, ?_⟩
      rw [List.cons_append, scanFrom, if_pos breaks, passed]
    · have gap : isGap c = true := by simpa [isGap, breaks, or_assoc] using blank
      obtain ⟨there, passed⟩ := ih (here.right 1)
      refine ⟨there, ?_⟩
      rw [List.cons_append, scanFrom, if_neg breaks, if_pos gap, passed]
  | @comment body rest inside further ih =>
    -- The break that ends the comment is the first one behind the two slashes.
    obtain ⟨there, passed⟩ := ih (here.right (('/' :: body).length + 1)).nextLine
    refine ⟨there, ?_⟩
    have split : '/' :: '/' :: body ++ '\n' :: rest ++ more =
        '/' :: ('/' :: body ++ '\n' :: (rest ++ more)) := by simp
    have inline : '\n' ∉ '/' :: body := by simpa using inside
    rw [split, scanFrom_comment (by simp [startsComment]) inline, passed]

/-- Filler ends any lexeme before it. -/
theorem ends_filler (filler : Filler behind) (nonempty : behind ≠ []) (text more : List Char) :
    Ends text (behind ++ more) := by
  -- It starts with a blank or with a slash, and neither continues anything.
  intro d follows
  have first : d ∈ ['/', ' ', '\t', '\r', '\n'] := by
    cases filler with
    | none => exact absurd rfl nonempty
    | blank blank further =>
      obtain rfl := Option.some.inj follows
      exact .tail _ blank
    | comment inside further =>
      obtain rfl := Option.some.inj follows
      exact .head _
  have table : (['/', ' ', '\t', '\r', '\n'].all fun d => !isWordPart d && d != '=') = true := by
    decide
  obtain ⟨part, sign⟩ : isWordPart d = false ∧ d ≠ '=' := by
    simpa using List.all_eq_true.mp table d first
  exact continues_other part sign text

/-- A lexeme that ends where it should is the first token, and the others follow. -/
theorem scanFrom_spelled (lexeme : Lexeme kind text) (ends : Ends text more)
    (code : text = ['/'] → more.head? ≠ some '/') :
    scanFrom here (text ++ more) =
      (scanFrom (here.right text.length) more).map (⟨kind, String.ofList text, here⟩ :: ·) := by
  obtain ⟨c, rest, rfl⟩ := lexeme.exists_cons
  have first := lexeme.not_blank (.head rest)
  simp only [List.mem_cons, List.not_mem_nil, or_false, not_or] at first
  obtain ⟨space, tab, carriage, breaks⟩ := first
  -- Two slashes in a row would be one lexeme with another slash behind it.
  have plain : startsComment c (rest ++ more) = false := by
    by_cases slash : c = '/'
    · have single := lexeme.eq_slash (slash ▸ .head rest)
      have alone := code single
      obtain rfl : rest = [] := (List.cons.inj single).2
      simp [startsComment, alone]
    · simp [startsComment, slash]
  apply scanFrom_lexeme breaks (by simp [isGap, space, tab, carriage]) plain
  exact firstLexeme?_lexeme lexeme ends rfl

/-- Pieces in a row are scanned as their lexemes, if there is filler between them. -/
theorem scanFrom_pieces {pieces : List Piece}
    (parted : ∀ piece ∈ pieces.dropLast, piece.behind ≠ []) (here : Position) :
    ∃ tokens, scanFrom here (pieces.flatMap Piece.text) = .ok tokens ∧
      tokens.map content = pieces.map Piece.content ++ [(.finish, "")] := by
  induction pieces generalizing here with
  | nil =>
    rw [List.flatMap_nil, scanFrom]
    exact ⟨_, rfl, rfl⟩
  | cons piece pieces ih =>
    -- Nothing follows the lexeme, or else filler does.
    have follows : piece.behind = [] → pieces = [] := by
      intro empty
      cases pieces with
      | nil => rfl
      | cons next pieces => exact absurd empty (parted piece (.head _))
    have ends : Ends piece.lexeme (piece.behind ++ pieces.flatMap Piece.text) := by
      by_cases empty : piece.behind = []
      · simp [Ends, empty, follows empty]
      · exact ends_filler piece.filler empty _ _
    have code : piece.lexeme = ['/'] →
        (piece.behind ++ pieces.flatMap Piece.text).head? ≠ some '/' := by
      intro slash
      by_cases empty : piece.behind = []
      · simp [empty, follows empty]
      · rw [List.head?_append_of_ne_nil _ empty]
        exact piece.apart slash
    -- The other pieces are scanned from where the filler ends.
    obtain ⟨there, passed⟩ := scanFrom_filler piece.filler (here.right piece.lexeme.length)
      (pieces.flatMap Piece.text)
    have others : ∀ other ∈ pieces.dropLast, other.behind ≠ [] := by
      intro other member
      apply parted other
      cases pieces with
      | nil => cases member
      | cons next pieces => exact .tail _ member
    obtain ⟨tokens, scanned, same⟩ := ih others there
    refine ⟨⟨piece.kind, String.ofList piece.lexeme, here⟩ :: tokens, ?_, ?_⟩
    · rw [List.flatMap_cons, Piece.text, List.append_assoc,
        scanFrom_spelled piece.spelled ends code, passed, scanned]
      rfl
    · rw [List.map_cons, same]
      rfl

/-- Filler and pieces in a row are scanned as the lexemes. -/
theorem scan_pieces {before : List Char} {pieces : List Piece} (filler : Filler before)
    (parted : ∀ piece ∈ pieces.dropLast, piece.behind ≠ []) :
    ∃ tokens, scan (String.ofList (before ++ pieces.flatMap Piece.text)) = .ok tokens ∧
      tokens.map content = pieces.map Piece.content ++ [(.finish, "")] := by
  -- The filler in front is passed over, and then come the pieces.
  obtain ⟨there, passed⟩ := scanFrom_filler filler .start (pieces.flatMap Piece.text)
  rw [scan, String.toList_ofList, passed]
  exact scanFrom_pieces parted there

/-- Lexemes with one blank between them, and some filler behind the last, are pieces in a row. -/
theorem exists_pieces {last : List Char} (filler : Filler last) (apart : last.head? ≠ some '/')
    (t : Token) {others : List Token}
    (spelled : ∀ u ∈ t :: others, Lexeme u.kind u.lexeme.toList) :
    ∃ pieces : List Piece, pieces.map Piece.content = (t :: others).map content ∧
      (∀ piece ∈ pieces.dropLast, piece.behind ≠ []) ∧
      pieces.flatMap Piece.text =
        (" ".intercalate ((t :: others).map (·.lexeme))).toList ++ last := by
  induction others generalizing t with
  | nil =>
    -- The only lexeme has the filler behind it.
    refine ⟨[⟨t.kind, t.lexeme.toList, last, spelled t (.head _), filler, fun _ => apart⟩], ?_, ?_,
      ?_⟩
    · simp [Piece.content, content]
    · simp
    · simp [Piece.text]
  | cons u others ih =>
    obtain ⟨pieces, same, parted, joined⟩ := ih u fun v member => spelled v (.tail _ member)
    -- There is a next lexeme, so the first one has the blank behind it.
    have blank : Filler [' '] := .blank (.head _) .none
    refine ⟨⟨t.kind, t.lexeme.toList, [' '], spelled t (.head _), blank, by simp⟩ :: pieces, ?_, ?_,
      ?_⟩
    · rw [List.map_cons, same]
      simp [Piece.content, content]
    · have next : pieces ≠ [] := by
        rintro rfl
        simp at same
      rw [List.dropLast_cons_of_ne_nil next, List.forall_mem_cons]
      exact ⟨by simp, parted⟩
    · rw [List.flatMap_cons, joined]
      simp [Piece.text, String.intercalate_cons_cons]

/-- Scanning undoes any spelling out of lexemes. Blanks and comments may stand before, between and
behind them, if there is something between any two and no comment directly behind a slash: what is
scanned are these lexemes with their kinds, and the end mark. So the lexemes of a scanned source,
with or without that of the end mark, can be joined by single blanks and scanned again. -/
theorem scan_spaced :
    (∀ before (pieces : List Piece), Filler before →
      (∀ piece ∈ pieces.dropLast, piece.behind ≠ []) →
      ∃ tokens, scan (String.ofList (before ++ pieces.flatMap Piece.text)) = .ok tokens ∧
        tokens.map content = pieces.map Piece.content ++ [(.finish, "")]) ∧
    ∀ source tokens joined, scan source = .ok tokens →
      joined = tokens ∨ joined = tokens.dropLast →
      ∃ tokens', scan (" ".intercalate (joined.map (·.lexeme))) = .ok tokens' ∧
        tokens'.map content = tokens.map content := by
  refine ⟨fun before pieces => scan_pieces, ?_⟩
  intro source tokens joined scanned kept
  have cover := cover_scan scanned
  obtain ⟨front, mark, rfl, finish, empty, _, others⟩ := cover.last
  have spelled : ∀ t ∈ front, Lexeme t.kind t.lexeme.toList := by
    intro t member
    obtain ⟨start, _, _, longest⟩ := cover.stands (List.mem_append_left _ member)
    exact (longest (others t member)).isLexeme
  have last : content mark = (.finish, "") := by rw [content, finish, empty]
  cases front with
  | nil =>
    -- There is no lexeme, and nothing is joined.
    have nothing : " ".intercalate (joined.map (·.lexeme)) = "" := by
      rcases kept with rfl | rfl <;> simp [empty]
    refine ⟨[⟨.finish, "", .start⟩], ?_, ?_⟩
    · rw [nothing, scan, String.toList_empty, scanFrom]
    · rw [List.nil_append, List.map_singleton, List.map_singleton, last]
      rfl
  | cons t front =>
    -- The lexeme of the end mark is empty, so it only adds a blank behind the others.
    obtain ⟨behind, filler, apart, text⟩ : ∃ behind, Filler behind ∧ behind.head? ≠ some '/' ∧
        (" ".intercalate (joined.map (·.lexeme))).toList =
          (" ".intercalate ((t :: front).map (·.lexeme))).toList ++ behind := by
      rcases kept with rfl | rfl
      · refine ⟨[' '], .blank (.head _) .none, by simp, ?_⟩
        rw [List.map_append, String.intercalate_append_of_ne_nil (by simp) (by simp)]
        simp [empty]
      · exact ⟨[], .none, by simp, by rw [List.dropLast_concat, List.append_nil]⟩
    obtain ⟨pieces, same, parted, shown⟩ := exists_pieces filler apart t spelled
    obtain ⟨tokens', scanned', content'⟩ := scan_pieces .none parted
    refine ⟨tokens', ?_, ?_⟩
    · rw [List.nil_append, shown, ← text, String.ofList_toList] at scanned'
      exact scanned'
    · rw [content', same]
      simp [last]

/-- A slash, a sign and an equals sign with comments around them. -/
def slashPieces : List Piece :=
  -- A blank keeps the slash from becoming part of the comment behind it.
  [⟨.slash, ['/'], [' ', '/', '/', 'd', '\n'], .symbol (by decide),
      .blank (by decide) (@Filler.comment ['d'] [] (by decide) .none), by decide⟩,
    ⟨.less, ['<'], ['/', '/', '\n'], .symbol (by decide),
      @Filler.comment [] [] (by decide) .none, by decide⟩,
    ⟨.assign, ['='], [], .symbol (by decide), .none, by decide⟩]

/-- The slash is not taken for a comment, and the two signs are not taken for one. -/
theorem scan_spaced_slash : ∃ tokens, scan "\t//x\n/ //d\n<//\n=" = .ok tokens ∧
    tokens.map content = [(.slash, "/"), (.less, "<"), (.assign, "="), (.finish, "")] ∧
    ∃ tokens', scan "/ < =" = .ok tokens' ∧ tokens'.map content = tokens.map content := by
  have filler : Filler ['\t', '/', '/', 'x', '\n'] :=
    .blank (by decide) (@Filler.comment ['x'] [] (by decide) .none)
  obtain ⟨spelled, respelled⟩ := scan_spaced
  obtain ⟨tokens, scanned, same⟩ := spelled _ slashPieces filler (by simp [slashPieces])
  -- Without the end mark, the lexemes are joined by two blanks.
  obtain ⟨tokens', scanned', same'⟩ := respelled _ _ _ scanned (.inr rfl)
  have lexemes : tokens.dropLast.map (·.lexeme) = ["/", "<", "="] := by
    have all := congrArg (fun contents => (contents.map Prod.snd).dropLast) same
    simpa [content, Piece.content, slashPieces, Function.comp_def, List.map_dropLast] using all
  rw [lexemes] at scanned'
  exact ⟨tokens, scanned, same, tokens', scanned', same'⟩

end BlockCode.Token
