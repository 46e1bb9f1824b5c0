import BlockCode.Proofs.Command
import BlockCode.Proofs.Service
import BlockCode.Proofs.Token.Stray

/-! Line ends of two characters are as good as line ends of one. Where every carriage return stands
before a line feed, leaving it out changes no token and no place, and so nothing that is made of the
source text. -/

namespace BlockCode

namespace Text

variable {c d : Char} {cs rest front : List Char}

/-- Every carriage return of a text has a line feed right behind it. -/
def Paired : List Char → Prop
  | [] => True
  -- The last character has nothing behind it, so it may be no carriage return.
  | c :: rest => (c = '\r' → rest.head? = some '\n') ∧ Paired rest

/-- Pairs are looked for along the text. -/
instance decidablePaired : (cs : List Char) → Decidable (Paired cs)
  | [] => inferInstanceAs (Decidable True)
  | c :: rest =>
    have := decidablePaired rest
    inferInstanceAs (Decidable ((c = '\r' → rest.head? = some '\n') ∧ Paired rest))

/-- The text with a line feed alone in the place of each carriage return and line feed. -/
def shortenLineEnds : List Char → List Char
  | '\r' :: '\n' :: rest => '\n' :: shortenLineEnds rest
  -- A carriage return on its own is kept.
  | c :: rest => c :: shortenLineEnds rest
  | [] => []

/-- The text without its carriage returns. -/
def unreturned (cs : List Char) : List Char := cs.filter (· != '\r')

/-- Any other character stays. -/
theorem unreturned_cons (other : c ≠ '\r') (rest : List Char) :
    unreturned (c :: rest) = c :: unreturned rest :=
  List.filter_cons_of_pos (by simpa using other)

/-- A carriage return goes. -/
theorem unreturned_return (rest : List Char) : unreturned ('\r' :: rest) = unreturned rest :=
  rfl

/-- Texts side by side lose their carriage returns one after the other. -/
theorem unreturned_append (front cs : List Char) :
    unreturned (front ++ cs) = unreturned front ++ unreturned cs :=
  List.filter_append ..

/-- Without carriage returns there is nothing to leave out. -/
theorem unreturned_plain (plain : '\r' ∉ cs) : unreturned cs = cs := by
  -- Leaving out drops nothing, since every character is another one.
  refine List.filter_eq_self.mpr fun c member => ?_
  have other : c ≠ '\r' := fun same => plain (same ▸ member)
  simpa using other

namespace Paired

/-- The line feed of a carriage return in front is there. -/
theorem exists_feed (paired : Paired ('\r' :: rest)) : ∃ more, rest = '\n' :: more :=
  List.head?_eq_some_iff.mp (paired.1 rfl)

/-- The text behind some text is paired as the whole is. -/
theorem right (paired : Paired (front ++ cs)) : Paired cs := by
  -- The pairs in front are dropped one character at a time.
  induction front with
  | nil => exact paired
  | cons c front ih => exact ih paired.2

/-- Where there is no line feed, there is no carriage return. -/
theorem plain (paired : Paired cs) (inline : '\n' ∉ cs) : '\r' ∉ cs := by
  intro member
  -- The line feed would stand behind the carriage return.
  obtain ⟨front, behind, rfl⟩ := List.append_of_mem member
  obtain ⟨more, rfl⟩ := paired.right.exists_feed
  simp at inline

/-- A character that does not stand before a pair's line feed is no carriage return. -/
theorem ne_return (paired : Paired (c :: rest))
    (single : ∀ more, c = '\r' → rest = '\n' :: more → False) : c ≠ '\r' := by
  -- Being paired, it would stand before a line feed.
  rintro rfl
  obtain ⟨more, split⟩ := paired.exists_feed
  exact single more rfl split

end Paired

/-- Only carriage returns go when line ends are shortened. -/
theorem shortenLineEnds_eq (paired : Paired cs) : shortenLineEnds cs = unreturned cs := by
  fun_induction shortenLineEnds cs with
  | case1 rest ih =>
    -- The line feed stays behind.
    rw [unreturned_return, unreturned_cons (by decide), ih paired.2.2]
  | case2 c rest single ih =>
    rw [unreturned_cons (paired.ne_return single), ih paired.2]
  | case3 => rfl

/-- Bringing all line ends to line feeds leaves out the carriage returns as well. -/
theorem joinLineEnds_eq (paired : Paired cs) (seen : List Char) :
    joinLineEnds false seen cs = seen.reverse ++ unreturned cs := by
  -- A pair is passed in two steps, and the line feed is written at the first of them.
  fun_induction shortenLineEnds cs generalizing seen with
  | case1 rest ih =>
    have passed : joinLineEnds false seen ('\r' :: '\n' :: rest) =
        joinLineEnds false ('\n' :: seen) rest := rfl
    rw [passed, ih paired.2.2, unreturned_return, unreturned_cons (by decide)]
    simp
  | case2 c rest single ih =>
    have other := paired.ne_return single
    rw [joinLineEnds, if_neg other, if_neg (by simp), ih paired.2, unreturned_cons other]
    simp
  | case3 => simp [joinLineEnds, unreturned]

/-- For a paired text, bringing all line ends to line feeds is shortening them. -/
theorem unifyLineEnds_eq (paired : Paired cs) : unifyLineEnds cs = shortenLineEnds cs := by
  -- No carriage return is left to be joined or replaced once the pairs are shortened.
  rw [unifyLineEnds, joinLineEnds_eq paired, shortenLineEnds_eq paired]
  simp

/-- The first character without carriage returns is the first character, or the line feed behind a
carriage return. -/
theorem head?_unreturned (paired : Paired cs) (first : (unreturned cs).head? = some d) :
    cs.head? = some d ∨ cs.head? = some '\r' ∧ d = '\n' := by
  -- A carriage return in front is left out, and what shows then is its line feed.
  cases cs with
  | nil => cases first
  | cons c rest =>
    by_cases returns : c = '\r'
    · subst returns
      obtain ⟨more, rfl⟩ := paired.exists_feed
      rw [unreturned_return, unreturned_cons (by decide)] at first
      exact .inr ⟨rfl, (Option.some.inj first).symm⟩
    · rw [unreturned_cons returns] at first
      exact .inl first

/-- The line behind the next line feed loses the same carriage returns. -/
theorem dropWhile_unreturned (cs : List Char) :
    (unreturned cs).dropWhile (· != '\n') = unreturned (cs.dropWhile (· != '\n')) := by
  -- A carriage return is passed over on both sides, and a line feed stops both.
  induction cs with
  | nil => rfl
  | cons c rest ih =>
    by_cases returns : c = '\r'
    · subst returns
      rw [unreturned_return, ih, List.dropWhile_cons_of_pos (by decide)]
    · rw [unreturned_cons returns]
      by_cases feed : c = '\n'
      · subst feed
        rw [List.dropWhile_cons_of_neg (by decide), List.dropWhile_cons_of_neg (by decide),
          unreturned_cons (by decide)]
      · have passed : (c != '\n') = true := by simpa using feed
        rw [List.dropWhile_cons_of_pos (p := (· != '\n')) passed,
          List.dropWhile_cons_of_pos (p := (· != '\n')) passed, ih]

end Text

namespace Token

open Text

variable {here : Position} {c d : Char} {cs rest text more : List Char} {kind : Kind}

/-- A carriage return is a gap. -/
theorem ne_return (plain : ¬ isGap c = true) : c ≠ '\r' := by
  -- It is one of the characters that a gap consists of.
  rintro rfl
  exact plain rfl

/-- A line feed leads to the next line, from any column. -/
theorem scanFrom_feed (here : Position) (columns : Nat) (cs : List Char) :
    scanFrom (here.right columns) ('\n' :: cs) = scanFrom here ('\n' :: cs) := by
  -- The column is given up where a new line begins.
  rw [scanFrom, if_pos rfl, scanFrom, if_pos rfl]
  rfl

/-- Whether a comment starts does not depend on carriage returns. -/
theorem startsComment_unreturned (paired : Paired rest) (c : Char) :
    startsComment c (unreturned rest) = startsComment c rest := by
  -- A second slash is no line end.
  have same : (unreturned rest).head? = some '/' ↔ rest.head? = some '/' := by
    constructor
    · intro second
      rcases head?_unreturned paired second with first | ⟨_, feed⟩
      · exact first
      · cases feed
    · intro second
      obtain ⟨more, rfl⟩ := List.head?_eq_some_iff.mp second
      rfl
  have beq : ((unreturned rest).head? == some '/') = (rest.head? == some '/') := by
    rw [Bool.eq_iff_iff, beq_iff_eq, beq_iff_eq, same]
  rw [startsComment, startsComment, beq]

/-- A lexeme ends before a line feed alone as it does before a carriage return. -/
theorem Ends.unreturned (ends : Ends text more) (paired : Paired more) :
    Ends text (unreturned more) := by
  -- Either the same character follows, or a line feed, which continues nothing.
  intro d first
  rcases head?_unreturned paired first with same | ⟨_, rfl⟩
  · exact ends d same
  · exact continues_other (by decide) (by decide) text

/-- The same lexeme is cut off when the carriage returns behind it are left out. -/
theorem firstLexeme?_unreturned (found : firstLexeme? c rest = some (kind, text, more))
    (paired : Paired (c :: rest)) :
    firstLexeme? c (unreturned rest) = some (kind, text, unreturned more) := by
  obtain ⟨lexeme, ends, split⟩ := lexeme_firstLexeme? found
  have behind : Paired more := (split ▸ paired).right
  -- There is no carriage return in the lexeme itself.
  have plain : '\r' ∉ text := fun member => lexeme.not_blank member (by decide)
  have first : c ≠ '\r' := by
    rintro rfl
    obtain ⟨d, others, rfl⟩ := lexeme.exists_cons
    cases split
    exact plain (.head _)
  refine firstLexeme?_lexeme lexeme (ends.unreturned behind) ?_
  rw [← unreturned_cons first, split, unreturned_append, unreturned_plain plain]

/-- A stray character is stray as well without the carriage returns behind it. -/
theorem firstLexeme?_unreturned_none (stray : firstLexeme? c rest = none) (paired : Paired rest) :
    firstLexeme? c (unreturned rest) = none := by
  rw [firstLexeme?_eq_none_iff] at stray ⊢
  obtain ⟨part, single, pair⟩ := stray
  refine ⟨part, single, ?_⟩
  intro d first
  rcases head?_unreturned paired first with same | ⟨_, rfl⟩
  · exact pair d same
  · -- A line feed is no second sign.
    cases found : Kind.ofSymbol? [c, '\n'] with
    | none => rfl
    | some kind => cases second_sign found

/-- Behind a comment both texts go on alike: at the line feed that ends it, or at the end of both,
where no carriage return has been left out. -/
theorem scanFrom_behind_comment (paired : Paired (c :: rest)) :
    scanFrom (here.right (((unreturned rest).takeWhile (· != '\n')).length + 1))
        (unreturned (rest.dropWhile (· != '\n'))) =
      scanFrom (here.right ((rest.takeWhile (· != '\n')).length + 1))
        (unreturned (rest.dropWhile (· != '\n'))) := by
  cases behind : rest.dropWhile (· != '\n') with
  | nil =>
    have inline : '\n' ∉ rest := by
      intro member
      simpa using List.dropWhile_eq_nil_iff.mp behind _ member
    rw [unreturned_plain (paired.2.plain inline)]
  | cons d more =>
    -- What ends the comment is the line feed, which forgets the column.
    obtain rfl : d = '\n' := by
      have stops : (rest.dropWhile (· != '\n')).head? = some d := by rw [behind]; rfl
      simpa using head?_dropWhile stops
    rw [unreturned_cons (by decide), scanFrom_feed, scanFrom_feed]

/-- A text is scanned alike without its carriage returns: the two scans are at the same place
whenever a token starts. -/
theorem scanFrom_unreturned (paired : Paired cs) :
    scanFrom here (unreturned cs) = scanFrom here cs := by
  -- The induction follows the scan of the text that has the carriage returns.
  fun_induction scanFrom here cs with
  | case1 here => rw [unreturned, List.filter_nil, scanFrom]
  | case2 here rest ih => rw [unreturned_cons (by decide), scanFrom, if_pos rfl, ih paired.2]
  | case3 here c rest breaks gap ih =>
    by_cases returns : c = '\r'
    · -- The two scans meet again behind the line feed.
      subst returns
      obtain ⟨more, rfl⟩ := paired.exists_feed
      rw [← ih paired.2, unreturned_return, unreturned_cons (by decide), scanFrom_feed]
    · rw [unreturned_cons returns, scanFrom, if_neg breaks, if_pos gap, ih paired.2]
  | case4 here c rest breaks gap comment text =>
    rename_i ih
    have other := ne_return gap
    have starts : startsComment c (unreturned rest) = true := by
      rw [startsComment_unreturned paired.2, comment]
    have behind : Paired (rest.dropWhile (· != '\n')) := by
      have parts := paired.2
      rw [← List.takeWhile_append_dropWhile (p := (· != '\n')) (l := rest)] at parts
      exact parts.right
    rw [unreturned_cons other, scanFrom, if_neg breaks, if_neg gap, if_pos starts]
    simp only [dropWhile_unreturned]
    rw [scanFrom_behind_comment paired, ih behind]
  | case5 here c rest breaks gap comment stray =>
    have other := ne_return gap
    have code : startsComment c (unreturned rest) ≠ true := by
      rwa [startsComment_unreturned paired.2]
    rw [unreturned_cons other, scanFrom, if_neg breaks, if_neg gap, if_neg code]
    split
    · rfl
    · rename_i found
      cases (firstLexeme?_unreturned_none stray paired.2).symm.trans found
  | case6 here c rest breaks gap comment kind text more found ih =>
    have other := ne_return gap
    have code : startsComment c (unreturned rest) = false := by
      rw [startsComment_unreturned paired.2]
      simpa using comment
    have behind : Paired more := by
      obtain ⟨_, _, split⟩ := lexeme_firstLexeme? found
      exact (split ▸ paired).right
    rw [unreturned_cons other, scanFrom_lexeme breaks (by simpa using gap) code
      (firstLexeme?_unreturned found paired), ih behind]
    cases scanFrom (here.right text.length) more <;> rfl

end Token

/-- A source text with a line feed alone in the place of each carriage return and line feed. -/
def withLineFeeds (source : String) : String :=
  String.ofList (Text.shortenLineEnds source.toList)

/-- Shortening the line ends of a paired source text changes none of its tokens. -/
theorem scan_withLineFeeds {source : String} (paired : Text.Paired source.toList) :
    Token.scan (withLineFeeds source) = Token.scan source := by
  -- Scanning passes over carriage returns, which are all that the shorter text has lost.
  rw [Token.scan, Token.scan, withLineFeeds, String.toList_ofList, Text.shortenLineEnds_eq paired,
    Token.scanFrom_unreturned paired]

/-- A file with paired line ends is read as the text with line feeds. -/
theorem sourceText_paired {source : String} {bytes : List UInt8}
    (paired : Text.Paired source.toList) (decoded : Text.decodeUtf8 bytes = .ok source.toList) :
    sourceText bytes = .ok (withLineFeeds source) := by
  rw [sourceText, decoded, withLineFeeds, ← Text.unifyLineEnds_eq paired]

/-- The command tells all about a compilation: its diagnostic if there is one, and otherwise the
parts that are wanted, unless a number has too many digits. -/
structure Command.Tells (told : Except CommandFailure Outcome) (s : Settings) (source : String)
    (c : Compilation) : Prop where
  wrong : ∀ d ∈ c.diagnostics, told = .ok ⟨1, "", d.line ++ "\n"⟩
  broke : ∀ e, told = .error e → Breaks s source e
  shown : c.diagnostics = [] → ∀ outcome, told = .ok outcome →
    ∃ parts, List.Forall₂ (Part.Shows c s.maxSteps) s.shown parts ∧
      outcome = ⟨0, Command.unlines ([""].intercalate parts), ""⟩

/-- What is printed tells all about what was compiled. -/
theorem Command.tells_print {s : Settings} {source : String} {c : Compilation}
    (positive : 0 < s.maxSteps) (made : Compilation.ofSource source = .ok c) :
    Command.Tells (Command.print s source) s source c := by
  -- What is reported, what goes wrong and what is shown are the three ways that printing ends.
  refine ⟨fun d reported => (print_diagnosed made reported).1,
    fun e => breaks_of_print positive, ?_⟩
  intro right outcome printed
  have none : ∀ c' d, Compilation.ofSource source = .ok c' → d ∉ c'.diagnostics := by
    intro c' d made'
    cases made.symm.trans made'
    simp [right]
  obtain ⟨c', _, parts, made', _, shown, same⟩ := shows_of_print printed none
  cases made.symm.trans made'
  exact ⟨parts, shown, same⟩

/-- The command and the service show the same: nothing of a source text that cannot be compiled, and
otherwise one compilation and its run under one cap. -/
structure BothShow (source : String) (s : Settings) (told : Except CommandFailure Outcome)
    (compiled ran : Response) : Prop where
  failed : ∀ failure, Compilation.ofSource source = .error failure →
    told = .error (.failure failure) ∧ compiled.status = 500 ∧ ran.status = 500
  made : ∀ c, Compilation.ofSource source = .ok c →
    Command.Tells told s source c ∧ compiled.Tells c ∧ ran.TellsRun c s.maxSteps

/-- A source text is shown in the same way by the command and by the service. -/
theorem bothShow_print {s : Settings} (positive : 0 < s.maxSteps) (source : String) :
    BothShow source s (Command.print s source) (Service.compile source)
      (Service.run ⟨source, s.maxSteps⟩) := by
  -- Command and service start from the same compilation, and each tells it in its own way.
  refine ⟨fun failure failed => ⟨?_, Service.status_of_failure failed⟩, fun c made => ?_⟩
  · rw [Command.print, failed]
  · exact ⟨Command.tells_print positive made, Service.tells_compile made,
      Service.tellsRun_run made⟩

/-- A file with the source text, arguments that ask for it, and two requests with the source text.
The requests ask for the cap of the arguments. -/
structure Sent (source : String) (asks : List Ask) (path : String) (arguments : List String)
    (folder : Folder) (compileBody runBody : List UInt8) : Prop where
  spells : Spells asks arguments
  single : Ask.inputs asks = [path]
  positive : 0 < Ask.lastCap asks
  zeroless : '\x00' ∉ path.toList
  file : ∃ bytes, folder.read (.ofText path) = .ok bytes ∧ Text.decodeUtf8 bytes = .ok source.toList
  compiles : Body.compileRequest compileBody = .ok source
  runs : Body.runRequest runBody = .ok ⟨source, Ask.lastCap asks⟩

/-- Line ends of two characters cannot be told from line ends of one. Where every carriage return of
a source text stands before a line feed, the text with the line feeds alone has the same tokens at
the same places, the end mark included, or the same stray character at the same place. So it comes
to the same tokens, tree, variables, code and diagnostics, and to the same runs. The command reads a
file as the second text and the service gets the first one, and both show the same compilation and
the same run. -/
theorem lineEnds_interchangeable {source : String} (paired : Text.Paired source.toList) :
    Token.scan (withLineFeeds source) = Token.scan source ∧
    Compilation.ofSource (withLineFeeds source) = Compilation.ofSource source ∧
    compile (withLineFeeds source) = compile source ∧
    (∀ cap, runSource (withLineFeeds source) cap = runSource source cap) ∧
    Service.compile (withLineFeeds source) = Service.compile source ∧
    (∀ cap, Service.run ⟨withLineFeeds source, cap⟩ = Service.run ⟨source, cap⟩) ∧
    (∀ bytes, Text.decodeUtf8 bytes = .ok source.toList →
      sourceText bytes = .ok (withLineFeeds source)) ∧
    ∀ asks path arguments folder compileBody runBody,
      Sent source asks path arguments folder compileBody runBody →
      BothShow source (.asked path asks) (Command.run arguments folder)
        (Service.handle ⟨"POST", "/api/compile", compileBody⟩)
        (Service.handle ⟨"POST", "/api/run", runBody⟩) := by
  -- All that is made of a source text is made of its tokens.
  have scanned := scan_withLineFeeds paired
  have made : Compilation.ofSource (withLineFeeds source) = Compilation.ofSource source := by
    rw [Compilation.ofSource, Compilation.ofSource, tokenize, tokenize, scanned]
  have compiled : compile (withLineFeeds source) = compile source := by
    rw [compile, compile, tokenize, tokenize, scanned]
  refine ⟨scanned, made, compiled, fun cap => ?_, ?_, fun cap => ?_,
    fun bytes => sourceText_paired paired, ?_⟩
  · rw [runSource, runSource, compiled]
  · -- A source text that is a text has no lone surrogate to be quoted.
    simp only [Service.compile, Spelling.shown, made, Service.answer_text]
  · simp only [Service.run, Spelling.shown, made, Service.answer_text]
  · intro asks path arguments folder compileBody runBody sent
    obtain ⟨bytes, read, decoded⟩ := sent.file
    -- The command prints the text that it has read as it would print the other one.
    have printed : Command.run arguments folder = Command.print (.asked path asks) source := by
      rw [Command.run_spelled sent.spells sent.single sent.positive sent.zeroless read
        (sourceText_paired paired decoded), Command.print, Command.print, made]
    rw [printed, Service.handle_compile sent.compiles, Service.handle_run sent.runs]
    exact bothShow_print sent.positive source

/-- A source text in which a carriage return stands behind an operator that could be longer, ends a
comment, and stands before a stray character. -/
def pairedSource : String := "n =\r\n= 2; // !\r\n\r\n  !\r\n"

/-- A program over two lines. -/
def pairedProgram : String := "print(7 -\r\n 9);\r\n"

/-- Arguments that ask for the tokens and the output of a file. -/
def pairedArguments : List String := ["--tokens", "demo.mc", "--output"]

/-- What these arguments ask for. -/
def pairedAsks : List Ask := [.part .tokens, .input "demo.mc", .part .output]

/-- The body of a request with an escaped source text. -/
def sourceBody (escaped : String) : List UInt8 :=
  Command.demoBytes ("\x7b\"source\": \"" ++ escaped ++ "\"\x7d")

/-- A file and requests with one source text are sent if the requests are understood. -/
theorem sent_demo {source : String} {body : List UInt8}
    (decoded : Text.decodeUtf8 (Command.demoBytes source) = .ok source.toList)
    (compiles : (Body.compileRequest body).toOption = some (.text source))
    (runs : (Body.runRequest body).toOption = some ⟨.text source, 100000⟩) :
    Sent source pairedAsks "demo.mc" pairedArguments (Command.demoFolder source) body body where
  -- The options are spelled out in full, with the file between them.
  spells := .part ⟨by decide, by decide⟩ <| .input (by decide) <| .part ⟨by decide, by decide⟩ .nil
  single := rfl
  positive := by decide
  zeroless := by decide
  file := ⟨_, Command.read_demoFolder source, decoded⟩
  compiles := toOption_eq_some.mp compiles
  runs := toOption_eq_some.mp runs

/-- The body of a request with the source text above. -/
def pairedBody : List UInt8 := sourceBody "n =\\r\\n= 2; // !\\r\\n\\r\\n  !\\r\\n"

/-- The body of a request with the program above. -/
def programBody : List UInt8 := sourceBody "print(7 -\\r\\n 9);\\r\\n"

/-- The stray character is found at the same place with and without the carriage returns, by the
command and by the service. A program over two lines has the same tokens for both of them, and both
tell what it prints. -/
theorem lineEnds_interchangeable_paired :
    Token.scan "n =\n= 2; // !\n\n  !\n" = .error ⟨.stray "!", some ⟨4, 3⟩⟩ ∧
    sourceText (Command.demoBytes pairedSource) = .ok "n =\n= 2; // !\n\n  !\n" ∧
    Command.run pairedArguments (Command.demoFolder pairedSource) =
      .ok ⟨1, "", "Error: Unexpected character '!' at line 4, col 3\n"⟩ ∧
    (Service.handle ⟨"POST", "/api/compile", pairedBody⟩).Holds "diagnostics" (.array [
      .object [("severity", .text "ERROR"), ("message", .text "Unexpected character '!'"),
        ("hint", .text "There is no logical-not operator; only '!=' is valid."),
        ("line", .int 4), ("column", .int 3)]]) ∧
    Command.run pairedArguments (Command.demoFolder pairedProgram) = .ok ⟨0,
      "1:1 PRINT 'print'\n1:6 LPAREN '('\n1:7 NUMBER '7'\n1:9 MINUS '-'\n2:2 NUMBER '9'\n" ++
      "2:3 RPAREN ')'\n2:4 SEMI ';'\n\n-2\n", ""⟩ ∧
    (Service.handle ⟨"POST", "/api/compile", programBody⟩).Holds "tokens" (.array [
      .object [("kind", .text "PRINT"), ("lexeme", .text "print"), ("line", .int 1),
        ("column", .int 1)],
      .object [("kind", .text "LPAREN"), ("lexeme", .text "("), ("line", .int 1),
        ("column", .int 6)],
      .object [("kind", .text "NUMBER"), ("lexeme", .text "7"), ("line", .int 1),
        ("column", .int 7)],
      .object [("kind", .text "MINUS"), ("lexeme", .text "-"), ("line", .int 1),
        ("column", .int 9)],
      .object [("kind", .text "NUMBER"), ("lexeme", .text "9"), ("line", .int 2),
        ("column", .int 2)],
      .object [("kind", .text "RPAREN"), ("lexeme", .text ")"), ("line", .int 2),
        ("column", .int 3)],
      .object [("kind", .text "SEMI"), ("lexeme", .text ";"), ("line", .int 2),
        ("column", .int 4)]]) ∧
    (Service.handle ⟨"POST", "/api/run", programBody⟩).Holds "run" (.object [
      ("output", .texts ["-2"]), ("steps", .nat 5), ("limit_exceeded", .bool false)]) := by
  have short : withLineFeeds pairedSource = "n =\n= 2; // !\n\n  !\n" := by decide +kernel
  have scanned : Token.scan pairedSource = .error ⟨.stray "!", some ⟨4, 3⟩⟩ := by decide +kernel
  have decoded : Text.decodeUtf8 (Command.demoBytes pairedSource) = .ok pairedSource.toList := by
    decide +kernel
  have rejected : (Compilation.ofSource pairedSource).map (·.diagnostics) = .ok [⟨.error,
      "Unexpected character '!'", some ⟨4, 3⟩,
      some "There is no logical-not operator; only '!=' is valid."⟩] := by decide +kernel
  have paired : Text.Paired pairedSource.toList := by decide +kernel
  obtain ⟨same, _, _, _, _, _, files, both⟩ := lineEnds_interchangeable paired
  rw [short, scanned] at same
  have read := files _ decoded
  rw [short] at read
  have sent : Sent pairedSource pairedAsks "demo.mc" pairedArguments _ pairedBody pairedBody :=
    sent_demo decoded (by decide +kernel) (by decide +kernel)
  obtain ⟨c, made, diagnosed⟩ := map_eq_ok.mp rejected
  obtain ⟨told, tells, _⟩ := (both _ _ _ _ _ _ sent).made c made
  have line := told.wrong _ (diagnosed ▸ List.mem_singleton_self _)
  have reported := tells.diagnostics
  rw [diagnosed] at reported
  refine ⟨same, read, line, reported, ?_⟩
  -- The program over two lines.
  have sent' : Sent pairedProgram pairedAsks "demo.mc" pairedArguments _ programBody programBody :=
    sent_demo (by decide +kernel) (by decide +kernel) (by decide +kernel)
  have paired' : Text.Paired pairedProgram.toList := by decide +kernel
  obtain ⟨_, _, _, _, _, _, _, both'⟩ := lineEnds_interchangeable paired'
  have shown : (Compilation.ofSource pairedProgram).map (fun c => (c.tokens, c.diagnostics)) =
      .ok ([⟨.kwPrint, "print", ⟨1, 1⟩⟩, ⟨.openParen, "(", ⟨1, 6⟩⟩, ⟨.number, "7", ⟨1, 7⟩⟩,
        ⟨.minus, "-", ⟨1, 9⟩⟩, ⟨.number, "9", ⟨2, 2⟩⟩, ⟨.closeParen, ")", ⟨2, 3⟩⟩,
        ⟨.semicolon, ";", ⟨2, 4⟩⟩, ⟨.finish, "", ⟨3, 1⟩⟩], []) := by decide +kernel
  obtain ⟨c, made, parts⟩ := map_eq_ok.mp shown
  obtain ⟨scanned, right⟩ := Prod.mk.inj parts
  have ends : (Compilation.ofSource pairedProgram).map (fun c =>
      (Machine.run? c.code 100000).map fun r =>
        (r.final.output.toList, r.final.steps, r.limitExceeded, r.fault?)) =
      .ok (some (["-2"], 5, false, none)) := by decide +kernel
  rw [made, Except.map, Except.ok.injEq, Option.map_eq_some_iff] at ends
  simp only [Prod.mk.injEq] at ends
  obtain ⟨r, ran, printed, steps, limit, sound⟩ := ends
  obtain ⟨_, tells, tellsRun⟩ := (both' _ _ _ _ _ _ sent').made c made
  have tokens := tells.tokens
  rw [scanned] at tokens
  have told := (tellsRun.ended right r ran sound).2
  rw [printed, steps, limit] at told
  exact ⟨by decide +kernel, tokens, told⟩

end BlockCode
