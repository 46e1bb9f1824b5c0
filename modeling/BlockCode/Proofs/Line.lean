import BlockCode.Command
import BlockCode.Proofs.Diagnostic
import BlockCode.Proofs.Listing
import BlockCode.Proofs.Machine.Truncation
import BlockCode.Proofs.Outline
import BlockCode.Proofs.Parse.Expected
import BlockCode.Proofs.Token.Stray

/-! The lines that the command prints. Everything that is shown of a source text as a line is one
line: it is not empty, and there is no line feed in it. -/

namespace BlockCode

namespace Text

/-- A text within one line: there is no line feed in it. -/
def Inline (text : String) : Prop := '\n' ∉ text.toList

instance (text : String) : Decidable (Inline text) :=
  inferInstanceAs (Decidable ('\n' ∉ text.toList))

/-- A line is a text within one line that is not empty. -/
structure IsLine (text : String) : Prop where
  inline : Inline text
  nonempty : text ≠ ""

instance (text : String) : Decidable (IsLine text) :=
  decidable_of_iff (Inline text ∧ text ≠ "")
    ⟨fun both => ⟨both.1, both.2⟩, fun line => ⟨line.inline, line.nonempty⟩⟩

variable {front back : String}

/-- Texts are within one line together if each of them is. -/
theorem inline_append : Inline (front ++ back) ↔ Inline front ∧ Inline back := by
  simp [Inline]

/-- A line stays one with more behind it. -/
theorem IsLine.append (line : IsLine front) (inline : Inline back) : IsLine (front ++ back) :=
  ⟨inline_append.mpr ⟨line.inline, inline⟩, by simp [line.nonempty]⟩

/-- A line stays one with more in front of it. -/
theorem IsLine.prepend (line : IsLine back) (inline : Inline front) : IsLine (front ++ back) :=
  ⟨inline_append.mpr ⟨inline, line.inline⟩, by simp [line.nonempty]⟩

/-- Blanks are within one line. -/
theorem inline_blanks (k : Nat) : Inline (String.ofList (List.replicate k ' ')) := by
  -- A row of one character has no other one in it.
  rw [Inline, String.toList_ofList]
  intro member
  cases List.eq_of_mem_replicate member

/-- A text within one line that starts with something other than a blank. -/
structure Opened (text : String) : Prop where
  inline : Inline text
  first : ∃ c ∈ text.toList.head?, isBlank c = false

/-- A text still starts in the same way with more behind it. -/
theorem Opened.append (opened : Opened front) (inline : Inline back) : Opened (front ++ back) := by
  -- The first character is still the first.
  obtain ⟨c, first, solid⟩ := opened.first
  refine ⟨inline_append.mpr ⟨opened.inline, inline⟩, c, ?_, solid⟩
  rw [String.toList_append, List.head?_append, Option.mem_def.mp first]
  rfl

/-- A text is widened with blanks. -/
theorem Opened.padRight (opened : Opened front) (width : Nat) : Opened (padRight width front) :=
  opened.append (inline_blanks _)

/-- Without the blanks at its end such a text is a line. -/
theorem Opened.isLine_trimEnd (opened : Opened front) : IsLine (trimEnd front) := by
  obtain ⟨c, first, solid⟩ := opened.first
  refine ⟨?_, ?_⟩
  · -- Nothing is added by dropping blanks.
    rw [Inline, trimEnd, String.toList_ofList, dropEnd, List.mem_reverse]
    intro member
    exact opened.inline (List.mem_reverse.mp ((List.dropWhile_sublist _).mem member))
  · -- The dropping does not go beyond the first character.
    intro none
    have dropped : dropEnd isBlank front.toList = [] := by simpa [trimEnd] using none
    rw [dropEnd, List.reverse_eq_nil_iff, List.dropWhile_eq_nil_iff] at dropped
    have blank := dropped c (List.mem_reverse.mpr (List.mem_of_mem_head? first))
    rw [solid] at blank
    cases blank

end Text

open Text

namespace Numeral

/-- The text of a number is a line. -/
theorem isLine_toString (n : Int) : IsLine (toString n) := by
  -- There are digits and at most a sign in it, and it is not empty.
  refine ⟨fun member => ?_, fun none => ?_⟩
  · rcases sign_or_digit member with sign | digit
    · cases sign
    · cases digit
  · obtain ⟨c, others, shown, _⟩ := exists_first n
    rw [none] at shown
    cases shown

/-- The text of a number starts with something other than a blank. -/
theorem opened_toString (n : Int) : Opened (toString n) := by
  -- The first character is the sign or a digit.
  obtain ⟨c, others, shown, first⟩ := exists_first n
  refine ⟨(isLine_toString n).inline, c, by rw [shown]; rfl, ?_⟩
  rcases first with rfl | digit
  · rfl
  · exact isBlank_digit digit

/-- A number that is written is written as its text. -/
theorem eq_of_write {n : Int} {text : String} (written : write n = .ok text) :
    text = toString n := by
  -- Writing fails or comes to the text, with nothing between.
  unfold write at written
  split at written
  · exact (Except.ok.inj written).symm
  · cases written

end Numeral

namespace Token

variable {source : String} {tokens : List Token} {t : Token}

/-- The lexeme of a longest token is within one line. -/
theorem Longest.inline {text : List Char} {offset : Nat} (longest : Longest text t offset) :
    Inline t.lexeme := by
  -- A line feed is a blank.
  intro member
  cases longest.isLexeme.solid member

/-- The lexemes of a source text are within one line. -/
theorem inline_lexeme (scanned : tokenize source = .ok tokens) (member : t ∈ tokens)
    (word : t.kind ≠ .finish) : Inline t.lexeme := by
  -- A token with a word stands in the text, and the longest one there ends before any break.
  obtain ⟨offset, _, whole⟩ := exists_whole scanned member word
  exact whole.longest.inline

/-- The line of a token is one. -/
theorem isLine_tokenLine (inline : Inline t.lexeme) : IsLine (Command.tokenLine t) := by
  -- The line is put together from the left, each piece within one line.
  have label : Inline t.kind.label := by
    cases t.kind <;> decide +kernel
  have place := (Numeral.isLine_toString t.position.line).append (show Inline ":" by decide)
  have column := place.append (Numeral.isLine_toString t.position.column).inline
  have kind := (column.append (show Inline " " by decide)).append label
  exact ((kind.append (show Inline " '" by decide)).append inline).append
    (show Inline "'" by decide)

end Token

namespace Node

variable {n : Node} {depth : Nat} {text : String}

/-- A text stays a line when it is indented. -/
theorem isLine_indented (depth : Nat) (line : IsLine text) : IsLine (indented depth text) :=
  line.prepend (inline_blanks _)

/-- The headings inside a node are lines. -/
theorem isLine_heading (member : .line text ∈ Outline.below depth n) : IsLine text := by
  have words : ∀ title ∈ ["Then", "Else", "Do"], IsLine title := by decide +kernel
  -- Only choices and loops have headings.
  obtain ⟨title, known, rfl⟩ : ∃ title ∈ ["Then", "Else", "Do"],
      text = indented (depth + 1) title := by
    cases n <;> simp [Outline.below, Outline.heading_eq] at member ⊢ <;> grind
  exact isLine_indented _ (words title known)

/-- A tree is shown in lines if the titles of its nodes are lines. -/
theorem isLine_rendering (titles : ∀ m : Node, m.Within n → IsLine m.title) :
    ∀ depth, ∀ text ∈ n.rendering depth, IsLine text := by
  induction n using Node.below_induction with
  | each n ih =>
    intro depth text member
    rw [Outline.rendering_eq, List.mem_cons] at member
    rcases member with rfl | member
    · exact isLine_indented depth (titles n .root)
    · -- Below the root there are trees, farther in, and headings.
      obtain ⟨item, inside, shown⟩ := List.mem_flatMap.mp member
      cases item with
      | line heading =>
        rw [Outline.shown, List.mem_singleton] at shown
        exact shown ▸ isLine_heading inside
      | tree child indent =>
        have below := (Outline.mem_below inside).1
        exact ih child below (fun m within => titles m (.inside below within)) _ text shown

/-- The nodes of a source text have lines as titles. -/
theorem isLine_title {source : String} {tokens : List Token} {tree : Node}
    (scanned : tokenize source = .ok tokens) (parsed : parse tokens = .ok tree)
    (within : n.Within tree) : IsLine n.title := by
  have known := (parse_sourced parsed within).known
  have inline : ∀ t ∈ n.kept, Inline t.lexeme := by
    intro t member
    obtain ⟨_, start, longest⟩ := exists_longest scanned parsed within member
    exact longest.inline
  cases n with
  | program => exact (by decide : IsLine "Program")
  | block => exact (by decide : IsLine "Block")
  | print => exact (by decide : IsLine "Print")
  | choose | chooseElse => exact (by decide : IsLine "If")
  | loop => exact (by decide : IsLine "While")
  -- What a title tells of a token stands behind a word.
  | declare mark name => exact (by decide : IsLine "VarDecl ").append (inline name (.head _))
  | assign mark name value => exact (by decide : IsLine "Assign ").append (inline name (.head _))
  | use mark name => exact (by decide : IsLine "Identifier ").append (inline name (.head _))
  | binary mark left operator right =>
    exact (by decide : IsLine "Binary ").append (inline operator (.head _))
  | literal mark value =>
    exact (by decide : IsLine "Literal ").append (Numeral.isLine_toString value).inline
  | unknown => cases known

end Node

namespace Instruction

variable {i : Instruction} {index : Nat} {text : String}

/-- An index is shown as digits. -/
theorem opened_paddedIndex {width : Nat} (padded : paddedIndex width index = .ok text) :
    Opened text := by
  obtain ⟨digits, written, same⟩ := bind_eq_ok.mp padded
  cases same
  have shown : Opened digits := Numeral.eq_of_write written ▸ Numeral.opened_toString index
  -- There may be zeros in front.
  cases width - digits.length with
  | zero => simpa using shown
  | succ k =>
    have zeros : Opened (String.ofList (List.replicate (k + 1) '0')) := by
      refine ⟨?_, '0', by rw [String.toList_ofList]; rfl, rfl⟩
      rw [Inline, String.toList_ofList]
      intro member
      cases List.eq_of_mem_replicate member
    exact zeros.append shown.inline

/-- The line of an instruction starts with its index. A comment is behind all the rest, and only the
end of the line is trimmed. -/
theorem exists_opening (shown : line index i = .ok text) :
    ∃ opening, Opened opening ∧ (text = trimEnd opening ∨ ∃ comment ∈ i.comment,
      text = trimEnd (padRight columns.comment opening ++ " ; " ++ comment)) := by
  -- The index, the mnemonic and the operand come first, and each is within one line.
  unfold line at shown
  obtain ⟨number, padded, shown⟩ := bind_eq_ok.mp shown
  have table : ∀ op ∈ Opcode.all, Inline op.mnemonic := by decide +kernel
  have mnemonic : Inline (padRight columns.mnemonic i.op.mnemonic) :=
    inline_append.mpr ⟨table i.op i.op.mem_all, inline_blanks _⟩
  have head := ((opened_paddedIndex padded).append (show Inline "  " by decide)).append mnemonic
  cases operand : i.operand with
  | none =>
    rw [operand] at shown
    refine ⟨_, head, ?_⟩
    rw [← Except.ok.inj shown]
    split <;> simp [*]
  | some n =>
    rw [operand] at shown
    obtain ⟨digits, written, shown⟩ := bind_eq_ok.mp shown
    have value : Inline digits :=
      Numeral.eq_of_write written ▸ (Numeral.isLine_toString n).inline
    refine ⟨_, (head.append (show Inline " " by decide)).append value, ?_⟩
    rw [← Except.ok.inj shown]
    split <;> simp [*]

/-- The line of an instruction is one, if its comment is within one line. -/
theorem isLine_line (shown : line index i = .ok text)
    (inline : ∀ comment ∈ i.comment, Inline comment) : IsLine text := by
  -- Trimming takes blanks off the end only, so the index in front stays.
  obtain ⟨opening, opened, rfl | ⟨comment, commented, rfl⟩⟩ := exists_opening shown
  · exact opened.isLine_trimEnd
  · have marked := (opened.padRight columns.comment).append (show Inline " ; " by decide)
    exact (marked.append (inline comment commented)).isLine_trimEnd

/-- Instructions whose comments are within one line are listed in lines. -/
theorem isLine_linesFrom {code : List Instruction} {lines : List String}
    (comments : ∀ i ∈ code, ∀ comment ∈ i.comment, Inline comment)
    (shown : linesFrom index code = .ok lines) : ∀ text ∈ lines, IsLine text := by
  -- The lines are made in the order of the instructions, each from its own comment.
  induction code generalizing index lines with
  | nil =>
    cases shown
    simp
  | cons i code ih =>
    obtain ⟨first, here, shown⟩ := bind_eq_ok.mp shown
    obtain ⟨others, later, same⟩ := bind_eq_ok.mp shown
    cases same
    rw [List.forall_mem_cons] at comments ⊢
    exact ⟨isLine_line here comments.1, ih comments.2 later⟩

end Instruction

/-- The comment on an instruction of a node is one of a few words, or such a word with a name of the
node behind it. -/
theorem Code.own_comment {resolution : Resolution} {start address : Nat} {m : Node}
    {i : Instruction} {comment : String} (mine : (i, address) ∈ own resolution start m)
    (commented : comment ∈ i.comment) :
    comment ∈ ["if false", "skip else", "exit loop", "loop"] ∨
      ∃ title ∈ ["init ", "assign ", "load "], ∃ name ∈ m.kept,
        comment = title ++ name.lexeme := by
  cases m with
  | program | block | unknown => cases mine
  | declare mark name =>
    right
    simp only [own, List.mem_cons, List.not_mem_nil, or_false, Prod.mk.injEq] at mine
    rcases mine with ⟨rfl, rfl⟩ | ⟨rfl, rfl⟩ <;> cases commented
    exact ⟨"init ", by decide, name, .head _, rfl⟩
  | assign mark name | use mark name =>
    right
    simp only [own, List.mem_singleton, Prod.mk.injEq] at mine
    obtain ⟨rfl, rfl⟩ := mine
    cases commented
    exact ⟨_, by decide, name, .head _, rfl⟩
  | binary mark left operator right =>
    -- An operator has no comment.
    simp only [own, List.mem_map, Prod.mk.injEq] at mine
    obtain ⟨op, _, rfl, rfl⟩ := mine
    cases commented
  | _ =>
    left
    simp only [own, toward, List.mem_cons, List.not_mem_nil, or_false, Prod.mk.injEq] at mine
    rcases mine with ⟨rfl, rfl⟩ | ⟨rfl, rfl⟩ <;> cases commented <;> decide

/-- The comments of compiled code are within one line. -/
theorem inline_comment {source : String} {code : Code} (compiled : compile source = .ok code) :
    ∀ i ∈ code.toList, ∀ comment ∈ i.comment, Inline comment := by
  intro i member comment commented
  have words : ∀ word ∈ ["if false", "skip else", "exit loop", "loop"], Inline word := by
    decide +kernel
  have titles : ∀ title ∈ ["init ", "assign ", "load "], Inline title := by decide +kernel
  obtain ⟨t⟩ := exists_translation compiled
  obtain ⟨address, found⟩ := List.getElem?_of_mem member
  rw [Array.getElem?_toList] at found
  rcases (Code.getElem?_generate (t.generated compiled)).mp found with has | ⟨rfl, _⟩
  · -- The instruction belongs to a node of the tree.
    obtain ⟨m, start, lies, mine⟩ := has.owner
    rcases Code.own_comment mine commented with word | ⟨title, known, name, kept, rfl⟩
    · exact words comment word
    · obtain ⟨_, _, longest⟩ := Node.exists_longest t.scanned t.parsed lies.within kept
      exact inline_append.mpr ⟨titles title known, longest.inline⟩
  · -- The halt has no comment.
    cases commented

/-- Compiled code is listed in lines. -/
theorem isLine_listing {source : String} {code : Code} {lines : List String}
    (compiled : compile source = .ok code) (shown : Instruction.listing code = .ok lines) :
    ∀ text ∈ lines, IsLine text :=
  Instruction.isLine_linesFrom (inline_comment compiled) shown

namespace Machine

variable {code : Code} {k cap : Nat} {m m' : Machine} {ending : Ending}

/-- A value is printed as a line. -/
theorem isLine_shown {value : Value} {text : String} (shown : show? value = .ok text) :
    IsLine text := by
  -- What has no value is shown as a word, and a number as its text.
  cases value with
  | none =>
    cases shown
    decide
  | some n => exact Numeral.eq_of_write shown ▸ Numeral.isLine_toString n

/-- The machine has printed lines only. -/
def PrintsLines (m : Machine) : Prop := ∀ text ∈ m.output.toList, IsLine text

/-- One more line behind lines. -/
theorem PrintsLines.push (lines : m.PrintsLines) {text : String} (line : IsLine text)
    (output : m'.output = m.output.push text) : m'.PrintsLines := by
  -- The lines so far stay in front of the new one.
  rw [PrintsLines, output, Array.toList_push, List.forall_mem_append]
  exact ⟨lines, List.forall_mem_singleton.mpr line⟩

/-- A step that goes on prints a line at most. -/
theorem PrintsLines.step (lines : m.PrintsLines) (stepped : m.step code = .next m') :
    m'.PrintsLines := by
  -- Of the ways in which a step prints, two go on.
  have printed := Prints.step code m
  rw [stepped] at printed
  cases printed with
  | quiet output _ =>
    rw [PrintsLines, output]
    exact lines
  | line shown output _ => exact lines.push (isLine_shown shown) output

/-- A step that ends a run prints a line at most. -/
theorem PrintsLines.stop (lines : m.PrintsLines) (stops : Stops code m m' ending) :
    m'.PrintsLines := by
  -- Of the ways in which a step prints, two end a run; the line on a division is a fixed text.
  have printed := Prints.step code m
  rw [stops.stepped] at printed
  cases printed with
  | ends output _ _ _ =>
    rw [PrintsLines, output]
    exact lines
  | divides output _ => exact lines.push (by decide +kernel) output

/-- A run prints lines, whatever the code is and however it ends. -/
theorem printsLines_run (code : Code) (cap : Nat) : (run code cap).final.PrintsLines := by
  have start : initial.PrintsLines := by
    intro text member
    cases member
  -- A walk prints lines, since each of its steps does.
  have along {k : Nat} {m : Machine} (walks : Walks code k initial m) : m.PrintsLines :=
    walks.keeps (fun m m₁ lines _ stepped => lines.step stepped) start
  have comes := comes_runFrom code cap initial
  rw [run]
  generalize runFrom code cap initial = r at comes ⊢
  cases comes with
  | stopped walks _ stops => exact (along walks).stop stops
  | left walks _ _ => exact along walks
  | limited walks => exact (along walks).push (show IsLine limitLine by decide +kernel) rfl

end Machine

/-- A place is named within one line. -/
theorem Position.inline_text (p : Position) : Inline p.text := by
  -- The pieces are the two numbers and the words in front of them.
  have line := (show IsLine "line " by decide).append (Numeral.isLine_toString p.line).inline
  exact ((line.append (show Inline ", col " by decide)).append
    (Numeral.isLine_toString p.column).inline).inline

/-- A diagnostic is reported in a line if its message is within one. -/
theorem Diagnostic.isLine_line {d : Diagnostic} (message : Inline d.message) : IsLine d.line := by
  -- The text in front is not empty, so only breaks have to be looked for.
  have front : IsLine "Error: " := by decide
  apply front.append
  cases d.position with
  | none => exact message
  | some p =>
    exact inline_append.mpr ⟨inline_append.mpr ⟨message, by decide⟩, p.inline_text⟩

/-- A text with something in quotes is within one line if that is. -/
theorem Text.inline_quoted {title text : String} (word : Inline title) (inside : Inline text) :
    Inline (title ++ text ++ "'") :=
  inline_append.mpr ⟨inline_append.mpr ⟨word, inside⟩, by decide⟩

/-- What is said about the text at an offset is within one line, if a stray character is no line
feed and what is expected is within one line. -/
theorem Quotes.inline_message {source message : String} {offset : Nat} {cause : Cause}
    (quotes : Quotes source offset cause message)
    (stray : ∀ c, cause = .stray (String.singleton c) → c ≠ '\n')
    (expects : ∀ expected found, cause = .unexpected expected found → Inline expected) :
    Inline message := by
  have sentence {expected found : String} (asked : Inline expected) (shown : Inline found) :
      Inline ("Expected " ++ expected ++ ", found " ++ found) := by
    have front := (show IsLine "Expected " by decide).append asked
    exact ((front.append (show Inline ", found " by decide)).append shown).inline
  -- Lexemes are within one line.
  cases quotes with
  | @character c there =>
    apply inline_quoted (by decide)
    show '\n' ∉ (String.singleton c).toList
    simpa [eq_comm] using stray c rfl
  | token whole =>
    have found := inline_quoted (show Inline "'" by decide) whole.longest.inline
    exact sentence (expects _ _ rfl) found
  | finish => exact sentence (expects _ _ rfl) (by decide)
  | opening => exact (by decide : Inline "Program nested too deeply")
  | redeclared _ _ _ _ _ _ _ whole => exact inline_quoted (by decide) whole.longest.inline
  | undeclared _ _ _ _ whole => exact inline_quoted (by decide) whole.longest.inline

namespace Rejection

variable {source : String} {tokens : List Token} {tree : Node} {rejection : Rejection}

/-- What the scan rejects a text for is told within one line. -/
theorem inline_of_scan (failed : Token.scan source = .error rejection) :
    Inline rejection.cause.message := by
  obtain ⟨_, c, _, _, _, _, same, _, _, stray⟩ := Token.scanFrom_stray failed
  obtain ⟨_, _, _, _, quotes⟩ := located_of_scan failed
  subst same
  apply quotes.inline_message
  · -- A line feed is passed over by the scan.
    intro d told
    have here : String.singleton c = String.singleton d := Cause.stray.inj told
    rw [String.singleton_inj] at here
    exact here ▸ (Token.isStray_iff.mp stray).1
  · simp

/-- What the parser rejects a text for is told within one line. -/
theorem inline_of_parse (scanned : tokenize source = .ok tokens)
    (failed : Node.parse tokens = .error (.rejected rejection))
    (syntactic : (∃ expected found, rejection.cause = .unexpected expected found) ∨
      ∃ limit, rejection.cause = .tooDeep limit) : Inline rejection.cause.message := by
  -- What the parser expects is one of a few texts, and none of them has a break.
  have texts : ∀ expected ∈ Node.expectations, Inline expected := by decide +kernel
  obtain ⟨_, _, _, _, quotes⟩ := located_of_parse scanned failed
  apply quotes.inline_message
  · intro c told
    simp [told] at syntactic
  · intro expected found told
    obtain ⟨cause, position⟩ := rejection
    subst told
    exact texts expected (Node.foresees_parse tokens _ _ _ failed)

/-- What a text is rejected for because of its names is told within one line. -/
theorem inline_of_program {known : Analysis} {cause : Cause} {position : Option Position}
    (scanned : tokenize source = .ok tokens) (parsed : Node.parse tokens = .ok tree)
    (failed : Analysis.empty.program tree = .error (.rejected ⟨cause, position⟩, known))
    (semantic : ∃ name, cause = .redeclared name ∨ cause = .undeclared name) :
    Inline cause.message := by
  -- The message quotes the name only, which is a lexeme of the text.
  obtain ⟨_, _, _, _, quotes⟩ := located_of_program scanned parsed failed
  obtain ⟨name, rfl | rfl⟩ := semantic <;> exact quotes.inline_message (by simp) (by simp)

end Rejection

end BlockCode
