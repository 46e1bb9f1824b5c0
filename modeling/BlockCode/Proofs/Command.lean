import BlockCode.Proofs.Command.Arguments
import BlockCode.Proofs.Line
import BlockCode.Proofs.Safety

/-! The command prints all or nothing. It is compared with a command that writes its lines one by
one, so that it can be told what is on its two streams when it breaks off; and what it prints is
compared with the parts that were asked for, which can be read back from it. -/

namespace BlockCode

open Text Machine Numeral

/-- The streams that the command writes to. -/
inductive Channel where
  | out
  | err
deriving DecidableEq, Repr

/-- What has been written to the two streams. -/
structure Streams where
  out : String
  err : String
deriving DecidableEq, Repr

/-- Puts a text behind what has been written. -/
def Streams.put (written : Streams) (text : String) : Channel → Streams
  | .out => { written with out := written.out ++ text }
  | .err => { written with err := written.err ++ text }

/-- A part of the command, which writes to the streams. What it has written stays there when it
breaks off. -/
abbrev Printing (α : Type) := EStateM CommandFailure Streams α

namespace Printing

/-- Goes on with the result of an attempt, or breaks off. -/
def attempt {α : Type} : Except CommandFailure α → Printing α
  -- An attempt writes nothing, so the streams stay as they are.
  | .ok a => pure a
  | .error failure => throw failure

/-- Writes a line. -/
def say (channel : Channel) (line : String) : Printing Unit :=
  modify fun written => written.put (line ++ "\n") channel

/-- Writes some lines in turn. -/
def sayAll (channel : Channel) : List String → Printing Unit
  | [] => pure ()
  | line :: lines => do
    say channel line
    sayAll channel lines

/-- Prints some parts in turn, with an empty line in front of each but the first. -/
def sayParts (first : Bool) : List (List String) → Printing Unit
  | [] => pure ()
  | part :: others => do
    -- The empty line belongs to the part behind it, so none is left over at the end.
    unless first do say .out ""
    sayAll .out part
    sayParts false others

end Printing

namespace Command

open Printing

/-- Makes the parts that were asked for, one after the other. -/
def gather (s : Settings) (c : Compilation) : Printing (List (List String)) := do
  -- Nothing is written here: a part that fails is found out before the first line is out.
  let tokens ← attempt (chosen s.tokens (.ok (tokenSection c)))
  let tree ← attempt (chosen s.ast (treeSection c))
  let code ← attempt (chosen s.bytecode (codeSection c))
  let output ← attempt
    (chosen (s.output || !(s.tokens || s.ast || s.bytecode)) (outputSection c s.maxSteps))
  return tokens ++ tree ++ code ++ output

/-- Compiles a source text and prints the parts that were asked for, line by line. The status is
returned. -/
def printing (s : Settings) (source : String) : Printing Nat := do
  let c ← attempt ((Compilation.ofSource source).mapError .failure)
  if c.ok then
    -- All parts are there before the first of them is printed.
    let parts ← gather s c
    sayParts true parts
    return 0
  else
    sayAll .err (c.diagnostics.map (·.line))
    return 1

/-- An outcome as it is told by the streams: they are empty when the command breaks off. -/
def told : Except CommandFailure BlockCode.Outcome → EStateM.Result CommandFailure Streams Nat
  | .ok outcome => .ok outcome.status ⟨outcome.out, outcome.err⟩
  -- An equation with this says that nothing was written before.
  | .error failure => .error failure ⟨"", ""⟩

variable {α β : Type} {written written' : Streams} {channel : Channel}

/-- Behind a part of the command that is done, the next one goes on with the streams. -/
theorem run_bind {x : Printing α} {next : α → Printing β} {a : α}
    (done : x.run written = .ok a written') : (x >>= next).run written = (next a).run written' := by
  -- The state is threaded by hand once here, and never again below.
  show EStateM.bind x next written = _
  rw [EStateM.bind, show x written = _ from done]
  rfl

/-- An attempt that succeeds writes nothing. -/
theorem run_attempt (a : α) : (attempt (.ok a)).run written = .ok a written := rfl

/-- Attempts in a row are one attempt. -/
theorem attempt_bind (x : Except CommandFailure α) (next : α → Except CommandFailure β) :
    attempt (x >>= next) = attempt x >>= fun a => attempt (next a) := by
  cases x <;> rfl

/-- Texts are put behind each other. -/
theorem put_put (written : Streams) (text more : String) (channel : Channel) :
    (written.put text channel).put more channel = written.put (text ++ more) channel := by
  cases channel <;> simp [Streams.put, String.append_assoc]

/-- An empty text changes nothing. -/
theorem put_empty (written : Streams) (channel : Channel) : written.put "" channel = written := by
  cases channel <;> simp [Streams.put]

/-- A line is put behind what has been written. -/
theorem run_say (line : String) :
    (say channel line).run written = .ok () (written.put (line ++ "\n") channel) := rfl

/-- The first line of some is in front of the others. -/
theorem unlines_cons (line : String) (lines : List String) :
    unlines (line :: lines) = line ++ "\n" ++ unlines lines := by
  simp [unlines]

/-- The lines of both stand behind each other. -/
theorem unlines_append (lines more : List String) :
    unlines (lines ++ more) = unlines lines ++ unlines more := by
  simp [unlines]

/-- Lines are written in turn. -/
theorem run_sayAll (lines : List String) (written : Streams) :
    (sayAll channel lines).run written = .ok () (written.put (unlines lines) channel) := by
  -- The texts of the lines are joined in the order in which they are written.
  induction lines generalizing written with
  | nil =>
    rw [unlines, List.map_nil, String.join_nil, put_empty]
    rfl
  | cons line lines ih => rw [sayAll, run_bind (run_say line), ih, put_put, unlines_cons]

/-- Parts behind a first one are printed with an empty line in front of each. -/
theorem run_sayParts_false (parts : List (List String)) (written : Streams) :
    (sayParts false parts).run written =
      .ok () (written.put (unlines (parts.flatMap ("" :: ·))) .out) := by
  -- The empty line is written first, then the part, then the parts behind it.
  induction parts generalizing written with
  | nil =>
    rw [List.flatMap_nil, unlines, List.map_nil, String.join_nil, put_empty]
    rfl
  | cons part others ih =>
    show (say .out "" >>= fun _ => sayAll .out part >>= fun _ => sayParts false others).run
      written = _
    rw [run_bind (run_say ""), run_bind (run_sayAll part _), ih, put_put, put_put,
      List.flatMap_cons, List.cons_append, unlines_cons, unlines_append, String.append_assoc]

/-- Parts with an empty line between them: each but the first has one in front of it. -/
theorem intercalate_cons (part : List String) (others : List (List String)) :
    [""].intercalate (part :: others) = part ++ others.flatMap ("" :: ·) := by
  -- The separator in front of each further part is the one behind the part before it.
  induction others generalizing part with
  | nil => simp
  | cons next others ih => rw [List.intercalate_cons_cons, ih]; simp

/-- All parts are printed with an empty line between them. -/
theorem run_sayParts (parts : List (List String)) (written : Streams) :
    (sayParts true parts).run written =
      .ok () (written.put (unlines ([""].intercalate parts)) .out) := by
  -- Only the first part has no empty line in front of it.
  cases parts with
  | nil =>
    rw [List.intercalate_nil, unlines, List.map_nil, String.join_nil, put_empty]
    rfl
  | cons part others =>
    show (sayAll .out part >>= fun _ => sayParts false others).run written = _
    rw [run_bind (run_sayAll part _), run_sayParts_false, put_put, intercalate_cons, unlines_append]

/-- Joining the texts of the parts is joining their lines. -/
theorem intercalate_unlines (parts : List (List String)) :
    String.intercalate "\n" (parts.map unlines) = unlines ([""].intercalate parts) := by
  -- The break that joins two texts is the empty line between their lines.
  induction parts with
  | nil => rfl
  | cons part others ih =>
    cases others with
    | nil => simp
    | cons next others =>
      rw [List.map_cons, List.map_cons, String.intercalate_cons_cons, ← List.map_cons, ih,
        List.intercalate_cons_cons, unlines_append, unlines_append, unlines_cons]
      simp [unlines]

/-- The parts are made without a line being printed. -/
theorem gather_eq (s : Settings) (c : Compilation) : gather s c = attempt (sections s c) := by
  unfold gather sections
  -- Four attempts in a row are one, and an attempt writes nothing.
  simp only [attempt_bind]
  rfl

/-- The command leaves on its streams what it tells, and nothing if it breaks off. -/
theorem run_printing (s : Settings) (source : String) :
    (printing s source).run ⟨"", ""⟩ = told (print s source) := by
  unfold printing print
  cases Compilation.ofSource source with
  | error failure => rfl
  | ok c =>
    rw [mapError_ok, run_bind (run_attempt c)]
    simp only
    split
    · rw [gather_eq]
      cases sections s c with
      | error failure => rfl
      | ok parts =>
        -- Only now the first line is printed, and nothing can fail behind it.
        rw [run_bind (run_attempt parts), run_bind (run_sayParts parts _), ← intercalate_unlines,
          Streams.put, String.empty_append]
        rfl
    · rw [run_bind (run_sayAll _ _), Streams.put, String.empty_append]
      rfl

end Command

/-- Tells whether a part was asked for. -/
def Part.asked (s : Settings) : Part → Bool
  -- Settings name the parts by the options that ask for them.
  | tokens => s.tokens
  | tree => s.ast
  | code => s.bytecode
  | output => s.output

/-- The parts to be shown, in their order: those that were asked for, or the output alone. -/
def Settings.shown (s : Settings) : List Part :=
  -- The order is that of the stages, not the one in which the options were given.
  let asked := [Part.tokens, .tree, .code, .output].filter (·.asked s)
  if asked = [] then [.output] else asked

/-- The lines that show a part of a program. -/
inductive Part.Shows (c : Compilation) (cap : Int) : Part → List String → Prop where
  | tokens : Shows c cap tokens ((c.tokens.filter (·.kind ≠ .finish)).map fun t =>
      s!"{t.position.line}:{t.position.column} {t.kind.label} '{t.lexeme}'")
  | tree {tree : Node} {lines : List String} (made : c.tree = some tree)
      (outlined : tree.outline 0 = .ok lines) : Shows c cap .tree lines
  | code {lines : List String} (listed : Instruction.listing c.code = .ok lines) :
      Shows c cap .code lines
  | output {r : Run} (ran : run? c.code cap = some r) (sound : r.fault? = none) :
      Shows c cap .output r.final.output.toList

/-- Why the command breaks off: a number of the source text has too many digits to be read, a number
that is printed has too many digits to be written, or so has the index of an instruction. -/
inductive Breaks (s : Settings) (source : String) : CommandFailure → Prop where
  | unread {tokens : List Token} {k digits : Nat} (scanned : tokenize source = .ok tokens)
      (long : Node.FirstOverlong tokens k) :
      Breaks s source (.failure (.numeral (.overlong digits)))
  | unprintable {code : Code} {k : Nat} {m : Machine} {n : Int} {rest : List Value}
      (shown : .output ∈ s.shown) (compiled : compile source = .ok code)
      (walks : Walks code k initial m) (within : k < s.maxSteps)
      (there : code.At m.ip.toNat .print none) (operands : m.stack = some n :: rest)
      (long : maxDigits < (Nat.digits 10 n.natAbs).length) :
      Breaks s source (.run (.fault (.numeral .unprintable)))
  | unlisted {code : Code} {e : NumeralError} (shown : .code ∈ s.shown)
      (compiled : compile source = .ok code) (long : 10 ^ maxDigits ≤ code.size) :
      Breaks s source (.numeral e)

/-- A source text is compiled without a diagnostic, with everything that was made of it. -/
structure Compilation.Clean (source : String) (c : Compilation) (tree : Node) : Prop where
  diagnosed : c.diagnostics = []
  compiled : compile source = .ok c.code
  scanned : tokenize source = .ok c.tokens
  parsed : Node.parse c.tokens = .ok tree
  made : c.tree = some tree

/-- What compilation can make of a source text. -/
inductive Compiles (source : String) : Except Failure Compilation → Prop where
  | rejected {c : Compilation} {r : Rejection} (diagnosed : c.diagnostics = [r.diagnostic])
      (inline : Inline r.cause.message) : Compiles source (.ok c)
  | unread {tokens : List Token} {k digits : Nat} (scanned : tokenize source = .ok tokens)
      (long : Node.FirstOverlong tokens k) :
      Compiles source (.error (.numeral (.overlong digits)))
  | clean {c : Compilation} {tree : Node} (clean : c.Clean source tree) : Compiles source (.ok c)

/-- Every source text is rejected for one reason, has a number with too many digits, or is compiled
without a word. -/
theorem compiles_ofSource (source : String) : Compiles source (Compilation.ofSource source) := by
  -- The ways that a source text can go are known; each is seen in what is gathered on it.
  cases passage source with
  | stray character position scanned =>
    have message := Rejection.inline_of_scan (tokenize_eq_error.mp scanned)
    rw [Compilation.ofSource, scanned]
    exact .rejected rfl message
  | refused tokens rejection scanned parsed syntactic =>
    have message := Rejection.inline_of_parse scanned parsed syntactic
    rw [Compilation.ofSource, scanned]
    simp only [parsed]
    exact .rejected rfl message
  | unread tokens digits scanned parsed =>
    obtain ⟨_, k, first, _⟩ := (scanned_tokenize scanned).of_numeral parsed
    rw [Compilation.ofSource, scanned]
    simp only [parsed]
    exact .unread scanned first
  | blamed tokens tree known cause place scanned parsed analyzed semantic =>
    have message := Rejection.inline_of_program scanned parsed analyzed semantic
    rw [Compilation.ofSource, scanned]
    simp only [parsed, analyzed]
    exact .rejected rfl message
  | compiled tokens tree analysis code scanned parsed analyzed generated =>
    have whole : compile source = .ok code := by
      simp [compile, scanned, Bind.bind, Except.bind, parsed, resolve, analyzed, generated]
    rw [Compilation.ofSource, scanned]
    simp only [parsed, analyzed, generated]
    exact .clean ⟨rfl, whole, scanned, parsed, rfl⟩

section

variable {ε α β : Type} {f : α → Except ε β} {as : List α}

/-- What is made of each is made in turn. -/
theorem forall₂_of_mapM {bs : List β} (made : as.mapM f = .ok bs) :
    List.Forall₂ (fun a b => f a = .ok b) as bs := by
  -- The failure of one would be that of all, so each of them was made.
  induction as generalizing bs with
  | nil =>
    cases made
    exact .nil
  | cons a as ih =>
    rw [List.mapM_cons, bind_eq_ok] at made
    obtain ⟨b, first, made⟩ := made
    obtain ⟨others, later, same⟩ := bind_eq_ok.mp made
    cases same
    exact .cons first (ih later)

/-- What is made comes from one of those that there are. -/
theorem exists_of_forall₂ {R : α → β → Prop} {bs : List β} (related : List.Forall₂ R as bs) :
    ∀ b ∈ bs, ∃ a ∈ as, R a b := by
  -- The relation pairs both lists, place by place.
  induction related with
  | nil => simp
  | cons first _ ih =>
    rw [List.forall_mem_cons]
    refine ⟨⟨_, .head _, first⟩, fun b member => ?_⟩
    obtain ⟨a, inside, related⟩ := ih b member
    exact ⟨a, .tail _ inside, related⟩

/-- If not all are made, there is one that cannot be made. -/
theorem exists_of_mapM {e : ε} (failed : as.mapM f = .error e) : ∃ a ∈ as, f a = .error e := by
  induction as with
  | nil => cases failed
  | cons a as ih =>
    rw [List.mapM_cons] at failed
    cases first : f a with
    | error e' =>
      -- The first that cannot be made stops them all.
      rw [first] at failed
      cases failed
      exact ⟨a, .head _, first⟩
    | ok b =>
      cases later : as.mapM f with
      | ok others =>
        rw [first, later] at failed
        cases failed
      | error e' =>
        rw [first, later] at failed
        cases failed
        obtain ⟨a', member, broken⟩ := ih later
        exact ⟨a', .tail _ member, broken⟩

end

namespace Part

/-- The lines of a part, if they can be made. -/
def lines (c : Compilation) (cap : Int) : Part → Except CommandFailure (List String)
  -- Only the tokens can always be shown.
  | tokens => .ok (Command.tokenSection c)
  | tree => Command.treeSection c
  | code => Command.codeSection c
  | output => Command.outputSection c cap

/-- A part if it is wanted. -/
def only (wanted : Bool) (part : Part) : List Part := if wanted then [part] else []

end Part

/-- The parts to be shown are put together one by one. -/
theorem Settings.shown_eq (s : Settings) : s.shown =
    Part.only s.tokens .tokens ++ Part.only s.ast .tree ++ Part.only s.bytecode .code ++
      Part.only (s.output || !(s.tokens || s.ast || s.bytecode)) .output := by
  -- The switches are gone through.
  obtain ⟨input, tokens, ast, bytecode, output, maxSteps⟩ := s
  cases tokens <;> cases ast <;> cases bytecode <;> cases output <;> rfl

/-- Something is always shown. -/
theorem Settings.shown_ne_nil (s : Settings) : s.shown ≠ [] := by
  -- Without an option all parts are shown, and with one at least that part.
  simp only [Settings.shown]
  split
  · simp
  · assumption

namespace Command

/-- A part is made if it is wanted. -/
theorem chosen_eq (wanted : Bool) (part : Part) (c : Compilation) (cap : Int) :
    chosen wanted (part.lines c cap) = (part.only wanted).mapM (Part.lines c cap) := by
  -- What is not wanted is not even tried, so it cannot fail.
  cases wanted with
  | false => rfl
  | true =>
    show (part.lines c cap).map _ = [part].mapM _
    rw [List.mapM_cons]
    cases part.lines c cap <;> rfl

/-- The parts to be shown are made in turn. -/
theorem sections_eq (s : Settings) (c : Compilation) :
    sections s c = s.shown.mapM (Part.lines c s.maxSteps) := by
  have tokens := chosen_eq s.tokens .tokens c s.maxSteps
  have tree := chosen_eq s.ast .tree c s.maxSteps
  have code := chosen_eq s.bytecode .code c s.maxSteps
  have output := chosen_eq (s.output || !(s.tokens || s.ast || s.bytecode)) .output c s.maxSteps
  simp only [Part.lines] at tokens tree code output
  -- What is made of the parts put together is put together of what is made of them.
  rw [sections, tokens, tree, code, output, s.shown_eq]
  simp only [List.mapM_append, bind_assoc, pure_bind]

end Command

namespace Part

variable {s : Settings} {source : String} {c : Compilation} {tree : Node} {part : Part}

/-- What is made of a part shows it. -/
theorem shows_of_lines {cap : Int} {lines : List String} (clean : c.Clean source tree)
    (written : part.lines c cap = .ok lines) : part.Shows c cap lines := by
  -- A part that was written did not fail on the way, so what it was written from is there.
  cases part with
  | tokens =>
    -- The tokens are always there.
    cases written
    exact .tokens
  | tree =>
    -- The tree of a text that was compiled is there, and its outline was made.
    simp only [Part.lines, Command.treeSection, clean.made] at written
    cases outlined : tree.outline 0 with
    | error e => simp [outlined] at written
    | ok shown =>
      rw [outlined] at written
      cases written
      exact .tree clean.made outlined
  | code =>
    -- The listing was made.
    simp only [Part.lines, Command.codeSection] at written
    cases listed : Instruction.listing c.code with
    | error e => simp [listed] at written
    | ok shown =>
      rw [listed] at written
      cases written
      exact .code listed
  | output =>
    -- The run came to its end without a fault.
    simp only [Part.lines, Command.outputSection, runCode] at written
    cases ran : run? c.code cap with
    | none => simp [ran] at written
    | some r =>
      cases fault : r.fault? with
      | some fault' => simp [ran, fault] at written
      | none =>
        simp only [ran, fault] at written
        cases written
        exact .output ran fault

/-- A part of a compiled text that cannot be made breaks off the command. -/
theorem breaks_of_lines {e : CommandFailure} (positive : 0 < s.maxSteps)
    (clean : c.Clean source tree) (shown : part ∈ s.shown)
    (failed : part.lines c s.maxSteps = .error e) : Breaks s source e := by
  cases part with
  | tokens => cases failed
  | tree =>
    -- The literals of a tree that was read can be written.
    have rendered : tree.outline 0 = _ := Node.outline_writable (Node.parse_writable clean.parsed) 0
    simp [Part.lines, Command.treeSection, clean.made, rendered] at failed
  | code =>
    by_cases small : c.code.size < 10 ^ maxDigits
    · -- Operands and comments can be shown in any case.
      obtain ⟨lines, told⟩ := exists_told small (listable_compiled clean.compiled small)
      simp [Part.lines, Command.codeSection, told.listed] at failed
    · cases listed : Instruction.listing c.code with
      | ok lines => simp [Part.lines, Command.codeSection, listed] at failed
      | error cause =>
        simp only [Part.lines, Command.codeSection, listed, mapError_error] at failed
        cases failed
        exact .unlisted shown clean.compiled (Nat.le_of_not_lt small)
  | output =>
    obtain ⟨t⟩ := exists_translation clean.compiled
    have accepted : run? c.code s.maxSteps = some (run c.code s.maxSteps.toNat) := if_pos positive
    simp only [Part.lines, Command.outputSection, runCode, accepted, run] at failed
    -- Only a number with too many digits is a fault of compiled code.
    rcases t.steady_initial.runFrom t.fits s.maxSteps.toNat with
      ⟨m, walks, ended⟩ | ⟨k, m, m', ending, short, walks, stops, safe, ended⟩
    · simp [ended, Run.fault?] at failed
    · cases safe with
      | halted => simp [ended, Run.fault?] at failed
      | zeroDivisor => simp [ended, Run.fault?] at failed
      | unprintable there operands long =>
        simp only [ended, Run.fault?] at failed
        cases failed
        exact .unprintable shown clean.compiled walks (by omega) there operands long

/-- A part of a compiled text is shown in lines. -/
theorem Shows.isLine {cap : Int} {lines : List String} (shows : part.Shows c cap lines)
    (clean : c.Clean source tree) : ∀ text ∈ lines, IsLine text := by
  cases shows with
  | tokens =>
    intro text member
    obtain ⟨t, kept, rfl⟩ := List.mem_map.mp member
    obtain ⟨inside, word⟩ := List.mem_filter.mp kept
    exact Token.isLine_tokenLine (Token.inline_lexeme clean.scanned inside (by simpa using word))
  | tree made outlined =>
    -- The tree that is shown is the one that was read.
    cases clean.made.symm.trans made
    have rendered := Node.outline_writable (Node.parse_writable clean.parsed) 0
    cases outlined.symm.trans rendered
    have titled := fun n within => Node.isLine_title clean.scanned clean.parsed (n := n) within
    exact Node.isLine_rendering titled 0
  | code listed => exact isLine_listing clean.compiled listed
  | output ran sound =>
    -- A run prints lines whatever its code is.
    unfold run? at ran
    split at ran
    · cases ran
      exact printsLines_run _ _
    · cases ran

end Part

namespace Command

/-- The lines of a text in which every line is ended by a line feed. -/
def readLines (text : String) : List String :=
  ((text.toList.splitOn '\n').map String.ofList).dropLast

/-- The parts of a text that are separated by empty lines. -/
def readParts (text : String) : List (List String) := (readLines text).splitOn ""

variable {lines : List String} {parts : List (List String)}

/-- The text of some lines is that of the lines and nothing, with line feeds between. -/
theorem toList_unlines (lines : List String) :
    (unlines lines).toList = ['\n'].intercalate (lines.map String.toList ++ [[]]) := by
  induction lines with
  | nil => rfl
  | cons line lines ih =>
    rw [unlines_cons, String.toList_append, String.toList_append, ih, List.map_cons,
      List.cons_append]
    -- A line feed is between the first line and what follows, which may be nothing.
    obtain ⟨next, others, split⟩ :=
      List.exists_cons_of_ne_nil (show lines.map String.toList ++ [[]] ≠ [] by simp)
    rw [split, List.intercalate_cons_cons]
    rfl

/-- Lines are read back from their text. -/
theorem readLines_unlines (inline : ∀ line ∈ lines, Inline line) :
    readLines (unlines lines) = lines := by
  -- There is no break in any line, so the breaks of the text are those that close the lines.
  have plain : ∀ l ∈ lines.map String.toList ++ [[]], '\n' ∉ l := by
    simpa [Inline, or_imp, forall_and] using inline
  rw [readLines, toList_unlines, List.splitOn_intercalate _ plain (by simp)]
  simp

/-- Parts are read back from what is printed, also those that are empty. -/
theorem readParts_unlines (each : ∀ part ∈ parts, ∀ line ∈ part, IsLine line) (some : parts ≠ []) :
    readParts (unlines ([""].intercalate parts)) = parts := by
  -- The empty lines between the parts have no line feed either.
  have inline : ∀ line ∈ [""].intercalate parts, Inline line := by
    obtain ⟨part, others, rfl⟩ := List.exists_cons_of_ne_nil some
    rw [intercalate_cons]
    intro line member
    rcases List.mem_append.mp member with first | later
    · exact (each part (.head _) line first).inline
    · obtain ⟨other, inside, member⟩ := List.mem_flatMap.mp later
      rcases List.mem_cons.mp member with rfl | member
      · decide
      · exact (each other (.tail _ inside) line member).inline
  rw [readParts, readLines_unlines inline]
  -- No part has an empty line, so they are split where they were joined.
  refine List.splitOn_intercalate _ (fun part member none => ?_) some
  exact (each part member "" none).nonempty rfl

variable {s : Settings} {source : String} {c : Compilation}

/-- A text that is rejected is reported in one line. -/
theorem print_rejected {r : Rejection} (compiled : Compilation.ofSource source = .ok c)
    (diagnosed : c.diagnostics = [r.diagnostic]) :
    print s source = .ok ⟨1, "", r.diagnostic.line ++ "\n"⟩ := by
  -- The one diagnostic makes the text a wrong one, so nothing goes to the first stream.
  have wrong : c.ok = false := by simp [Compilation.ok, diagnosed]
  rw [print, compiled]
  simp [wrong, diagnosed, refuse, unlines]

/-- Of a text that is compiled, the parts to be shown are printed. -/
theorem print_clean {tree : Node} (compiled : Compilation.ofSource source = .ok c)
    (clean : c.Clean source tree) : print s source =
      (s.shown.mapM (Part.lines c s.maxSteps)).map fun parts =>
        ⟨0, unlines ([""].intercalate parts), ""⟩ := by
  -- Without diagnostics the sections are made, and a failure of one is passed on.
  have right : c.ok = true := by simp [Compilation.ok, clean.diagnosed]
  rw [print, compiled, ← sections_eq]
  simp only [right, if_true, intercalate_unlines]
  cases sections s c <;> rfl

/-- The parts of a compiled text are shown in lines, and can be told apart when they are printed. -/
theorem readParts_shown {tree : Node} (clean : c.Clean source tree)
    (shown : List.Forall₂ (Part.Shows c s.maxSteps) s.shown parts) :
    (∀ part ∈ parts, ∀ line ∈ part, IsLine line) ∧
      readParts (unlines ([""].intercalate parts)) = parts := by
  -- Lines are never empty, so the empty lines of the text are those between the parts.
  have each : ∀ part ∈ parts, ∀ line ∈ part, IsLine line := by
    intro lines member
    obtain ⟨part, _, shows⟩ := exists_of_forall₂ shown lines member
    exact shows.isLine clean
  have some : parts ≠ [] := by
    rintro rfl
    exact s.shown_ne_nil (List.forall₂_nil_right_iff.mp shown)
  exact ⟨each, readParts_unlines each some⟩

/-- The command breaks off only for a reason. -/
theorem breaks_of_print {e : CommandFailure} (positive : 0 < s.maxSteps)
    (failed : print s source = .error e) : Breaks s source e := by
  have made := compiles_ofSource source
  cases compiled : Compilation.ofSource source with
  | error failure =>
    rw [compiled] at made
    cases made with
    | unread scanned long =>
      rw [print, compiled] at failed
      cases failed
      exact .unread scanned long
  | ok c =>
    rw [compiled] at made
    cases made with
    | rejected diagnosed _ =>
      rw [print_rejected compiled diagnosed] at failed
      cases failed
    | clean clean =>
      rw [print_clean compiled clean] at failed
      cases written : s.shown.mapM (Part.lines c s.maxSteps) with
      | ok parts =>
        rw [written] at failed
        cases failed
      | error e' =>
        -- One of the parts could not be made.
        rw [written] at failed
        cases failed
        obtain ⟨part, shown, broken⟩ := exists_of_mapM written
        exact Part.breaks_of_lines positive clean shown broken

/-- Without a diagnostic, what is printed are the parts to be shown. -/
theorem shows_of_print {outcome : BlockCode.Outcome} (printed : print s source = .ok outcome)
    (none : ∀ c d, Compilation.ofSource source = .ok c → d ∉ c.diagnostics) :
    ∃ c tree parts, Compilation.ofSource source = .ok c ∧ c.Clean source tree ∧
      List.Forall₂ (Part.Shows c s.maxSteps) s.shown parts ∧
      outcome = ⟨0, unlines ([""].intercalate parts), ""⟩ := by
  have made := compiles_ofSource source
  cases compiled : Compilation.ofSource source with
  | error failure =>
    rw [print, compiled] at printed
    cases printed
  | ok c =>
    rw [compiled] at made
    cases made with
    | @rejected _ r diagnosed _ =>
      exact absurd (show r.diagnostic ∈ c.diagnostics by simp [diagnosed]) (none c _ compiled)
    | @clean _ tree clean =>
      rw [print_clean compiled clean] at printed
      cases written : s.shown.mapM (Part.lines c s.maxSteps) with
      | error e =>
        rw [written] at printed
        cases printed
      | ok parts =>
        -- All of the parts were made, so each of them is shown.
        rw [written] at printed
        cases printed
        have shown := (forall₂_of_mapM written).imp fun part lines => Part.shows_of_lines clean
        exact ⟨c, tree, parts, rfl, clean, shown, rfl⟩

/-- With a source text that was read, the command goes on to print. -/
theorem run_eq_print {arguments : List String} {folder : Folder} {bytes : List UInt8}
    (planned : plan arguments = .compile s) (read : folder.read (.ofText s.input) = .ok bytes)
    (text : sourceText bytes = .ok source) : run arguments folder = print s source := by
  -- The plan, the file and its text are all there, so nothing stops the command before it prints.
  rw [run, planned]
  simp [proceed, read, Except.bind, text]

/-- A text with a diagnostic is reported in one line about that. -/
theorem print_diagnosed {d : Diagnostic} (compiled : Compilation.ofSource source = .ok c)
    (reported : d ∈ c.diagnostics) :
    print s source = .ok ⟨1, "", d.line ++ "\n"⟩ ∧ IsLine d.line := by
  have made := compiles_ofSource source
  rw [compiled] at made
  cases made with
  | rejected diagnosed inline =>
    -- There is but one diagnostic, and its text has no line feed.
    rw [diagnosed, List.mem_singleton] at reported
    subst reported
    exact ⟨print_rejected compiled diagnosed, Diagnostic.isLine_line inline⟩
  | clean clean => simp [clean.diagnosed] at reported

variable {asks : List Ask} {arguments : List String} {path : String} {folder : Folder}
  {bytes : List UInt8}

/-- With one file, a positive cap and any options, the file is read and printed with the settings
that were asked for. -/
theorem run_spelled (spells : Spells asks arguments) (single : Ask.inputs asks = [path])
    (positive : 0 < Ask.lastCap asks) (zeroless : '\x00' ∉ path.toList)
    (read : Folder.read folder (.ofText path) = .ok bytes) (text : sourceText bytes = .ok source) :
    run arguments folder = print (.asked path asks) source := by
  -- The last way that a plan can go is the one for a single file.
  have planned : plan arguments = .compile (.asked path asks) :=
    ((plan_spelled spells).2.2 path single).2 positive zeroless
  exact run_eq_print planned read text

/-- The command prints all or nothing, whatever options it is called with. What is on its streams,
when they are written line by line, is its outcome, or nothing if it breaks off. A text with a
diagnostic is reported in one line about that and by the status. The command breaks off only for
numbers with too many digits. Otherwise the parts that were asked for are printed in their order,
with an empty line between them; all their lines are lines, so that the parts can be read back, also
those that are empty. -/
theorem run_all_or_nothing (spells : Spells asks arguments) (single : Ask.inputs asks = [path])
    (positive : 0 < Ask.lastCap asks) (zeroless : '\x00' ∉ path.toList)
    (read : Folder.read folder (.ofText path) = .ok bytes) (text : sourceText bytes = .ok source) :
    (printing (.asked path asks) source).run ⟨"", ""⟩ = told (run arguments folder) ∧
    (∀ c d, Compilation.ofSource source = .ok c → d ∈ c.diagnostics →
      run arguments folder = .ok ⟨1, "", d.line ++ "\n"⟩ ∧ IsLine d.line) ∧
    (∀ e, run arguments folder = .error e → Breaks (.asked path asks) source e) ∧
    ∀ outcome, run arguments folder = .ok outcome →
      (∀ c d, Compilation.ofSource source = .ok c → d ∉ c.diagnostics) →
      ∃ c parts, Compilation.ofSource source = .ok c ∧
        List.Forall₂ (Part.Shows c (Ask.lastCap asks)) (Settings.asked path asks).shown parts ∧
        outcome = ⟨0, unlines ([""].intercalate parts), ""⟩ ∧
        (∀ part ∈ parts, ∀ line ∈ part, IsLine line) ∧ readParts outcome.out = parts := by
  -- The options come to settings with a positive cap, and all is about what these print.
  rw [run_spelled spells single positive zeroless read text]
  refine ⟨run_printing _ source, fun c d => print_diagnosed, fun e => breaks_of_print positive, ?_⟩
  intro outcome printed none
  obtain ⟨c, tree, parts, compiled, clean, shown, rfl⟩ := shows_of_print printed none
  obtain ⟨each, separate⟩ := readParts_shown clean shown
  exact ⟨c, parts, compiled, shown, rfl, each, separate⟩

/-- Arguments that ask for every part, with options cut short and a cap that is replaced. -/
def demoArguments : List String :=
  ["--by", "demo.mc", "--tokens", "--max-steps", "0", "--output", "--ast", "--max=500"]

/-- What these arguments ask for. -/
def demoAsks : List Ask :=
  [.part .code, .input "demo.mc", .part .tokens, .cap 0, .part .output, .part .tree, .cap 500]

/-- The bytes of a text of plain letters. -/
def demoBytes (source : String) : List UInt8 := source.toList.map fun c => c.toNat.toUInt8

/-- A folder with one file. -/
def demoFolder (source : String) : Folder := [("demo.mc", .file (demoBytes source))]

/-- The file is found in the folder. -/
theorem read_demoFolder (source : String) :
    Folder.read (demoFolder source) (.ofText "demo.mc") = .ok (demoBytes source) := by
  -- The name of the file is a path of one step from the folder.
  have path : SourcePath.ofText "demo.mc" = ⟨"", ["demo.mc"]⟩ := by decide +kernel
  rw [path]
  rfl

/-- A program that prints a number with too many digits. -/
def longSource : String :=
  "int n; n = 9; int i; while (i < 13) \x7b n = n * n; i = i + 1; \x7d print(n);"

/-- The parts of a small program. -/
def demoParts : List (List String) := [
  -- Tokens, tree, code and output, in this order.
  ["1:1 INT 'int'", "1:5 IDENT 'n'", "1:6 SEMI ';'", "1:8 PRINT 'print'", "1:13 LPAREN '('",
    "1:14 IDENT 'n'", "1:16 MINUS '-'", "1:18 NUMBER '7'", "1:19 RPAREN ')'", "1:20 SEMI ';'"],
  ["Program", "  VarDecl n", "  Print", "    Binary -", "      Identifier n", "      Literal 7"],
  ["0000  PUSH_INT      0      ; init n", "0001  STORE         0",
    "0002  LOAD          0      ; load n", "0003  PUSH_INT      7", "0004  SUB", "0005  PRINT",
    "0006  HALT"],
  ["-7"]]

/-- A program is shown in all its parts; without its declaration nothing is shown but what is wrong
with it; and nothing at all is written if a number has too many digits. -/
theorem run_all_or_nothing_demo :
    run demoArguments (demoFolder "int n; print(n - 7);") =
      .ok ⟨0, unlines ([""].intercalate demoParts), ""⟩ ∧
    (∃ c, Compilation.ofSource "int n; print(n - 7);" = .ok c ∧
      List.Forall₂ (Part.Shows c 500) [.tokens, .tree, .code, .output] demoParts) ∧
    (printing (.asked "demo.mc" demoAsks) "print(n);").run ⟨"", ""⟩ =
      .ok 1 ⟨"", "Error: Use of undeclared variable 'n' at line 1, col 7\n"⟩ ∧
    (printing (.asked "demo.mc" demoAsks) longSource).run ⟨"", ""⟩ =
      .error (.run (.fault (.numeral .unprintable))) ⟨"", ""⟩ := by
  -- The last option is spelled with its value.
  have last : Spells [.cap 500] ["--max=500"] :=
    @Spells.capWith "--max" "500" 500 [] [] ⟨by decide, by decide⟩ (by decide +kernel) .nil
  have spells : Spells demoAsks demoArguments :=
    .part ⟨by decide, by decide⟩ <| .input (by decide) <| .part ⟨by decide, by decide⟩ <|
      .cap ⟨by decide, by decide⟩ (by decide) (by decide +kernel) <|
      .part ⟨by decide, by decide⟩ <| .part ⟨by decide, by decide⟩ last
  have printed : run demoArguments (demoFolder "int n; print(n - 7);") =
      .ok ⟨0, unlines ([""].intercalate demoParts), ""⟩ := by decide +kernel
  have rejected : run demoArguments (demoFolder "print(n);") =
      .ok ⟨1, "", "Error: Use of undeclared variable 'n' at line 1, col 7\n"⟩ := by decide +kernel
  have broken : run demoArguments (demoFolder longSource) =
      .error (.run (.fault (.numeral .unprintable))) := by decide +kernel
  have silent : (Compilation.ofSource "int n; print(n - 7);").map (·.diagnostics) = .ok [] := by
    decide +kernel
  have general := fun source => @run_all_or_nothing source demoAsks demoArguments "demo.mc"
    (demoFolder source) (demoBytes source) spells rfl (by decide) (by decide)
    (read_demoFolder source)
  refine ⟨printed, ?_, ?_, ?_⟩
  · have none : ∀ c d, Compilation.ofSource "int n; print(n - 7);" = .ok c → d ∉ c.diagnostics := by
      intro c d compiled
      rw [compiled] at silent
      simp [Except.ok.inj silent]
    obtain ⟨c, parts, compiled, shown, _, _, separate⟩ :=
      (general _ (by decide +kernel)).2.2.2 _ printed none
    have each : ∀ part ∈ demoParts, ∀ line ∈ part, IsLine line := by decide +kernel
    have same : parts = demoParts := separate.symm.trans (readParts_unlines each (by decide))
    subst same
    exact ⟨c, compiled, shown⟩
  · rw [(general _ (by decide +kernel)).1, rejected]
    rfl
  · rw [(general _ (by decide +kernel)).1, broken]
    rfl

end Command

end BlockCode
