import BlockCode.Command.Options
import BlockCode.Command.Source
import BlockCode.Compilation
import BlockCode.Instruction.Listing
import BlockCode.Node.Outline

/-! The command: compiles one file and prints the parts that were asked for, all of them or none. -/

namespace BlockCode

/-- What the command leaves behind. -/
structure Outcome where
  status : Nat
  out : String
  err : String
deriving DecidableEq, Repr

/-- Why the command breaks off. -/
inductive CommandFailure where
  /-- The cap has no value. -/
  | emptyCap
  /-- The path holds a zero character. -/
  | zeroInPath
  /-- The source text does not compile, and not because it is wrong. -/
  | failure (failure : Failure)
  /-- A number cannot be shown. -/
  | numeral (error : NumeralError)
  /-- The run went wrong. -/
  | run (failure : RunFailure)
deriving DecidableEq, Repr

/-- What is said when the command breaks off. -/
def CommandFailure.message : CommandFailure → String
  -- Faults of the parts are passed on in their own words.
  | emptyCap => "the cap has no value"
  | zeroInPath => "embedded null byte"
  | failure f => f.message
  | numeral e => e.message
  | run (.failure f) => f.message
  | run .cap => capMessage
  | run (.fault f) => f.message?.getD ""

namespace Command

/-- Lines as text, each with its line end. -/
def unlines (lines : List String) : String :=
  String.join (lines.map (· ++ "\n"))

/-- Ends without success and says why. -/
def refuse (status : Nat) (lines : List String) : Outcome :=
  ⟨status, "", unlines lines⟩

/-- What is to be done for some arguments. -/
inductive Plan where
  /-- Nothing more, the outcome is known. -/
  | finish (outcome : Outcome)
  /-- Nothing at all. -/
  | breakOff (failure : CommandFailure)
  /-- The input file is read and compiled. -/
  | compile (settings : Settings)
deriving DecidableEq, Repr

/-- What some arguments ask for. The cap is looked at before the file. -/
def plan (arguments : List String) : Plan :=
  match Settings.ofArguments arguments with
  | .error .help => .finish ⟨0, Usage.explanation, ""⟩
  -- The usage is repeated in front of what is wrong with the arguments.
  | .error (.wrong message) =>
    .finish ⟨2, "", Usage.summary ++ s!"minic: error: {message}\n"⟩
  | .error .emptyCap => .breakOff .emptyCap
  | .ok s =>
    -- The cap is refused before the file is touched, and a name with a zero after that.
    if s.maxSteps ≤ 0 then .finish (refuse 1 ["Error: --max-steps must be positive"])
    else if s.input.toList.contains '\x00' then .breakOff .zeroInPath
    else .compile s

/-- The line of a token. -/
def tokenLine (t : Token) : String :=
  s!"{t.position.line}:{t.position.column} {t.kind.label} '{t.lexeme}'"

/-- The part with the tokens. -/
def tokenSection (c : Compilation) : List String :=
  (c.tokens.filter (·.kind ≠ .finish)).map tokenLine

/-- The part with the syntax tree. -/
def treeSection (c : Compilation) : Except CommandFailure (List String) :=
  -- A program without a tree has nothing to show, and no error either.
  match c.tree with
  | none => .ok []
  | some tree => (tree.outline 0).mapError .numeral

/-- The part with the code. -/
def codeSection (c : Compilation) : Except CommandFailure (List String) :=
  (Instruction.listing c.code).mapError .numeral

/-- The part with what the program prints. -/
def outputSection (c : Compilation) (cap : Int) : Except CommandFailure (List String) :=
  -- A fault of the machine ends the command, and its lines are lost.
  match runCode c.code cap with
  | .ok run => .ok run.final.output.toList
  | .error failure => .error (.run failure)

/-- A part if it was asked for. -/
def chosen (wanted : Bool) (lines : Except CommandFailure (List String)) :
    Except CommandFailure (List (List String)) :=
  if wanted then lines.map fun lines => [lines] else .ok []

/-- The parts that were asked for; what the program prints is shown when nothing else is. -/
def sections (s : Settings) (c : Compilation) : Except CommandFailure (List (List String)) := do
  -- The order of the parts is fixed, whatever the order of the options was.
  let tokens ← chosen s.tokens (.ok (tokenSection c))
  let tree ← chosen s.ast (treeSection c)
  let code ← chosen s.bytecode (codeSection c)
  let output ←
    chosen (s.output || !(s.tokens || s.ast || s.bytecode)) (outputSection c s.maxSteps)
  return tokens ++ tree ++ code ++ output

/-- Compiles a source text and prints the parts that were asked for, with an empty line between. -/
def print (s : Settings) (source : String) : Except CommandFailure Outcome :=
  match Compilation.ofSource source with
  | .error failure => .error (.failure failure)
  | .ok c =>
    -- Diagnostics go to the other stream, and then nothing is shown at all.
    if c.ok then do
      let parts ← sections s c
      return ⟨0, String.intercalate "\n" (parts.map unlines), ""⟩
    else .ok (refuse 1 (c.diagnostics.map (·.line)))

/-- Goes on with what was read from the input file. -/
def proceed (s : Settings) (bytes : Except ReadFault (List UInt8)) :
    Except CommandFailure Outcome :=
  match bytes.bind sourceText with
  | .ok source => print s source
  | .error fault =>
    -- The path is quoted as it was given, and once more by the fault.
    let reason := fault.message (.ofText s.input)
    .ok (refuse 1 [s!"Error: cannot read '{s.input}': {reason}"])

/-- Runs the command in a folder. -/
def run (arguments : List String) (folder : Folder) : Except CommandFailure Outcome :=
  -- Only a plan to compile looks at the folder.
  match plan arguments with
  | .finish outcome => .ok outcome
  | .breakOff failure => .error failure
  | .compile s => proceed s (folder.read (.ofText s.input))

end Command

end BlockCode
