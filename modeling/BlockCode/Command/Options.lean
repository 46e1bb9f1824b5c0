import BlockCode.Machine
import BlockCode.Text.Digit
import BlockCode.Text.Quoted

/-! The arguments of the command line. Options may stand anywhere, long ones may be cut short, and a
double dash ends them. -/

namespace BlockCode

/-- What the command is asked to do. -/
structure Settings where
  input : String
  tokens : Bool
  ast : Bool
  bytecode : Bool
  output : Bool
  maxSteps : Int
deriving DecidableEq, Repr

/-- Why the arguments are no settings. -/
inductive Usage where
  /-- Help was asked for. -/
  | help
  /-- The arguments are wrong. -/
  | wrong (message : String)
  /-- The arguments are right, but the cap was given no value. -/
  | emptyCap
deriving DecidableEq, Repr

namespace Usage

/-- How the command is called. -/
def summary : String :=
  -- The lines are wrapped at a fixed width, and the option with a value stands alone.
  "usage: minic [-h] [--tokens] [--ast] [--bytecode] [--output]\n" ++
  "             [--max-steps MAX_STEPS]\n" ++
  "             input\n"

/-- What the command does and takes. -/
def explanation : String :=
  -- The summary is repeated in front of the explanation.
  summary ++
  "\nCompile and run a MiniC program on the bytecode VM\n" ++
  "\npositional arguments:\n" ++
  "  input                 Source file (.mc)\n" ++
  "\noptions:\n" ++
  "  -h, --help            show this help message and exit\n" ++
  "  --tokens              Print the token stream\n" ++
  "  --ast                 Print the syntax tree\n" ++
  "  --bytecode            Print the instruction listing\n" ++
  "  --output              Print program output (default when nothing else is\n" ++
  "                        selected)\n" ++
  "  --max-steps MAX_STEPS\n" ++
  s!"                        Instruction cap per run (default: {Machine.defaultCap})\n"

end Usage

/-- The options of the command. -/
inductive Switch where
  | help | tokens | ast | bytecode | output | maxSteps
deriving DecidableEq, Repr

namespace Switch

/-- The spellings of all options, in the order they are searched. -/
def spellings : List (String × Switch) := [
  -- The order matters where several options begin alike: they are listed in it.
  ("-h", help), ("--help", help), ("--tokens", tokens), ("--ast", ast), ("--bytecode", bytecode),
  ("--output", output), ("--max-steps", maxSteps)]

/-- How messages name an option: by all its spellings. -/
def title (s : Switch) : String :=
  String.intercalate "/" ((spellings.filter fun entry => entry.2 = s).map (·.1))

end Switch

/-- What an argument is taken for. -/
inductive Argument where
  /-- The mark that no options follow. -/
  | separator
  /-- Something that is no option. -/
  | plain (text : String)
  /-- An option. -/
  | option (switch : Switch)
  /-- An option with a value in the same argument. -/
  | optionWith (switch : Switch) (value : String)
  /-- The short help option with letters behind it, which may be further short options. -/
  | cluster (letters : List Char)
  /-- Something that looks like an option and is none. -/
  | unknown (text : String)
deriving DecidableEq, Repr

namespace Argument

/-- The text in front of the first equals sign and the text behind it, if there is one. -/
def splitValue (cs : List Char) : List Char × Option (List Char) :=
  -- Without an equals sign there is no value, which is different from an empty one.
  match cs.dropWhile (· != '=') with
  | [] => (cs, none)
  | _ :: value => (cs.takeWhile (· != '='), some value)

/-- Tells whether a text is a minus with digits, or with digits and a point in front of more digits.
A line feed at the end does not count. -/
def isNegativeNumber (cs : List Char) : Bool :=
  -- Only one line feed at the end is passed over.
  match (if cs.getLast? = some '\n' then cs.dropLast else cs) with
  | '-' :: body =>
    match body.dropWhile Text.isDecimal with
    | [] => !body.isEmpty
    | '.' :: fraction => !fraction.isEmpty && fraction.all Text.isDecimal
    | _ => false
  | _ => false

/-- An option that was found, with what was given to it in the same argument. -/
def found (switch : Switch) : Option (List Char) → Argument
  -- An empty value is still a value.
  | none => option switch
  | some value => optionWith switch (String.ofList value)

/-- The long options that start with a text. -/
def abbreviated (head : List Char) : List (String × Switch) :=
  Switch.spellings.filter fun entry => head.isPrefixOf entry.1.toList

/-- What an argument that is no option is taken for. -/
def leftOver (text : String) : Argument :=
  if isNegativeNumber text.toList || text.toList.contains ' ' then plain text else unknown text

/-- What an argument before the separator is taken for. Fails if it could be several options. -/
def classify (text : String) : Except Usage Argument :=
  -- Both the whole argument and the text in front of an equals sign are looked up.
  let (head, value) := splitValue text.toList
  match text.toList with
  | '-' :: '-' :: _ =>
    match Switch.spellings.lookup text, Switch.spellings.lookup (String.ofList head) with
    | some switch, _ => .ok (option switch)
    | none, some switch => .ok (found switch value)
    | none, none =>
      -- A beginning of an option is enough if it is the beginning of one only.
      match abbreviated head with
      | [] => .ok (leftOver text)
      | [(_, switch)] => .ok (found switch value)
      | several =>
        let names := String.intercalate ", " (several.map (·.1))
        .error (.wrong s!"ambiguous option: {text} could match {names}")
  -- The short option may be repeated in one argument, or be given something it does not take.
  | ['-', 'h'] => .ok (option .help)
  | ['-', 'h', '='] => .ok (optionWith .help "")
  | '-' :: 'h' :: '=' :: letters | '-' :: 'h' :: letters => .ok (cluster letters)
  | '-' :: _ :: _ => .ok (leftOver text)
  | _ => .ok (plain text)

/-- What all arguments are taken for; behind the first separator nothing is an option. -/
def classifyAll : List String → Except Usage (List Argument)
  | [] => .ok []
  | text :: rest =>
    -- The separator is kept, since it is used up with the input next to it.
    if text = "--" then .ok (separator :: rest.map plain)
    else do
      let first ← classify text
      let others ← classifyAll rest
      return first :: others

/-- The text of an argument that is given as it is. -/
def text : Argument → String
  -- An option that is left over is told by its title, not as it was spelled.
  | separator => "--"
  | plain text | unknown text => text
  | option switch | optionWith switch _ => switch.title
  | cluster letters => String.ofList ('-' :: 'h' :: letters)

end Argument

/-- What has been understood of the arguments so far. -/
structure Understood where
  input : Option String := none
  settings : Settings := ⟨"", false, false, false, false, Machine.defaultCap⟩
  /-- Tells whether the cap was given no value the last time. -/
  emptyCap : Bool := false
  /-- Arguments without a use, in order. -/
  extras : List String := []

namespace Understood

/-- Refuses a value that an option has no use for. -/
def ignored {α : Type} (switch : Switch) (value : String) : Except Usage α :=
  .error (.wrong s!"argument {switch.title}: ignored explicit argument {Text.quoted value}")

/-- The outcome of letters behind the short help option: each has to be the same option again. -/
def clustered {α : Type} : List Char → Except Usage α
  -- Asking for help twice is asking for help.
  | [] => .error .help
  | 'h' :: rest => clustered rest
  | letters => ignored .help (String.ofList letters)

/-- Takes a value for the cap. A double dash is no value but is taken all the same. -/
def takeCap (u : Understood) (value : String) : Except Usage Understood :=
  -- The cap is marked as empty, which a later value takes back.
  if value = "--" then .ok { u with emptyCap := true }
  else
    match Numeral.read value with
    | .ok cap => .ok { u with settings := { u.settings with maxSteps := cap }, emptyCap := false }
    | .error _ =>
      -- What was found is quoted in the message, with its blanks.
      let shown := Text.quoted value
      .error (.wrong s!"argument {Switch.maxSteps.title}: invalid int value: {shown}")

/-- Takes an option without a value. -/
def takeSwitch (u : Understood) : Switch → Except Usage Understood
  -- Options without a value only ever set a flag; the cap has to have one.
  | .help => .error .help
  | .tokens => .ok { u with settings := { u.settings with tokens := true } }
  | .ast => .ok { u with settings := { u.settings with ast := true } }
  | .bytecode => .ok { u with settings := { u.settings with bytecode := true } }
  | .output => .ok { u with settings := { u.settings with output := true } }
  | .maxSteps => .error (.wrong s!"argument {Switch.maxSteps.title}: expected one argument")

/-- Keeps arguments that have no use. -/
def keep (u : Understood) (texts : List String) : Understood :=
  { u with extras := u.extras ++ texts }

/-- Goes through the arguments. The first plain one is the input, together with a separator on
either side of it. -/
def consume (u : Understood) : List Argument → Except Usage Understood
  | [] => .ok u
  -- The cap takes the argument behind it, if that is a plain one.
  | .option .maxSteps :: .plain value :: rest => do
    let u ← u.takeCap value
    u.consume rest
  | .option switch :: rest => do
    let u ← u.takeSwitch switch
    u.consume rest
  | .optionWith .maxSteps value :: rest => do
    let u ← u.takeCap value
    u.consume rest
  | .optionWith switch value :: _ => ignored switch value
  | .cluster letters :: _ => clustered letters
  | .unknown text :: rest => (u.keep [text]).consume rest
  -- A separator right behind the input is used up with it.
  | .plain text :: .separator :: rest =>
    match u.input with
    | none => { u with input := some text }.consume rest
    | some _ => .ok (u.keep (text :: "--" :: rest.map Argument.text))
  | .plain text :: rest =>
    match u.input with
    | none => { u with input := some text }.consume rest
    | some _ => (u.keep [text]).consume rest
  -- Behind a separator the first argument is the input, and all others are too many.
  | .separator :: .plain text :: rest =>
    match u.input with
    | none => .ok ({ u with input := some text }.keep (rest.map Argument.text))
    | some _ => .ok (u.keep ("--" :: text :: rest.map Argument.text))
  | .separator :: rest => .ok (u.keep ("--" :: rest.map Argument.text))

/-- The settings that were understood; a missing input is told before anything that is too much. -/
def finish (u : Understood) : Except Usage Settings :=
  match u.input with
  | none => .error (.wrong "the following arguments are required: input")
  | some input =>
    -- What is too much is told before an empty cap.
    if !u.extras.isEmpty then
      .error (.wrong ("unrecognized arguments: " ++ String.intercalate " " u.extras))
    else if u.emptyCap then .error .emptyCap
    else .ok { u.settings with input := input }

end Understood

/-- The settings that some arguments ask for. -/
def Settings.ofArguments (arguments : List String) : Except Usage Settings := do
  -- What an argument is does not depend on the ones before it, but how it is used does.
  let classified ← Argument.classifyAll arguments
  let understood ← Understood.consume {} classified
  understood.finish

end BlockCode
