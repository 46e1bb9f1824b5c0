import BlockCode.Command
import Mathlib.Data.List.Basic

/-! What the arguments of the command come to. What can be asked for on the command line is kept
apart from the texts that ask for it: options may be repeated, cut short and mixed with the input in
any order, and the settings are read off from what was asked for. -/

namespace BlockCode

/-- What the command can show of a program. -/
inductive Part where
  | tokens
  | tree
  | code
  | output
deriving DecidableEq, Repr

/-- The option that asks for a part. -/
def Part.flag : Part → String
  -- These are the full names; shorter ones are understood as well.
  | tokens => "--tokens"
  | tree => "--ast"
  | code => "--bytecode"
  | output => "--output"

/-- The switch of that option. -/
def Part.switch : Part → Switch
  -- The words of the settings are not those of the parts.
  | tokens => .tokens
  | tree => .ast
  | code => .bytecode
  | output => .output

/-- Something that is asked for on the command line. -/
inductive Ask where
  /-- The file to be compiled. -/
  | input (path : String)
  /-- A part to be shown. -/
  | part (part : Part)
  /-- A cap on the steps of the run. -/
  | cap (steps : Int)
deriving DecidableEq, Repr

namespace Ask

/-- The files that are asked for. -/
def inputs : List Ask → List String
  | [] => []
  | input path :: asks => path :: inputs asks
  -- What is asked for beside it does not matter.
  | part _ :: asks | cap _ :: asks => inputs asks

/-- The caps that are asked for. -/
def caps : List Ask → List Int
  | [] => []
  | cap steps :: asks => steps :: caps asks
  -- All of them are listed, though the last one alone counts.
  | input _ :: asks | part _ :: asks => caps asks

/-- The cap that counts: the last one, or the default if there is none. -/
def lastCap (asks : List Ask) : Int := (caps asks).getLastD Machine.defaultCap

end Ask

/-- A text that does not begin like an option. -/
def Bare (text : String) : Prop := text.toList.head? ≠ some '-'

instance (text : String) : Decidable (Bare text) := inferInstanceAs (Decidable (_ ≠ _))

/-- A long option may be cut short, as long as its first letter is there. -/
structure CutShort (text option : String) : Prop where
  start : text.toList <+: option.toList
  long : 3 ≤ text.toList.length

/-- The arguments that ask for something in its order. -/
inductive Spells : List Ask → List String → Prop where
  | nil : Spells [] []
  | input {path : String} {asks : List Ask} {arguments : List String} (bare : Bare path)
      (others : Spells asks arguments) : Spells (.input path :: asks) (path :: arguments)
  | part {part : Part} {text : String} {asks : List Ask} {arguments : List String}
      (short : CutShort text part.flag) (others : Spells asks arguments) :
      Spells (.part part :: asks) (text :: arguments)
  | cap {text value : String} {steps : Int} {asks : List Ask} {arguments : List String}
      (short : CutShort text "--max-steps") (bare : Bare value)
      (read : Numeral.read value = .ok steps) (others : Spells asks arguments) :
      Spells (.cap steps :: asks) (text :: value :: arguments)
  | capWith {text value : String} {steps : Int} {asks : List Ask} {arguments : List String}
      (short : CutShort text "--max-steps") (read : Numeral.read value = .ok steps)
      (others : Spells asks arguments) :
      Spells (.cap steps :: asks) ((text ++ "=" ++ value) :: arguments)

namespace Argument

variable {text value option : String} {switch : Switch}

/-- A text that does not begin like an option is plain. -/
theorem classify_bare (bare : Bare text) : classify text = .ok (.plain text) := by
  unfold Bare at bare
  unfold classify
  generalize splitValue text.toList = parts
  -- All other cases are about a minus at the start.
  dsimp only
  split <;> simp_all

/-- A text that does not begin like an option ends no options. -/
theorem ne_separator_of_bare (bare : Bare text) : text ≠ "--" := by
  -- The two dashes begin like an option.
  rintro rfl
  exact bare rfl

/-- A way to cut an option short is one of its first parts. -/
theorem exists_take (short : CutShort text option) :
    ∃ n, 3 ≤ n ∧ n ≤ option.toList.length ∧ text = String.ofList (option.toList.take n) := by
  -- The length of the text tells how much of the option is left.
  refine ⟨text.toList.length, short.long, short.start.length_le, ?_⟩
  rw [← List.prefix_iff_eq_take.mp short.start, String.ofList_toList]

/-- An option that is cut short is taken for that option. -/
theorem classify_cutShort (listed : (option, switch) ∈ Switch.spellings)
    (short : CutShort text option) : classify text = .ok (.option switch) := by
  -- There are few options, with few letters each.
  have all : ∀ entry ∈ Switch.spellings, ∀ n ≤ entry.1.toList.length, 3 ≤ n →
      classify (String.ofList (entry.1.toList.take n)) = .ok (.option entry.2) := by
    decide +kernel
  obtain ⟨n, long, within, rfl⟩ := exists_take short
  exact all _ listed n within long

/-- An option that is cut short does not end the options. -/
theorem ne_separator_of_cutShort (short : CutShort text option) : text ≠ "--" := by
  -- It has two characters, and an option that is cut short has more.
  rintro rfl
  exact absurd short.long (by decide)

/-- What is in front of an equals sign is divided from what is behind it. -/
theorem splitValue_append {head : List Char} (plain : ∀ c ∈ head, c ≠ '=') (rest : List Char) :
    splitValue (head ++ '=' :: rest) = (head, some rest) := by
  -- No equals sign comes earlier, so the text is divided at this one.
  have before : ∀ c ∈ head, (c != '=') = true := by simpa using plain
  have dropped : (head ++ '=' :: rest).dropWhile (· != '=') = '=' :: rest := by
    rw [List.dropWhile_append_of_pos before, List.dropWhile_cons_of_neg (by simp)]
  have taken : (head ++ '=' :: rest).takeWhile (· != '=') = head := by
    rw [List.takeWhile_append_of_pos before, List.takeWhile_cons_of_neg (by simp), List.append_nil]
  rw [splitValue, dropped, taken]

/-- A text with an equals sign is no option as it is. -/
theorem lookup_with (head rest : List Char) :
    Switch.spellings.lookup (String.ofList (head ++ '=' :: rest)) = none := by
  -- No option is spelled with an equals sign.
  have plain : ∀ entry ∈ Switch.spellings, '=' ∉ entry.1.toList := by decide +kernel
  rw [List.lookup_eq_none_iff]
  intro entry listed
  rw [bne_iff_ne]
  intro same
  apply plain entry listed
  simp [← same]

/-- The cap, cut short, with a value behind an equals sign is taken for the cap with that value. -/
theorem classify_capWith (short : CutShort text "--max-steps") :
    classify (text ++ "=" ++ value) = .ok (.optionWith .maxSteps value) := by
  obtain ⟨n, long, within, rfl⟩ := exists_take short
  -- The text in front is found as it is or as the start of one option only.
  have named : ∀ n ≤ "--max-steps".toList.length, 3 ≤ n →
      Switch.spellings.lookup (String.ofList ("--max-steps".toList.take n)) = some .maxSteps ∨
        Switch.spellings.lookup (String.ofList ("--max-steps".toList.take n)) = none ∧
          abbreviated ("--max-steps".toList.take n) = [("--max-steps", .maxSteps)] := by
    decide +kernel
  have opened : ∀ n ≤ "--max-steps".toList.length, 3 ≤ n →
      ("--max-steps".toList.take n).take 2 = ['-', '-'] := by
    decide +kernel
  have named := named n within long
  have dashes := opened n within long
  have plain : ∀ c ∈ "--max-steps".toList.take n, c ≠ '=' := fun c member =>
    ne_of_mem_of_not_mem (List.mem_of_mem_take member) (by decide +kernel)
  generalize "--max-steps".toList.take n = head at plain dashes named
  obtain ⟨tail, rfl⟩ : ∃ tail, head = '-' :: '-' :: tail := by
    rw [← List.take_append_drop 2 head, dashes]
    exact ⟨head.drop 2, rfl⟩
  have text : String.ofList ('-' :: '-' :: tail) ++ "=" ++ value =
      String.ofList ('-' :: '-' :: tail ++ '=' :: value.toList) := by
    apply String.toList_injective
    simp
  rw [text, classify, String.toList_ofList, splitValue_append plain, lookup_with]
  rcases named with named | ⟨unnamed, single⟩
  · simp only [List.cons_append, named, found, String.ofList_toList]
  · simp only [List.cons_append, unnamed, single, found, String.ofList_toList]

/-- The cap with its value does not end the options. -/
theorem ne_separator_of_capWith (short : CutShort text option) : text ++ "=" ++ value ≠ "--" := by
  -- There is more in front of the equals sign.
  intro same
  have long := short.long
  have size : (text ++ "=" ++ value).toList.length = 2 := by rw [same]; rfl
  simp only [String.toList_append, List.length_append] at size
  omega

end Argument

namespace Understood

variable {u : Understood}

/-- Takes what is asked for. -/
def take (u : Understood) : Ask → Understood
  -- Only one input is taken, and the others are left over.
  | .input path => if u.input.isNone then { u with input := some path } else u.keep [path]
  | .part .tokens => { u with settings := { u.settings with tokens := true } }
  | .part .tree => { u with settings := { u.settings with ast := true } }
  | .part .code => { u with settings := { u.settings with bytecode := true } }
  | .part .output => { u with settings := { u.settings with output := true } }
  -- A cap that is given drops the memory of an empty one.
  | .cap steps => { u with settings := { u.settings with maxSteps := steps }, emptyCap := false }

/-- A number is taken as the cap. -/
theorem takeCap_read {value : String} {steps : Int} (read : Numeral.read value = .ok steps) :
    u.takeCap value = .ok (u.take (.cap steps)) := by
  -- The separator is refused as a cap, but it is no number either.
  have number : value ≠ "--" := by
    rintro rfl
    have none : (Numeral.read "--").toOption = none := by decide +kernel
    simp [read, Except.toOption] at none
  rw [takeCap, if_neg number, read]
  rfl

section Consume

variable {others : List Argument}

/-- The option of a part is used up. -/
theorem consume_part (part : Part) :
    u.consume (.option part.switch :: others) = (u.take (.part part)).consume others := by
  cases part <;> rfl

/-- A plain argument is the input, or one too many. -/
theorem consume_input (path : String) (free : .separator ∉ others) :
    u.consume (.plain path :: others) = (u.take (.input path)).consume others := by
  -- A separator right behind the argument would be used up with it.
  have apart : ∀ more, others = .separator :: more → False := by
    rintro more rfl
    simp at free
  rw [consume, take]
  · cases u.input <;> rfl
  · exact apart

/-- The cap is used up with the plain argument behind it. -/
theorem consume_cap {value : String} {steps : Int} (read : Numeral.read value = .ok steps) :
    u.consume (.option .maxSteps :: .plain value :: others) =
      (u.take (.cap steps)).consume others := by
  -- The value is there, so the cap is read from it.
  rw [consume, takeCap_read read]
  rfl

/-- The cap is used up with its value. -/
theorem consume_capWith {value : String} {steps : Int} (read : Numeral.read value = .ok steps) :
    u.consume (.optionWith .maxSteps value :: others) = (u.take (.cap steps)).consume others := by
  -- As for a cap and an argument behind it, with the value in one piece with the option.
  rw [consume, takeCap_read read]
  rfl

end Consume

/-- What has been understood when everything that is asked for has been taken. -/
theorem foldl_take (asks : List Ask) (sure : u.emptyCap = false) :
    asks.foldl take u =
      { input := (u.input.toList ++ Ask.inputs asks).head?
        settings := {
          input := u.settings.input
          tokens := u.settings.tokens || decide (.part .tokens ∈ asks)
          ast := u.settings.ast || decide (.part .tree ∈ asks)
          bytecode := u.settings.bytecode || decide (.part .code ∈ asks)
          output := u.settings.output || decide (.part .output ∈ asks)
          maxSteps := (Ask.caps asks).getLastD u.settings.maxSteps }
        emptyCap := false
        extras := u.extras ++ (u.input.toList ++ Ask.inputs asks).tail } := by
  induction asks generalizing u with
  | nil =>
    obtain ⟨input, settings, emptyCap, extras⟩ := u
    subst sure
    cases input <;> simp [Ask.inputs, Ask.caps]
  | cons ask asks ih =>
    rw [List.foldl_cons]
    cases ask with
    | input path =>
      -- The first file is the input, and every other one is too many.
      cases given : u.input with
      | none => simp [take, given, ih, sure, Ask.inputs, Ask.caps]
      | some first => simp [take, keep, given, ih, sure, Ask.inputs, Ask.caps]
    | part part =>
      rw [ih (by cases part <;> exact sure)]
      cases part <;> simp [take, Ask.inputs, Ask.caps]
    | cap steps =>
      rw [ih rfl]
      simp only [take, Ask.inputs, Ask.caps, List.getLastD_cons, List.mem_cons, reduceCtorEq,
        false_or]

end Understood

variable {asks : List Ask} {arguments : List String}

/-- Arguments that ask for something are understood as that. -/
theorem Spells.classified (spells : Spells asks arguments) :
    ∃ classified, Argument.classifyAll arguments = .ok classified ∧ .separator ∉ classified ∧
      ∀ u : Understood, u.consume classified = .ok (asks.foldl Understood.take u) := by
  -- Nothing that is spelled ends the options, so each argument is taken for itself.
  induction spells with
  | nil => exact ⟨[], rfl, by simp, fun _ => rfl⟩
  | @input path asks arguments bare _ ih =>
    obtain ⟨others, taken, free, used⟩ := ih
    refine ⟨.plain path :: others, ?_, by simp [free], fun u => ?_⟩
    · rw [Argument.classifyAll, if_neg (Argument.ne_separator_of_bare bare),
        Argument.classify_bare bare, taken]
      rfl
    · rw [Understood.consume_input path free, used, List.foldl_cons]
  | @part part text asks arguments short _ ih =>
    obtain ⟨others, taken, free, used⟩ := ih
    refine ⟨.option part.switch :: others, ?_, by simp [free], fun u => ?_⟩
    · have listed : (part.flag, part.switch) ∈ Switch.spellings := by cases part <;> decide
      rw [Argument.classifyAll, if_neg (Argument.ne_separator_of_cutShort short),
        Argument.classify_cutShort listed short, taken]
      rfl
    · rw [Understood.consume_part part, used, List.foldl_cons]
  | @cap text value steps asks arguments short bare read _ ih =>
    obtain ⟨others, taken, free, used⟩ := ih
    refine ⟨.option .maxSteps :: .plain value :: others, ?_, by simp [free], fun u => ?_⟩
    · have listed : ("--max-steps", Switch.maxSteps) ∈ Switch.spellings := by decide
      rw [Argument.classifyAll, if_neg (Argument.ne_separator_of_cutShort short),
        Argument.classify_cutShort listed short, Argument.classifyAll,
        if_neg (Argument.ne_separator_of_bare bare), Argument.classify_bare bare, taken]
      rfl
    · rw [Understood.consume_cap read, used, List.foldl_cons]
  | @capWith text value steps asks arguments short read _ ih =>
    obtain ⟨others, taken, free, used⟩ := ih
    refine ⟨.optionWith .maxSteps value :: others, ?_, by simp [free], fun u => ?_⟩
    · rw [Argument.classifyAll, if_neg (Argument.ne_separator_of_capWith short),
        Argument.classify_capWith short, taken]
      rfl
    · rw [Understood.consume_capWith read, used, List.foldl_cons]

/-- The settings with what is asked for. -/
def Settings.asked (path : String) (asks : List Ask) : Settings :=
  -- The order of the asks counts for nothing but the cap, where the last one wins.
  ⟨path, decide (.part .tokens ∈ asks), decide (.part .tree ∈ asks), decide (.part .code ∈ asks),
    decide (.part .output ∈ asks), Ask.lastCap asks⟩

/-- Arguments come to what they ask for: the first file is the input, and others are too many. -/
theorem Settings.ofArguments_spelled (spells : Spells asks arguments) :
    Settings.ofArguments arguments = Understood.finish
      { input := (Ask.inputs asks).head?
        settings := Settings.asked "" asks
        extras := (Ask.inputs asks).tail } := by
  -- The arguments are classified, and then taken one by one from nothing.
  obtain ⟨classified, taken, _, used⟩ := spells.classified
  have understood := used {}
  rw [Understood.foldl_take asks rfl] at understood
  rw [Settings.ofArguments, taken]
  show (Understood.consume {} classified >>= Understood.finish) = _
  rw [understood]
  simp [Bind.bind, Except.bind, Settings.asked, Ask.lastCap]

namespace Command

/-- What is done for arguments that ask for something. Without a file, with several files or with a
cap that is not positive nothing is compiled, and it is told why. With one file and a positive cap
the file is compiled, with the parts and the cap that were asked for. -/
theorem plan_spelled (spells : Spells asks arguments) :
    (Ask.inputs asks = [] → plan arguments = .finish ⟨2, "", Usage.summary ++
      "minic: error: the following arguments are required: input\n"⟩) ∧
    (∀ path extra more, Ask.inputs asks = path :: extra :: more →
      plan arguments = .finish ⟨2, "", Usage.summary ++ ("minic: error: unrecognized arguments: " ++
        String.intercalate " " (extra :: more) ++ "\n")⟩) ∧
    ∀ path, Ask.inputs asks = [path] →
      (Ask.lastCap asks ≤ 0 →
        plan arguments = .finish ⟨1, "", "Error: --max-steps must be positive\n"⟩) ∧
      (0 < Ask.lastCap asks → '\x00' ∉ path.toList →
        plan arguments = .compile (Settings.asked path asks)) := by
  -- Whether there is one file is decided before the cap is looked at.
  unfold plan
  rw [Settings.ofArguments_spelled spells]
  refine ⟨fun none => ?_, fun path extra more several => ?_, fun path single => ⟨?_, ?_⟩⟩
  · simp only [none, Understood.finish, List.head?_nil]
    rfl
  · simp only [several, Understood.finish, List.head?_cons, List.tail_cons, List.isEmpty_cons,
      Bool.not_false, if_true]
    have joined (rest : String) : "minic: error: " ++ ("unrecognized arguments: " ++ rest) =
        "minic: error: unrecognized arguments: " ++ rest := by
      rw [← String.append_assoc]
      rfl
    rw [← joined]
    rfl
  · intro low
    simp [single, Understood.finish, Settings.asked, low, refuse, unlines]
  · intro high clean
    simp [single, Understood.finish, Settings.asked, high, clean]

end Command

end BlockCode
