import Mathlib.Logic.Function.Basic
import BlockCode.Compilation
import BlockCode.Proofs.Instruction.Emission
import BlockCode.Proofs.Scope.Action

/-! Programs do not depend on how their variables are called. With other names, as long as different
ones stay different, the variables have the same slots and the code differs in comments alone; or
resolving stops at the same node. -/

namespace BlockCode

section

variable (r : String → String)

/-- A token with its other name. -/
def Token.renamed (t : Token) : Token := { t with lexeme := r t.lexeme }

namespace Node

mutual

/-- A tree with other names for its variables; its operators stay as they are. -/
def renamed : Node → Node
  -- The marks stay, so each place is still found by its number.
  | program mark body => program mark (renamedAll body)
  | block mark body => block mark (renamedAll body)
  | declare mark name => declare mark (name.renamed r)
  | assign mark name value => assign mark (name.renamed r) value.renamed
  | print mark value => print mark value.renamed
  | choose mark condition yes => choose mark condition.renamed yes.renamed
  | chooseElse mark condition yes no => chooseElse mark condition.renamed yes.renamed no.renamed
  | loop mark condition body => loop mark condition.renamed body.renamed
  -- An operator keeps its token, as it names no variable.
  | binary mark left operator right => binary mark left.renamed operator right.renamed
  | literal mark value => literal mark value
  | use mark name => use mark (name.renamed r)
  | unknown mark variant => unknown mark variant

/-- Some trees with other names for their variables. -/
def renamedAll : List Node → List Node
  | [] => []
  | n :: ns => n.renamed :: renamedAll ns

end

/-- The statements of a tree are renamed with it. -/
theorem body_renamed (n : Node) : (n.renamed r).body = renamedAll r n.body := by
  cases n <;> rfl

/-- A tree stays of its variant. -/
theorem variant_renamed (n : Node) : (n.renamed r).variant = n.variant := by
  cases n <;> rfl

/-- A tree keeps its mark. -/
theorem mark_renamed (n : Node) : (n.renamed r).mark = n.mark := by
  cases n <;> rfl

end Node

/-- An action on its other name. -/
def Action.renamed : Action → Action
  | declare mark name => declare mark (name.renamed r)
  | refer mark name => refer mark (name.renamed r)
  -- Entering and leaving a block names nothing.
  | action => action

/-- The names of a scope replaced. -/
def Scope.renamed (scope : Scope) : Scope := scope.map fun entry => (r entry.1, entry.2)

/-- The names of all open scopes replaced. -/
def ScopeTable.renamed (t : ScopeTable) : ScopeTable :=
  ⟨Scope.renamed r t.inner, t.outer.map (Scope.renamed r), t.slotCount⟩

/-- A symbol with its other name. -/
def Symbol.renamed (s : Symbol) : Symbol := { s with name := r s.name }

/-- What is known about variables, with their other names. -/
def Analysis.renamed (a : Analysis) : Analysis :=
  ⟨a.table.renamed r, a.resolution, a.symbols.map (Symbol.renamed r)⟩

/-- A cause that speaks of a variable, with its other name. -/
def Cause.renamed : Cause → Cause
  | redeclared name => redeclared (r name)
  | undeclared name => undeclared (r name)
  -- The other causes are about tokens and levels.
  | cause => cause

/-- A failure that speaks of a variable, with its other name. -/
def Failure.renamed : Failure → Failure
  | rejected rejection => rejected ⟨rejection.cause.renamed r, rejection.position⟩
  -- A defect names a node or a variant, and no variable.
  | failure => failure

/-- What a step comes to, with other names. -/
def Analysis.renamedStep : Analysis.Step → Analysis.Step
  -- An analysis that failed is renamed like one that did not.
  | .ok a => .ok (a.renamed r)
  | .error e => .error (e.1.renamed r, e.2.renamed r)

end

namespace Scope

variable {r : String → String}

/-- A name is bound in a scope as its other name is in the renamed scope. -/
theorem lookup_renamed (injective : Function.Injective r) (scope : Scope) (name : String) :
    (Scope.renamed r scope).lookup (r name) = scope.lookup name := by
  -- Different names stay different, so the same entry is found.
  induction scope with
  | nil => rfl
  | cons entry scope ih =>
    have same : (r name == r entry.1) = (name == entry.1) := by
      rw [Bool.eq_iff_iff, beq_iff_eq, beq_iff_eq, injective.eq_iff]
    show List.lookup (r name) ((r entry.1, entry.2) :: Scope.renamed r scope) = _
    rw [List.lookup_cons, List.lookup_cons, same, ih]

end Scope

namespace ScopeTable

variable {r : String → String}

/-- A name is found in the innermost block where its other name is. -/
theorem lookup?_renamed (injective : Function.Injective r) (t : ScopeTable) (name : String) :
    (t.renamed r).lookup? (r name) = t.lookup? name := by
  -- The scopes are searched in the same order, and each gives the same answer.
  have scopes : (t.renamed r).inner :: (t.renamed r).outer =
      (t.inner :: t.outer).map (Scope.renamed r) := rfl
  rw [lookup?, lookup?, scopes, List.findSome?_map]
  congr 1
  funext scope
  exact scope.lookup_renamed injective name

/-- A declaration takes the same slot by its other name. -/
theorem declare?_renamed (injective : Function.Injective r) (t : ScopeTable) (name : String) :
    (t.renamed r).declare? (r name) =
      (t.declare? name).map fun found => (found.1, found.2.renamed r) := by
  -- Whether the name is new to the innermost scope does not depend on which name it is.
  have inner : (t.renamed r).inner.lookup (r name) = t.inner.lookup name :=
    t.inner.lookup_renamed injective name
  rw [declare?, declare?, inner]
  cases t.inner.lookup name <;> rfl

/-- As many blocks are open whatever the names. -/
@[simp] theorem depth_renamed (t : ScopeTable) : (t.renamed r).depth = t.depth :=
  List.length_map ..

/-- A block is closed whatever the names. -/
theorem leave?_renamed (t : ScopeTable) :
    (t.renamed r).leave? = t.leave?.map (renamed r) := by
  -- Only the number of the scopes around decides.
  obtain ⟨inner, outer, slotCount⟩ := t
  cases outer <;> rfl

end ScopeTable

namespace Analysis

variable {r : String → String}

/-- An action does with other names what it does with the first ones. -/
theorem perform_renamed (injective : Function.Injective r) (a : Analysis) (action : Action) :
    (a.renamed r).perform (action.renamed r) = renamedStep r (a.perform action) := by
  -- The table is the only part that an action looks at.
  cases action with
  | declare mark name =>
    have declared := a.table.declare?_renamed injective name.lexeme
    show (a.renamed r).declare mark (name.renamed r) = renamedStep r (a.declare mark name)
    simp only [declare, renamed, Token.renamed, declared]
    cases a.table.declare? name.lexeme with
    | none => rfl
    | some found =>
      simp only [Option.map_some, ScopeTable.depth_renamed, renamedStep, renamed, record,
        Array.map_push]
      rfl
  | refer mark name =>
    have found := a.table.lookup?_renamed injective name.lexeme
    show (a.renamed r).refer mark (name.renamed r) = renamedStep r (a.refer mark name)
    simp only [refer, renamed, Token.renamed, found]
    cases a.table.lookup? name.lexeme <;> rfl
  | enter mark => rfl
  | leave mark =>
    have left := a.table.leave?_renamed (r := r)
    show (a.renamed r).leave = renamedStep r a.leave
    simp only [leave, renamed, left]
    cases a.table.leave? <;> rfl
  | refuse mark variant => rfl

/-- Actions do with other names what they do with the first ones. -/
theorem performAll_renamed (injective : Function.Injective r) (a : Analysis)
    (actions : List Action) :
    (a.renamed r).performAll (actions.map (Action.renamed r)) =
      renamedStep r (a.performAll actions) := by
  -- Each action starts from what the one before it has left, renamed.
  induction actions generalizing a with
  | nil => rfl
  | cons action actions ih =>
    rw [List.map_cons, performAll, performAll, perform_renamed injective]
    cases a.perform action with
    | error e => rfl
    | ok a₁ => exact ih a₁

/-- Before anything is seen there is nothing to rename. -/
theorem renamed_empty (r : String → String) : empty.renamed r = empty := by
  simp [renamed, empty, ScopeTable.renamed, ScopeTable.empty, Scope.renamed]

end Analysis

namespace Node

variable (r : String → String)

mutual

/-- A renamed tree has the actions of the tree, renamed. -/
theorem actions_renamed :
    (n : Node) → (n.renamed r).actions = n.actions.map (Action.renamed r)
  -- The names of a tree occur in its actions only through its tokens, which are renamed in place.
  | declare .. | use .. | program .. | unknown .. | literal .. => rfl
  | print _ value => actions_renamed value
  | assign mark name value => by
    rw [renamed, actions, actions, actions_renamed value, List.map_append]
    rfl
  | block mark body => by
    rw [renamed, actions, actions, actionsAll_renamed body, List.map_cons, List.map_append]
    rfl
  | choose _ condition yes => by
    rw [renamed, actions, actions, actions_renamed condition, actions_renamed yes, List.map_append]
  | chooseElse _ condition yes no => by
    rw [renamed, actions, actions, actions_renamed condition, actions_renamed yes,
      actions_renamed no, List.map_append, List.map_append]
  | loop _ condition body => by
    rw [renamed, actions, actions, actions_renamed condition, actions_renamed body,
      List.map_append]
  | binary _ left _ right => by
    rw [renamed, actions, actions, actions_renamed left, actions_renamed right, List.map_append]

/-- Renamed trees have the actions of the trees, renamed. -/
theorem actionsAll_renamed : (ns : List Node) →
    actionsAll (renamedAll r ns) = (actionsAll ns).map (Action.renamed r)
  -- The actions of trees in turn are those of each, put behind each other.
  | [] => rfl
  | n :: ns => by
    rw [renamedAll, actionsAll, actionsAll, actions_renamed n, actionsAll_renamed ns,
      List.map_append]

end

end Node

namespace Analysis

variable {r : String → String}

/-- Resolving a program comes to the same with other names. -/
theorem program_renamed (injective : Function.Injective r) (tree : Node) :
    empty.program (tree.renamed r) = renamedStep r (empty.program tree) := by
  -- A program is walked over as its actions are performed, one behind the other.
  have walked := performAll_renamed injective empty (Node.actionsAll tree.body)
  rw [renamed_empty, ← Node.actionsAll_renamed, ← Node.body_renamed] at walked
  rw [program, program, visitAll_eq_performAll, visitAll_eq_performAll, walked]

/-- Where resolving a program stops, it stops with other names as well. -/
theorem StopsAt.renamed {tree : Node} {place : Nat} {action : Action} {failure : Failure}
    (injective : Function.Injective r) (stops : StopsAt tree place action failure) :
    StopsAt (tree.renamed r) place (action.renamed r) (failure.renamed r) := by
  obtain ⟨there, known, passed, stopped, failed⟩ := stops
  have actions : Node.actionsAll (tree.renamed r).body =
      (Node.actionsAll tree.body).map (Action.renamed r) := by
    rw [Node.body_renamed, Node.actionsAll_renamed]
  refine ⟨?_, known.renamed r, ?_, ?_, ?_⟩
  · rw [actions, List.getElem?_map, there, Option.map_some]
  · -- The actions before the one that fails are renamed with the others.
    rw [actions, ← List.map_take, ← renamed_empty r, performAll_renamed injective, passed]
    rfl
  · rw [perform_renamed injective, stopped]
    rfl
  · rw [program_renamed injective, failed]
    rfl

end Analysis

/-- What the machine reads of an instruction. -/
def Instruction.uncommented (i : Instruction) : Opcode × Option Int := (i.op, i.operand)

namespace Code

/-- Two codes differ in nothing but their comments. -/
def Alike (code code' : Code) : Prop :=
  code'.map Instruction.uncommented = code.map Instruction.uncommented

/-- Patching a jump changes what the machine reads at one address only. -/
theorem map_patch (code : Code) (index : Nat) :
    (code.patch index).map Instruction.uncommented =
      (code.map Instruction.uncommented).modify index fun shown => (shown.1, some code.size) := by
  -- The codes are compared address by address: only one of them is patched.
  apply Array.ext_getElem?
  intro address
  rw [Array.getElem?_map, Code.patch, Array.getElem?_modify, Array.getElem?_modify,
    Array.getElem?_map]
  split
  · cases code[address]? <;> rfl
  · rfl

namespace Alike

variable {code code' : Code}

/-- Codes that differ in comments alone are of one length. -/
theorem size_eq (alike : Alike code code') : code'.size = code.size := by
  simpa using congrArg Array.size alike

/-- Instructions at one address differ in comments alone. -/
theorem getElem?_eq (alike : Alike code code') (address : Nat) :
    code'[address]?.map Instruction.uncommented = code[address]?.map Instruction.uncommented := by
  rw [← Array.getElem?_map, ← Array.getElem?_map, alike]

/-- The same instruction may be appended with different comments. -/
theorem emit (alike : Alike code code') (op : Opcode) (operand : Option Int)
    (comment comment' : Option String) :
    Alike (code.emit op operand comment) (code'.emit op operand comment') := by
  -- The comment is not among what the machine reads.
  unfold Alike Code.emit
  rw [Array.map_push, Array.map_push, alike]
  rfl

/-- A jump gets the same target in both. -/
theorem patch (alike : Alike code code') (index : Nat) :
    Alike (code.patch index) (code'.patch index) := by
  -- The target is the length that both codes have.
  rw [Alike, map_patch, map_patch, alike, alike.size_eq]

end Alike

/-- Two steps of emission come to codes that differ in comments alone, or fail alike. -/
inductive AlikeStep : Step → Step → Prop where
  | done {code code' : Code} (alike : Alike code code') : AlikeStep (.ok code) (.ok code')
  | failed {code code' : Code} (defect : Defect) :
      AlikeStep (.error (defect, code)) (.error (defect, code'))

/-- If both of two steps come to the same, so do they together. -/
theorem AlikeStep.bind {x y : Step} {next next' : Code → Step} (first : AlikeStep x y)
    (following : ∀ code code', Alike code code' → AlikeStep (next code) (next' code')) :
    AlikeStep (x >>= next) (y >>= next') := by
  -- A failure is passed on as it is, and is the same on both sides.
  cases first with
  | done alike => exact following _ _ alike
  | failed defect => exact .failed defect

variable {resolution : Resolution} {r : String → String}

/-- The slot of a node is found by its number, whatever the names. -/
theorem alike_emitSlot {code code' : Code} (alike : Alike code code') (op : Opcode) (n : Node)
    (comment comment' : Option String) :
    AlikeStep (emitSlot resolution code op n comment)
      (emitSlot resolution code' op (n.renamed r) comment') := by
  -- The number and the kind of a node stay, and nothing else of it is used for its slot.
  have same : (n.renamed r).id = n.id := by rw [Node.id, Node.mark_renamed]; rfl
  simp only [emitSlot, Emission.emitSlot, same, Node.variant_renamed]
  cases resolution[n.id]? with
  | none => exact .failed _
  | some slot => exact .done (alike.emit op (some slot) comment comment')

/-- An operator is emitted alike. -/
theorem alike_emitOperator {code code' : Code} (alike : Alike code code') (operator : Token) :
    AlikeStep (code.emitOperator operator) (code'.emitOperator operator) := by
  -- Whether there is an opcode depends on the token alone, which is not renamed here.
  cases known : Operator.ofKind? operator.kind with
  | none =>
    rw [emitOperator_none _ known, emitOperator_none _ known]
    exact .failed _
  | some op =>
    rw [emitOperator_some _ known, emitOperator_some _ known]
    exact .done (alike.emit ..)

mutual

/-- The code of a tree with other names differs in comments alone. -/
theorem alike_ofNode {code code' : Code} (alike : Alike code code') :
    (n : Node) → AlikeStep (ofNode resolution code n) (ofNode resolution code' (n.renamed r))
  | .declare mark name => alike_emitSlot (alike.emit ..) .store (.declare mark name) _ _
  | .assign mark name value =>
    .bind (alike_ofNode alike value) fun _ _ alike =>
      alike_emitSlot alike .store (.assign mark name value) _ _
  | .print _ value =>
    .bind (alike_ofNode alike value) fun _ _ alike => .done (alike.emit ..)
  | .block _ body => alike_ofNodes alike body
  | .choose _ condition yes => by
    rw [Node.renamed, ofNode_choose, ofNode_choose]
    refine .bind (alike_ofNode alike condition) fun _ _ alike => ?_
    -- The jump stands at one address in both codes.
    rw [alike.size_eq]
    exact .bind (alike_ofNode (alike.emit ..) yes) fun _ _ alike => .done (alike.patch _)
  | .chooseElse _ condition yes no => by
    rw [Node.renamed, ofNode_chooseElse, ofNode_chooseElse]
    refine .bind (alike_ofNode alike condition) fun _ _ alike => ?_
    rw [alike.size_eq]
    refine .bind (alike_ofNode (alike.emit ..) yes) fun _ _ alike => ?_
    rw [alike.size_eq]
    exact .bind (alike_ofNode ((alike.emit ..).patch _) no) fun _ _ alike => .done (alike.patch _)
  | .loop _ condition body => by
    rw [Node.renamed, ofNode_loop, ofNode_loop, alike.size_eq]
    refine .bind (alike_ofNode alike condition) fun _ _ alike => ?_
    rw [alike.size_eq]
    exact .bind (alike_ofNode (alike.emit ..) body) fun _ _ alike =>
      .done ((alike.emit ..).patch _)
  | .binary _ left operator right =>
    .bind (alike_ofNode alike left) fun _ _ alike =>
      .bind (alike_ofNode alike right) fun _ _ alike => alike_emitOperator alike operator
  | .literal .. => .done (alike.emit ..)
  | .use mark name => alike_emitSlot alike .load (.use mark name) _ _
  | .program .. => .failed _
  | .unknown .. => .failed _

/-- The code of some trees with other names differs in comments alone. -/
theorem alike_ofNodes {code code' : Code} (alike : Alike code code') : (ns : List Node) →
    AlikeStep (ofNodes resolution code ns) (ofNodes resolution code' (Node.renamedAll r ns))
  -- Along the trees, each starting from codes that are alike already.
  | [] => .done alike
  | n :: ns => .bind (alike_ofNode alike n) fun _ _ alike => alike_ofNodes alike ns

end

end Code

namespace Machine

open Code

variable {code code' : Code}

/-- The machine does not read comments: a step is the same in both codes. -/
theorem step_alike (alike : Alike code code') (m : Machine) : m.step code' = m.step code := by
  have fetched : (fetch? code' m.ip).map Instruction.uncommented =
      (fetch? code m.ip).map Instruction.uncommented := by
    rw [fetch?, fetch?, alike.size_eq]
    cases place? code.size m.ip with
    | none => rfl
    | some address => exact alike.getElem?_eq address
  -- As long as the other, the code leaves as much room for slots.
  simp only [step, capacity, alike.size_eq]
  cases found : fetch? code m.ip with
  | none =>
    rw [found, Option.map_none, Option.map_eq_none_iff] at fetched
    rw [fetched]
  | some i =>
    rw [found, Option.map_some, Option.map_eq_some_iff] at fetched
    obtain ⟨i', found', same⟩ := fetched
    rw [found']
    -- Carrying out an instruction looks at its opcode and its operand.
    obtain ⟨op, operand, comment⟩ := i
    obtain ⟨op', operand', comment'⟩ := i'
    cases same
    rfl

/-- Codes that differ in comments alone run alike, step by step. -/
theorem runFrom_alike (alike : Alike code code') (room : Nat) (m : Machine) :
    runFrom code' room m = runFrom code room m := by
  -- The steps left are counted down; each step comes to the same state in both codes.
  induction room generalizing m with
  | zero => rfl
  | succ room ih =>
    simp only [runFrom, alike.size_eq, step_alike alike]
    split
    · cases m.step code with
      | next m₁ => exact ih m₁
      | stop m₁ ending => rfl
    · rfl

/-- Codes that differ in comments alone have the same run under every cap. -/
theorem run?_alike (alike : Alike code code') (cap : Int) : run? code' cap = run? code cap := by
  simp only [run?, run, runFrom_alike alike]

end Machine

/-- Generating code comes to the same with other names, but for the comments. -/
theorem generate_renamed (r : String → String) (resolution : Resolution) (tree : Node) :
    (∃ code code', generate resolution tree = .ok code ∧
      generate resolution (tree.renamed r) = .ok code' ∧ Code.Alike code code') ∨
    ∃ failure, generate resolution tree = .error failure ∧
      generate resolution (tree.renamed r) = .error failure := by
  -- Emission is compared as a whole, and generating only drops what was emitted on a failure.
  have emitted : Code.AlikeStep (Code.program resolution #[] tree)
      (Code.program resolution #[] (tree.renamed r)) := by
    rw [Code.program_eq, Code.program_eq, Node.body_renamed]
    exact .bind (Code.alike_ofNodes rfl tree.body) fun _ _ alike => .done (alike.emit ..)
  rw [generate, generate]
  generalize Code.program resolution #[] tree = x at emitted
  generalize Code.program resolution #[] (tree.renamed r) = y at emitted
  cases emitted with
  | done alike => exact .inl ⟨_, _, rfl, rfl, alike⟩
  | failed defect => exact .inr ⟨_, rfl, rfl⟩

/-- Compiling does not depend on the names of variables. With other names, as long as different ones
stay different, the variables of any tree are resolved to the same slots, of which there are as
many, and the symbols have the same slots and depths; or resolving stops at the same node, with the
same error about the other name. The code has the same opcodes and operands, or generating it fails
alike, and it runs in the same way under every cap. -/
theorem renaming_invariant {r : String → String} (injective : Function.Injective r) (tree : Node) :
    ((∃ a a', Analysis.empty.program tree = .ok a ∧
        Analysis.empty.program (tree.renamed r) = .ok a' ∧ a'.resolution = a.resolution ∧
        a'.table.slotCount = a.table.slotCount ∧
        a'.symbols = a.symbols.map fun s => { s with name := r s.name }) ∨
      ∃ place action failure, Analysis.StopsAt tree place action failure ∧
        Analysis.StopsAt (tree.renamed r) place (action.renamed r) (failure.renamed r) ∧
        (action.renamed r).mark = action.mark) ∧
    ∀ resolution, (∃ code code', generate resolution tree = .ok code ∧
        generate resolution (tree.renamed r) = .ok code' ∧
        code'.map (fun i => (i.op, i.operand)) = code.map (fun i => (i.op, i.operand)) ∧
        ∀ cap, Machine.run? code' cap = Machine.run? code cap) ∨
      ∃ failure, generate resolution tree = .error failure ∧
        generate resolution (tree.renamed r) = .error failure := by
  refine ⟨?_, fun resolution => ?_⟩
  · -- The walk over the renamed tree is the renamed walk, whichever way it ends.
    have renamed := Analysis.program_renamed injective tree
    cases outcome : Analysis.empty.program tree with
    | ok a =>
      rw [outcome] at renamed
      exact .inl ⟨a, a.renamed r, rfl, renamed, rfl, rfl, rfl⟩
    | error e =>
      obtain ⟨place, action, stops⟩ := Analysis.exists_stopsAt outcome
      refine .inr ⟨place, action, e.1, stops, stops.renamed injective, ?_⟩
      cases action <;> rfl
  · -- Codes that are alike run alike, since the machine reads no comments.
    rcases generate_renamed r resolution tree with ⟨code, code', made, made', alike⟩ | failed
    · exact .inl ⟨code, code', made, made', alike, Machine.run?_alike alike⟩
    · exact .inr failed

/-- A tree in which a variable is hidden by another one of its name for a while. -/
def hidingTree : Node :=
  let place (id : Int) : Mark := ⟨id, .start⟩
  let name : Token := ⟨.name, "x", .start⟩
  .program (place 0) [
    -- The outer variable is not touched in the block, where its name means the inner one.
    .declare (place 1) name,
    .block (place 2) [.declare (place 3) name, .assign (place 4) name (.literal (place 5) 7)],
    .print (place 6) (.use (place 7) name)]

/-- With a mark in front of each name, the two variables have the same slots as before, and the code
runs in the same way, although it is not the same. -/
theorem renaming_invariant_hiding : ∃ a a' code code',
    Analysis.empty.program hidingTree = .ok a ∧
    Analysis.empty.program (hidingTree.renamed ("_" ++ ·)) = .ok a' ∧
    a'.resolution = a.resolution ∧ a'.symbols.map (·.name) = #["_x", "_x"] ∧
    generate a.resolution hidingTree = .ok code ∧
    generate a.resolution (hidingTree.renamed ("_" ++ ·)) = .ok code' ∧ code ≠ code' ∧
    ∀ cap, Machine.run? code' cap = Machine.run? code cap := by
  have injective : Function.Injective fun name : String => "_" ++ name :=
    fun _ _ same => String.append_right_inj _ |>.mp same
  have computed : ((Analysis.empty.program hidingTree).toOption.map fun a =>
      (a.symbols.map (·.name), (generate a.resolution hidingTree).toOption.bind (·[0]?),
        (generate a.resolution (hidingTree.renamed ("_" ++ ·))).toOption.bind (·[0]?))) =
      some (#["x", "x"], some ⟨.push, some 0, some "init x"⟩,
        some ⟨.push, some 0, some "init _x"⟩) := by decide +kernel
  obtain ⟨resolves, generates⟩ := renaming_invariant injective hidingTree
  rcases resolves with ⟨a, a', resolved, resolved', same, _, symbols⟩ | ⟨_, _, _, stops, _, _⟩
  · simp only [resolved, Except.toOption, Option.map_some, Option.some.injEq, Prod.mk.injEq]
      at computed
    obtain ⟨names, first, first'⟩ := computed
    rcases generates a.resolution with
      ⟨code, code', generated, generated', _, runs⟩ | ⟨failure, failed, _⟩
    · refine ⟨a, a', code, code', resolved, resolved', same, ?_, generated, generated', ?_, runs⟩
      · rw [symbols, Array.map_map]
        have again := congrArg (Array.map ("_" ++ ·)) names
        simpa [Function.comp_def] using again
      · -- The comments of the first declaration differ.
        rintro rfl
        simp only [generated, generated', Option.bind_some] at first first'
        exact absurd (first.symm.trans first') (by decide)
    · simp [failed] at first
  · obtain ⟨known, _, _, failed⟩ := stops.failed
    simp [failed, Except.toOption] at computed

end BlockCode
