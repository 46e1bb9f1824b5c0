import BlockCode.Compilation
import BlockCode.Proofs.Grammar.Within
import BlockCode.Proofs.Instruction.Layout

/-! The code of a tree as a function of the address where it starts: every target is computed from
that address and from the lengths of the parts. Emission, which fills targets in later, comes to the
same code, and it fails exactly where a tree holds a node without code. -/

namespace BlockCode

namespace Node

/-- A node has no code of its own: it has no meaning in its place, it names a variable that has no
slot, or its operator has no opcode. -/
@[simp]
def Unusable (resolution : Resolution) : Node → Prop
  | program .. | unknown .. => True
  -- These three are the only nodes with a slot.
  | declare mark _ | assign mark _ _ | use mark _ => resolution[mark.id]? = none
  | binary _ _ operator _ => Operator.ofKind? operator.kind = none
  -- The nodes below are judged on their own.
  | block .. | print .. | choose .. | chooseElse .. | loop .. | literal .. => False

/-- Every node of a tree has code. -/
def Usable (resolution : Resolution) (n : Node) : Prop :=
  ∀ m, Within m n → ¬ m.Unusable resolution

/-- Every node of a tree has code if the root has, and every node below it. -/
theorem usable_iff {resolution : Resolution} {n : Node} : n.Usable resolution ↔
    ¬ n.Unusable resolution ∧ ∀ child ∈ n.children, child.Usable resolution := by
  constructor
  · intro usable
    exact ⟨usable n .root, fun child member m within => usable m (.inside member within)⟩
  · intro ⟨root, below⟩ m within
    -- A node in the tree is the root or stands in one of the trees below.
    cases within with
    | root => exact root
    | inside member within => exact below _ member m within

end Node

namespace Code

/-- A jump with its target. -/
def toward (op : Opcode) (target : Nat) (comment : String) : Instruction :=
  ⟨op, some target, some comment⟩

mutual

/-- The code of a tree that starts at an address. A node without code adds nothing. -/
@[simp]
def assemble (resolution : Resolution) (base : Nat) : Node → List Instruction
  | .declare mark name =>
    [⟨.push, some 0, some s!"init {name.lexeme}"⟩, ⟨.store, resolution[mark.id]?, none⟩]
  | .assign mark name value =>
    assemble resolution base value ++
      [⟨.store, resolution[mark.id]?, some s!"assign {name.lexeme}"⟩]
  | .print _ value => assemble resolution base value ++ [⟨.print, none, none⟩]
  | .program _ body | .block _ body => assembleAll resolution base body
  | .choose _ condition yes =>
    let test := assemble resolution base condition
    let taken := assemble resolution (base + test.length + 1) yes
    -- A condition that does not hold leads behind the branch.
    test ++ toward .jumpIfFalse (base + test.length + 1 + taken.length) "if false" :: taken
  | .chooseElse _ condition yes no =>
    let test := assemble resolution base condition
    let taken := assemble resolution (base + test.length + 1) yes
    -- The second branch starts behind the jump that ends the first one.
    let middle := base + test.length + 1 + taken.length + 1
    let other := assemble resolution middle no
    test ++ toward .jumpIfFalse middle "if false" :: taken ++
      toward .jump (middle + other.length) "skip else" :: other
  | .loop _ condition body =>
    let test := assemble resolution base condition
    let round := assemble resolution (base + test.length + 1) body
    -- Each round ends with a jump to the condition.
    test ++ toward .jumpIfFalse (base + test.length + 1 + round.length + 1) "exit loop" :: round ++
      [toward .jump base "loop"]
  | .binary _ left operator right =>
    let first := assemble resolution base left
    let second := assemble resolution (base + first.length) right
    first ++ second ++
      (Operator.ofKind? operator.kind).toList.map fun op => ⟨.binary op, none, none⟩
  | .literal _ value => [⟨.push, some value, none⟩]
  | .use mark name => [⟨.load, resolution[mark.id]?, some s!"load {name.lexeme}"⟩]
  | .unknown .. => []

/-- The code of some trees in turn that starts at an address. -/
@[simp]
def assembleAll (resolution : Resolution) (base : Nat) : List Node → List Instruction
  | [] => []
  | n :: ns =>
    let first := assemble resolution base n
    first ++ assembleAll resolution (base + first.length) ns

end

/-- What a step of emission comes to: the code that is expected if all is fine, and a failure
otherwise. -/
inductive Settled (fine : Prop) (result : List Instruction) : Step → Prop where
  | done (holds : fine) : Settled fine result (.ok result.toArray)
  | failed (wrong : ¬ fine) (failure : Defect × Code) : Settled fine result (.error failure)

namespace Settled

variable {fine fine' : Prop} {result result' : List Instruction} {step : Step} {next : Code → Step}

/-- One step after the other. -/
theorem bind (first : Settled fine result step)
    (second : Settled fine' result' (next result.toArray)) :
    Settled (fine ∧ fine') result' (step >>= next) := by
  cases first with
  | failed wrong failure => exact .failed (fun both => wrong both.1) failure
  | done holds =>
    -- The second step starts from what the first one has come to.
    show Settled _ _ (next result.toArray)
    generalize next result.toArray = outcome at second
    cases second with
    | done holds' => exact .done ⟨holds, holds'⟩
    | failed wrong failure => exact .failed (fun both => wrong both.2) failure

/-- Something is done to the code that has been emitted. -/
theorem map {change : Code → Code} (settled : Settled fine result step)
    (changed : change result.toArray = result'.toArray) :
    Settled fine result' (step >>= fun code => pure (change code)) := by
  -- A failure is passed on before anything is changed.
  cases settled with
  | failed wrong failure => exact .failed wrong failure
  | done holds =>
    show Settled fine result' (.ok (change result.toArray))
    rw [changed]
    exact .done holds

/-- The same step, with what is fine and what comes of it said in other words. -/
theorem congr (settled : Settled fine result step) (same : fine' ↔ fine)
    (equal : result = result') : Settled fine' result' step := by
  -- What has come of the step is not touched, only how it is described.
  subst equal
  cases settled with
  | done holds => exact .done (same.mpr holds)
  | failed wrong failure => exact .failed (fun holds => wrong (same.mp holds)) failure

/-- A step succeeds if all is fine, with the code that is expected. -/
theorem eq_ok {code : Code} (settled : Settled fine result step) :
    step = .ok code ↔ fine ∧ code.toList = result := by
  -- A step that failed gave no code, and one that is done gave this code.
  cases settled with
  | failed wrong failure => simp [wrong]
  | done holds =>
    rw [Except.ok.injEq, ← Array.toList_inj]
    simp [holds, eq_comm]

/-- A step fails if something is wrong. -/
theorem exists_error (settled : Settled fine result step) :
    (∃ failure, step = .error failure) ↔ ¬ fine := by
  -- There is a failure exactly where something was wrong.
  cases settled with
  | failed wrong failure => simp [wrong]
  | done holds => simp [holds]

end Settled

variable {resolution : Resolution}

/-- An instruction is appended. -/
theorem emit_toArray (front : List Instruction) (op : Opcode) (operand : Option Int)
    (comment : Option String) : Code.emit front.toArray op operand comment =
      (front ++ [(⟨op, operand, comment⟩ : Instruction)]).toArray := by
  simp [Code.emit]

/-- A jump without its target is appended. -/
theorem emitJump_toArray (front : List Instruction) (op : Opcode) (comment : String) :
    Code.emitJump front.toArray op comment = (front ++ [toward op 0 comment]).toArray :=
  emit_toArray ..

/-- The jump behind some instructions receives the end of the code as its target. -/
theorem patch_toArray {code : List Instruction} {index : Nat} (front back : List Instruction)
    (op : Opcode) (target : Nat) (comment : String)
    (split : code = front ++ toward op 0 comment :: back) (behind : index = front.length)
    (stop : target = front.length + 1 + back.length) :
    Code.patch code.toArray index = (front ++ toward op target comment :: back).toArray := by
  subst split behind stop
  apply Array.toList_inj.mp
  -- The instructions in front are passed, and those behind are not touched.
  simp [Code.patch, toward, List.modify_eq_take_drop]
  omega

/-- An instruction on a slot is appended if the node has one. -/
theorem settled_emitSlot (front : List Instruction) (op : Opcode) (node : Node)
    (comment : Option String) :
    Settled (¬ resolution[node.id]? = none) (front ++ [⟨op, resolution[node.id]?, comment⟩])
      (emitSlot resolution front.toArray op node comment) := by
  -- The slot in the instruction is the one that was found, so nothing is left to choose.
  cases found : resolution[node.id]? with
  | none =>
    rw [emitSlot_none _ _ _ found]
    exact .failed (fun there => there rfl) _
  | some slot =>
    rw [emitSlot_some _ _ _ found, emit_toArray]
    exact .done (by simp)

/-- Emission puts the code of a tree behind whatever there is, if all nodes of the tree have
code. -/
def Emits (resolution : Resolution) (n : Node) : Prop :=
  -- The front decides the addresses in the code, so it has to be any.
  ∀ front : List Instruction, Settled (n.Usable resolution)
    (front ++ assemble resolution front.length n) (ofNode resolution front.toArray n)

namespace Emits

variable {left right condition yes no repeated value : Node} {body : List Node}

/-- A variable starts at zero. -/
theorem declare (mark : Mark) (name : Token) : Emits resolution (.declare mark name) := by
  -- Nothing below a declaration can lack code, so its own slot decides.
  intro front
  rw [ofNode_declare, emit_toArray]
  refine (settled_emitSlot _ _ _ _).congr ?_ ?_
  · rw [Node.usable_iff]
    simp [Node.children, Node.id, Node.mark]
  · simp [Node.id, Node.mark]

/-- The content of a slot is loaded. -/
theorem use (mark : Mark) (name : Token) : Emits resolution (.use mark name) := by
  -- As for a declaration, only its own slot can be missing.
  intro front
  rw [ofNode_use]
  refine (settled_emitSlot _ _ _ _).congr ?_ ?_
  · rw [Node.usable_iff]
    simp [Node.children, Node.id, Node.mark]
  · simp [Node.id, Node.mark]

/-- A number is pushed. -/
theorem literal (mark : Mark) (number : Int) : Emits resolution (.literal mark number) := by
  -- Nothing can be wrong with a number.
  intro front
  rw [ofNode_literal, emit_toArray]
  refine (Settled.done trivial).congr ?_ ?_
  · rw [Node.usable_iff]
    simp [Node.children]
  · simp

/-- The target of an assignment comes behind the value. -/
theorem assign (mark : Mark) (name : Token) (computed : Emits resolution value) :
    Emits resolution (.assign mark name value) := by
  -- The value may lack code, and behind it the target may lack a slot.
  intro front
  rw [ofNode_assign]
  refine ((computed front).bind (settled_emitSlot _ _ _ _)).congr ?_ ?_
  · rw [Node.usable_iff]
    simp [Node.children, Node.id, Node.mark, and_comm]
  · simp [Node.id, Node.mark]

/-- A value is printed when it is there. -/
theorem print (mark : Mark) (computed : Emits resolution value) :
    Emits resolution (.print mark value) := by
  -- Only the value can lack code.
  intro front
  rw [ofNode_print]
  refine ((computed front).map (emit_toArray ..)).congr ?_ ?_
  · rw [Node.usable_iff]
    simp [Node.children]
  · simp

/-- The operands come before the operator, and there has to be an opcode for it. -/
theorem binary (mark : Mark) (operator : Token) (first : Emits resolution left)
    (second : Emits resolution right) : Emits resolution (.binary mark left operator right) := by
  intro front
  -- The operator is looked up behind its operands, so that is also the order of the conditions.
  have fine : (Node.binary mark left operator right).Usable resolution ↔
      left.Usable resolution ∧ right.Usable resolution ∧
        ¬ Operator.ofKind? operator.kind = none := by
    rw [Node.usable_iff]
    simp [Node.children, and_comm, and_assoc]
  rw [ofNode_binary, fine]
  refine (first front).bind ((second _).bind ?_)
  cases known : Operator.ofKind? operator.kind with
  | none =>
    rw [emitOperator_none _ known]
    exact .failed (fun there => there rfl) _
  | some op =>
    rw [emitOperator_some _ known]
    refine Settled.congr (.done trivial) (by simp) ?_
    simp [known]

/-- The jump over a branch receives its target behind it. -/
theorem choose (mark : Mark) (test : Emits resolution condition) (taken : Emits resolution yes) :
    Emits resolution (.choose mark condition yes) := by
  intro front
  have fine : (Node.choose mark condition yes).Usable resolution ↔
      condition.Usable resolution ∧ yes.Usable resolution := by
    rw [Node.usable_iff]
    simp [Node.children]
  have first := test front
  rw [ofNode_choose, fine, assemble]
  -- Of the code of the condition and of the branch only the lengths matter from here on.
  generalize assemble resolution front.length condition = tested at first ⊢
  have second := taken (front ++ tested ++ [toward .jumpIfFalse 0 "if false"])
  simp only [List.length_append, List.length_singleton] at second ⊢
  generalize assemble resolution (front.length + tested.length + 1) yes = run at second ⊢
  refine first.bind ?_
  rw [emitJump_toArray]
  refine second.map ?_
  -- The branch is all that follows the jump.
  rw [patch_toArray (front ++ tested) run .jumpIfFalse
    (front.length + tested.length + 1 + run.length) "if false" (by simp) (by simp) (by simp)]
  simp

/-- The jump to the second branch receives its target when the jump over it is there, and that one
behind both. -/
theorem chooseElse (mark : Mark) (test : Emits resolution condition)
    (taken : Emits resolution yes) (other : Emits resolution no) :
    Emits resolution (.chooseElse mark condition yes no) := by
  intro front
  have fine : (Node.chooseElse mark condition yes no).Usable resolution ↔
      condition.Usable resolution ∧ yes.Usable resolution ∧ no.Usable resolution := by
    rw [Node.usable_iff]
    simp [Node.children]
  have first := test front
  rw [ofNode_chooseElse, fine, assemble]
  generalize assemble resolution front.length condition = tested at first ⊢
  have second := taken (front ++ tested ++ [toward .jumpIfFalse 0 "if false"])
  simp only [List.length_append, List.length_singleton] at second ⊢
  generalize assemble resolution (front.length + tested.length + 1) yes = run at second ⊢
  generalize second_start : front.length + tested.length + 1 + run.length + 1 = middle
  -- The second branch is emitted behind a jump with its target and one without.
  have third := other (front ++ tested ++ toward .jumpIfFalse middle "if false" ::
    (run ++ [toward .jump 0 "skip else"]))
  rw [show (front ++ tested ++ toward .jumpIfFalse middle "if false" ::
    (run ++ [toward .jump 0 "skip else"])).length = middle by simp; omega] at third
  generalize assemble resolution middle no = rest at third ⊢
  refine first.bind ?_
  rw [emitJump_toArray]
  refine second.bind ?_
  -- The jump over the second branch is there already when the first one receives its target.
  rw [emitJump_toArray, patch_toArray (front ++ tested) (run ++ [toward .jump 0 "skip else"])
    .jumpIfFalse middle "if false" (by simp) (by simp) (by simp; omega)]
  refine third.map ?_
  -- The other jump is the first instruction in front of the second branch.
  rw [patch_toArray (front ++ tested ++ toward .jumpIfFalse middle "if false" :: run) rest .jump
    (middle + rest.length) "skip else" (by simp) (by simp) (by simp; omega)]
  simp

/-- The jump out of a loop receives its target when the jump back to its start is there. -/
theorem loop (mark : Mark) (test : Emits resolution condition) (round : Emits resolution repeated) :
    Emits resolution (.loop mark condition repeated) := by
  intro front
  have fine : (Node.loop mark condition repeated).Usable resolution ↔
      condition.Usable resolution ∧ repeated.Usable resolution := by
    rw [Node.usable_iff]
    simp [Node.children]
  have first := test front
  rw [ofNode_loop, fine, assemble]
  generalize assemble resolution front.length condition = tested at first ⊢
  have second := round (front ++ tested ++ [toward .jumpIfFalse 0 "exit loop"])
  simp only [List.length_append, List.length_singleton] at second ⊢
  generalize assemble resolution (front.length + tested.length + 1) repeated = run at second ⊢
  refine first.bind ?_
  rw [emitJump_toArray]
  refine second.map ?_
  -- The jump back is there already, and it knows its target from the start.
  rw [List.size_toArray, emit_toArray, patch_toArray (front ++ tested)
    (run ++ [toward .jump front.length "loop"]) .jumpIfFalse
    (front.length + tested.length + 1 + run.length + 1) "exit loop" (by simp [toward]) (by simp)
    (by simp; omega)]
  simp

/-- Trees in turn are emitted one behind the other. -/
theorem all (each : ∀ n ∈ body, Emits resolution n) (front : List Instruction) :
    Settled (∀ n ∈ body, n.Usable resolution)
      (front ++ assembleAll resolution front.length body)
      (ofNodes resolution front.toArray body) := by
  induction body generalizing front with
  | nil => exact Settled.congr (.done trivial) (by simp) (by simp)
  | cons n ns ih =>
    -- The others start behind the code of the first one.
    have first := each n (.head _) front
    have others := ih (fun m member => each m (.tail _ member))
      (front ++ assemble resolution front.length n)
    refine (first.bind others).congr (by simp) ?_
    simp

end Emits

/-- Emission comes to the code of the tree, for every tree. -/
theorem emits (n : Node) : Emits resolution n := by
  -- Each variant is emitted as it should if what is below it is.
  induction n using Node.below_induction with
  | each n ih =>
    cases n with
    | program mark body =>
      exact fun front => .failed (fun usable => usable _ .root trivial) _
    | unknown mark variant =>
      exact fun front => .failed (fun usable => usable _ .root trivial) _
    | declare mark name => exact .declare mark name
    | assign mark name value => exact .assign mark name (ih value (.head _))
    | print mark value => exact .print mark (ih value (.head _))
    | block mark body =>
      intro front
      -- A block adds nothing to the code of its statements.
      rw [ofNode_block, assemble, Node.usable_iff]
      exact (Emits.all ih front).congr (by simp [Node.children]) rfl
    | choose mark condition yes =>
      exact .choose mark (ih condition (.head _)) (ih yes (.tail _ (.head _)))
    | chooseElse mark condition yes no =>
      exact .chooseElse mark (ih condition (.head _)) (ih yes (.tail _ (.head _)))
        (ih no (.tail _ (.tail _ (.head _))))
    | loop mark condition body =>
      exact .loop mark (ih condition (.head _)) (ih body (.tail _ (.head _)))
    | binary mark left operator right =>
      exact .binary mark operator (ih left (.head _)) (ih right (.tail _ (.head _)))
    | literal mark value => exact .literal mark value
    | use mark name => exact .use mark name

/-- Emission of a tree succeeds if all its nodes have code, and puts the code of the tree behind
what there is. -/
theorem ofNode_eq_ok {code code' : Code} {n : Node} : ofNode resolution code n = .ok code' ↔
    n.Usable resolution ∧ code'.toList = code.toList ++ assemble resolution code.size n := by
  -- Any code is the code of the list of its instructions.
  have settled := @emits resolution n code.toList
  rw [Array.toArray_toList, Array.length_toList] at settled
  exact settled.eq_ok

/-- Emission of a tree does not touch what there is. -/
theorem grows_ofNode {code code' : Code} {n : Node}
    (emitted : ofNode resolution code n = .ok code') : Grows code code' := by
  obtain ⟨_, appended⟩ := ofNode_eq_ok.mp emitted
  refine ⟨?_, ?_⟩
  · rw [← Array.length_toList, ← Array.length_toList, appended, List.length_append]
    omega
  · intro i _ inside
    -- Indices in the code that was there do not reach what is appended.
    rw [← Array.getElem?_toList, appended, List.getElem?_append_left (by simpa using inside),
      Array.getElem?_toList]

/-- The statements of a program are emitted from the first address on, and a halt behind them. -/
theorem settled_program (mark : Mark) (body : List Node) :
    Settled (∀ n ∈ body, n.Usable resolution)
      (assembleAll resolution 0 body ++ [⟨.halt, none, none⟩])
      (Code.program resolution #[] (.program mark body)) :=
  (Emits.all (fun n _ => emits n) []).map (emit_toArray ..)

/-- Generation succeeds if all nodes have code, with the code of the statements and a halt. -/
theorem generate_eq_assemble {mark : Mark} {body : List Node} {code : Code} :
    generate resolution (.program mark body) = .ok code ↔ (∀ n ∈ body, n.Usable resolution) ∧
      code.toList = assembleAll resolution 0 body ++ [⟨.halt, none, none⟩] := by
  -- A step settled in both ways decides whether there is code, and which.
  rw [← (settled_program mark body).eq_ok, generate]
  cases Code.program resolution #[] (.program mark body) <;> simp

/-- Generation fails if some node has no code. -/
theorem exists_defect_generate {mark : Mark} {body : List Node} :
    (∃ defect, generate resolution (.program mark body) = .error (.defect defect)) ↔
      ¬ ∀ n ∈ body, n.Usable resolution := by
  -- The same step, with the failure in place of the code.
  rw [← (settled_program mark body).exists_error, generate]
  cases Code.program resolution #[] (.program mark body) <;> simp

end Code

end BlockCode
