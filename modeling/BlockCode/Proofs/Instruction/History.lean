import BlockCode.Proofs.Instruction.Assembly

/-! Emission as a history of edits. The edits lead to the code that is emitted, they can be made
with a stack for the operands of operators, and the only ones that change an instruction fill in the
target of a jump that was appended without one. -/

namespace BlockCode

/-- One edit of the code. -/
inductive Edit where
  /-- An instruction is put behind the code. -/
  | append (instruction : Instruction)
  /-- The jump at an index is sent to the end of the code. -/
  | patch (index : Nat)
deriving DecidableEq, Repr

/-- The code behind an edit. -/
def Edit.apply (code : Code) : Edit → Code
  | append instruction => code.push instruction
  -- A patch is given no target: it is the end of the code at this time.
  | patch index => code.patch index

/-- The edits made so far, in their order. -/
abbrev History := List Edit

namespace History

/-- The code that some edits lead to. -/
def code (h : History) : Code := h.foldl Edit.apply #[]

/-- One step of emission, with all edits so far. -/
abbrev Step := Except (Defect × History) History

/-- Appends an instruction. -/
def emit (h : History) (op : Opcode) (operand : Option Int) (comment : Option String) : History :=
  h ++ [.append ⟨op, operand, comment⟩]

/-- Sends the jump at an index to the end of the code. -/
def patch (h : History) (index : Nat) : History :=
  h ++ [.patch index]

-- An index is one into the code that the edits lead to, so its size is what counts.
instance : Emitting History := ⟨fun h => h.code.size, emit, patch⟩

/-- Appends a jump whose target is not known yet. -/
def emitJump (h : History) (op : Opcode) (comment : String) : History :=
  Emission.emitJump h op comment

/-- Makes the edits for a tree. -/
def ofNode (resolution : Resolution) (h : History) (n : Node) : Step :=
  Emission.ofNode resolution h n

/-- Makes the edits for some trees in turn. -/
def ofNodes (resolution : Resolution) (h : History) (ns : List Node) : Step :=
  Emission.ofNodes resolution h ns

/-- Makes the edits for what waits on the stack. -/
def ofPending (resolution : Resolution) (h : History) (pending : List Pending) : Step :=
  Emission.ofPending resolution h pending

/-- Makes the edits for a program, closed by a halt. -/
def program (resolution : Resolution) (root : Node) : Step :=
  Emission.program resolution ([] : History) root

variable {resolution : Resolution}

/-- The edits for a tree are made as on a stack. -/
theorem ofNode_eq_ofPending (h : History) (n : Node) :
    ofNode resolution h n = ofPending resolution h [.operand n] := by
  rw [ofPending, Emission.ofPending_operand]
  -- Nothing is left on the stack behind the tree.
  simp only [Emission.ofPending, bind_pure]
  rfl

/-- What a step comes to, seen on the code. -/
def Step.code : Step → Code.Step
  | .ok h => .ok h.code
  -- What was emitted before the defect stays.
  | .error (defect, h) => .error (defect, h.code)

/-- Appending an instruction shows in the code. -/
@[simp] theorem code_emit (h : History) (op : Opcode) (operand : Option Int)
    (comment : Option String) :
    (h.emit op operand comment).code = h.code.emit op operand comment := by
  simp [code, emit, Edit.apply, Code.emit]

/-- Appending a jump shows in the code. -/
@[simp] theorem code_emitJump (h : History) (op : Opcode) (comment : String) :
    (h.emitJump op comment).code = h.code.emitJump op comment :=
  code_emit ..

/-- Filling in a target shows in the code. -/
@[simp] theorem code_patch (h : History) (index : Nat) :
    (h.patch index).code = h.code.patch index := by
  simp [code, patch, Edit.apply]

/-- Steps in a row show in the code as steps in a row. -/
theorem code_bind {step : Step} {next : History → Step} {next' : Code → Code.Step}
    (second : ∀ h : History, (next h).code = next' h.code) :
    Step.code (step >>= next) = step.code >>= next' := by
  -- A failure is passed on with the edits made until then.
  cases step with
  | error failure => rfl
  | ok h => exact second h

/-- The edits are seen on the code, step by step. -/
theorem view : Emission.View code Step.code where
  -- Each edit does to the code what the emission does, so every step is seen.
  size _ := rfl
  emit := code_emit
  patch := code_patch
  done _ := rfl
  bind := code_bind
  taken _ := rfl
  failed _ _ := rfl
  call _ := rfl
  operand _ _ := rfl

/-- The edits for a tree lead to the code that is emitted for it. -/
theorem code_ofNode (h : History) (n : Node) :
    (ofNode resolution h n).code = Code.ofNode resolution h.code n :=
  view.ofNode n h

/-- The edits for a program lead to the code that is emitted for it. -/
theorem code_program (root : Node) :
    (program resolution root).code = Code.program resolution #[] root :=
  view.program [] root

/-- The jumps that are emitted before their targets are known. -/
def placeholders : List Instruction :=
  -- They have the target zero until they are patched.
  [Code.toward .jumpIfFalse 0 "if false", Code.toward .jump 0 "skip else",
    Code.toward .jumpIfFalse 0 "exit loop"]

/-- The instruction at an index is a placeholder. -/
def Waits (h : History) (index : Nat) : Prop :=
  ∃ i ∈ placeholders, h.code[index]? = some i

/-- In the end, the edits for a tree have put something behind the code and changed nothing. -/
theorem grows_ofNode {h h' : History} {n : Node} (emitted : ofNode resolution h n = .ok h') :
    Code.Grows h.code h'.code := by
  -- What holds of emission holds of the code that the edits lead to.
  have same := @code_ofNode resolution h n
  rw [emitted] at same
  exact Code.grows_ofNode same.symm

namespace Waits

variable {h h' : History} {index : Nat}

/-- A placeholder stands in the code. -/
theorem lt_size (waits : h.Waits index) : index < h.code.size := by
  -- There is an instruction at the index, so the index is inside.
  obtain ⟨i, _, there⟩ := waits
  exact (Array.getElem?_eq_some_iff.mp there).1

/-- A placeholder stands where it was appended. -/
theorem emitJump {op : Opcode} {comment : String}
    (known : Code.toward op 0 comment ∈ placeholders) :
    (h.emitJump op comment).Waits h.code.size := by
  -- The jump is appended at the end, which is where the index was taken.
  refine ⟨_, known, ?_⟩
  simp [Code.emitJump_eq, Code.emit, Code.toward]

/-- A placeholder stays when nothing but the end of the code changes. -/
theorem grows (waits : h.Waits index) (grows : Code.Grows h.code h'.code) : h'.Waits index := by
  -- The index is within the old code, which is at the front of the new one.
  obtain ⟨i, known, there⟩ := waits
  have inside := (Array.getElem?_eq_some_iff.mp there).1
  exact ⟨i, known, by rw [grows.same index (Nat.zero_le _) inside, there]⟩

/-- A placeholder is still there when the edits for a tree have been made behind it. -/
theorem ofNode {op : Opcode} {comment : String} {n : Node}
    (known : Code.toward op 0 comment ∈ placeholders)
    (emitted : History.ofNode resolution (h.emitJump op comment) n = .ok h') :
    h'.Waits h.code.size :=
  (emitJump known).grows (grows_ofNode emitted)

/-- A placeholder stays when an instruction is appended. -/
theorem emit (waits : h.Waits index) (op : Opcode) (operand : Option Int)
    (comment : Option String) : (h.emit op operand comment).Waits index :=
  waits.grows (by rw [code_emit]; exact Code.Grows.refl.emit)

/-- A placeholder stays when the target of another one is filled in. -/
theorem patch {other : Nat} (waits : h.Waits index) (apart : index ≠ other) :
    (h.patch other).Waits index := by
  -- Filling in changes the code at one index, which is another one.
  obtain ⟨i, known, there⟩ := waits
  exact ⟨i, known, by rw [code_patch, Code.getElem?_patch apart, there]⟩

end Waits

/-- Whenever a target is filled in, it is that of a placeholder. -/
structure Sound (h : History) : Prop where
  hits : ∀ (front : History) index back, h = front ++ Edit.patch index :: back → front.Waits index

/-- The edits made until a step came to its end. -/
def Step.edits : Step → History
  | .ok h => h
  -- The edits made before a defect count as well.
  | .error (_, h) => h

namespace Sound

variable {h : History}

/-- Nothing has been filled in yet. -/
theorem nil : Sound [] :=
  ⟨fun front index back split => by simp at split⟩

/-- One more edit may be made if it fills in the target of a placeholder or none. -/
theorem snoc {edit : Edit} (sound : h.Sound)
    (last : ∀ index, edit = .patch index → h.Waits index) : Sound (h ++ [edit]) := by
  constructor
  intro front index back split
  rcases List.eq_nil_or_concat back with rfl | ⟨back', final, rfl⟩
  · -- The last edit is the one that is asked for.
    obtain ⟨rfl, same⟩ := List.append_inj' split rfl
    exact last index (List.singleton_inj.mp same)
  · -- An edit before the last one was made in the history without it.
    rw [List.concat_eq_append, ← List.cons_append, ← List.append_assoc] at split
    exact sound.hits front index back' (List.append_inj' split rfl).1

/-- An instruction may be appended. -/
theorem emit (sound : h.Sound) (op : Opcode) (operand : Option Int) (comment : Option String) :
    (h.emit op operand comment).Sound :=
  sound.snoc (by simp)

/-- The target of a placeholder may be filled in. -/
theorem patch {index : Nat} (sound : h.Sound) (waits : h.Waits index) : (h.patch index).Sound :=
  sound.snoc (by simpa using waits)

/-- One step after the other. -/
theorem bind {step : Step} {next : History → Step} (first : step.edits.Sound)
    (second : ∀ h : History, step = .ok h → h.Sound → (next h).edits.Sound) :
    (Step.edits (step >>= next)).Sound := by
  -- The edits of a step that fails were made by then, so they are those of both.
  cases step with
  | error failure => exact first
  | ok h => exact second h rfl first

/-- An instruction on a slot may be appended. -/
theorem emitSlot (sound : h.Sound) (op : Opcode) (node : Node) (comment : Option String) :
    (Step.edits (Emission.emitSlot resolution h op node comment)).Sound := by
  unfold Emission.emitSlot
  -- Without a slot no edit is made.
  cases resolution[node.id]? with
  | none => exact sound
  | some slot => exact sound.emit ..

/-- The instruction of an operator may be appended. -/
theorem emitOperator (sound : h.Sound) (operator : Token) :
    (Step.edits (Emission.emitOperator h operator)).Sound := by
  unfold Emission.emitOperator
  -- Without an opcode no edit is made.
  cases Operator.ofKind? operator.kind with
  | none => exact sound
  | some op => exact sound.emit ..

end Sound

/-- The edits for trees in turn are sound if they are for each of them. -/
theorem sound_all {body : List Node} (each : ∀ n ∈ body, ∀ h : History, h.Sound →
      (ofNode resolution h n).edits.Sound) {h : History} (sound : h.Sound) :
    (ofNodes resolution h body).edits.Sound := by
  -- Each tree starts from the edits that the trees before it have left.
  induction body generalizing h with
  | nil =>
    rw [ofNodes, Emission.ofNodes]
    exact sound
  | cons n ns ih =>
    rw [ofNodes, Emission.ofNodes]
    refine (each n (.head _) h sound).bind fun h₁ _ sound₁ => ?_
    exact ih (fun m member => each m (.tail _ member)) sound₁

/-- The edits for a tree are sound. -/
theorem sound_ofNode (n : Node) :
    ∀ h : History, h.Sound → (ofNode resolution h n).edits.Sound := by
  -- A placeholder is still there when the part behind it has been emitted.
  induction n using Node.below_induction with
  | each n ih =>
    intro h sound
    cases n with
    | program mark body =>
      rw [ofNode, Emission.ofNode]
      exact sound
    | unknown mark variant =>
      rw [ofNode, Emission.ofNode]
      exact sound
    | declare mark name =>
      rw [ofNode, Emission.ofNode]
      exact (sound.emit ..).emitSlot ..
    | use mark name =>
      rw [ofNode, Emission.ofNode]
      exact sound.emitSlot ..
    | literal mark value =>
      rw [ofNode, Emission.ofNode]
      exact sound.emit ..
    | assign mark name value =>
      rw [ofNode, Emission.ofNode]
      exact (ih value (.head _) h sound).bind fun h₁ _ sound₁ => sound₁.emitSlot ..
    | print mark value =>
      rw [ofNode, Emission.ofNode]
      exact (ih value (.head _) h sound).bind fun h₁ _ sound₁ => sound₁.emit ..
    | block mark body =>
      rw [ofNode, Emission.ofNode]
      exact sound_all ih sound
    | choose mark condition yes =>
      rw [ofNode, Emission.ofNode]
      refine (ih condition (.head _) h sound).bind fun h₁ _ sound₁ => ?_
      refine (ih yes (.tail _ (.head _)) _ (sound₁.emit ..)).bind fun h₂ taken sound₂ => ?_
      have skip : h₂.Waits h₁.code.size := .ofNode (by simp [placeholders]) taken
      exact sound₂.patch skip
    | chooseElse mark condition yes no =>
      rw [ofNode, Emission.ofNode]
      refine (ih condition (.head _) h sound).bind fun h₁ _ sound₁ => ?_
      refine (ih yes (.tail _ (.head _)) _ (sound₁.emit ..)).bind fun h₂ taken sound₂ => ?_
      have skip : h₂.Waits h₁.code.size := .ofNode (by simp [placeholders]) taken
      have sound₃ := (sound₂.emit .jump (some 0) (some "skip else")).patch (skip.emit ..)
      refine (ih no (.tail _ (.tail _ (.head _))) _ sound₃).bind fun h₃ other sound₄ => ?_
      -- The second jump stands behind the first one.
      have leave : (h₂.emitJump .jump "skip else").Waits h₂.code.size :=
        Waits.emitJump (by simp [placeholders])
      exact sound₄.patch ((leave.patch (Nat.ne_of_gt skip.lt_size)).grows (grows_ofNode other))
    | loop mark condition body =>
      rw [ofNode, Emission.ofNode]
      refine (ih condition (.head _) h sound).bind fun h₁ _ sound₁ => ?_
      refine (ih body (.tail _ (.head _)) _ (sound₁.emit ..)).bind fun h₂ round sound₂ => ?_
      have leave : h₂.Waits h₁.code.size := .ofNode (by simp [placeholders]) round
      -- The jump back is put behind the round before the jump out receives its target.
      exact (sound₂.emit ..).patch (leave.emit ..)
    | binary mark left operator right =>
      rw [ofNode, Emission.ofNode]
      refine (ih left (.head _) h sound).bind fun h₁ _ sound₁ => ?_
      refine (ih right (.tail _ (.head _)) h₁ sound₁).bind fun h₂ _ sound₂ => ?_
      exact sound₂.emitOperator operator

/-- The edits for a program are sound. -/
theorem sound_program (root : Node) : (program resolution root).edits.Sound :=
  (sound_all (fun n _ => sound_ofNode n) .nil).bind fun _ _ sound => sound.emit ..

/-- An instruction that is not a placeholder is never changed again. -/
theorem Sound.keeps {whole : History} (sound : whole.Sound) {front back : History}
    (split : whole = front ++ back) {index : Nat} {i : Instruction}
    (there : front.code[index]? = some i) (complete : i ∉ placeholders) :
    whole.code[index]? = some i := by
  -- The edits that follow are made one by one.
  induction back generalizing front with
  | nil => rw [split, List.append_nil, there]
  | cons edit back ih =>
    refine ih (split.trans (List.append_cons ..)) ?_
    cases edit with
    | append added =>
      -- What is put behind the code leaves its indices alone.
      have inside := (Array.getElem?_eq_some_iff.mp there).1
      have grows : (History.code (front ++ [.append added])) = front.code.push added := by
        simp [code, Edit.apply]
      rw [grows, Array.getElem?_push_lt inside, ← Array.getElem?_eq_getElem inside, there]
    | patch other =>
      -- A placeholder stands at the index that is filled in, so it is another one.
      obtain ⟨j, waiting, here⟩ := sound.hits front other back split
      have apart : index ≠ other := by
        intro same
        rw [← same, there, Option.some.injEq] at here
        exact complete (here ▸ waiting)
      exact (congrArg (·[index]?) (code_patch front other)).trans
        ((Code.getElem?_patch apart).trans there)

end History

end BlockCode
