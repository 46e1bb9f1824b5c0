import BlockCode.Proofs.Attempt
import BlockCode.Proofs.Grammar.Shape
import BlockCode.Proofs.Instruction.Emission

/-! Where the code of a tree lies: emission puts the code of every part between two addresses, and
jumps lead to the addresses between the parts. -/

namespace BlockCode

namespace Code

/-- An instruction stands at an address; its comment does not matter. -/
def At (code : Code) (address : Nat) (op : Opcode) (operand : Option Int) : Prop :=
  ∃ comment, code[address]? = some ⟨op, operand, comment⟩

/-- An instruction stands inside the code. -/
theorem At.lt_size {code : Code} {address : Nat} {op : Opcode} {operand : Option Int}
    (there : code.At address op operand) : address < code.size := by
  -- There is an instruction at the address, so the address is an index.
  obtain ⟨_, found⟩ := there
  exact (Array.getElem?_eq_some_iff.mp found).1

/-- The instructions from one address up to another compute the value of an expression. -/
inductive Computes (code : Code) (resolution : Resolution) : Node → Nat → Nat → Prop where
  | literal {mark : Mark} {value : Int} {start : Nat} (push : code.At start .push (some value)) :
      Computes code resolution (.literal mark value) start (start + 1)
  | use {mark : Mark} {name : Token} {slot : Int} {start : Nat}
      (known : resolution[mark.id]? = some slot) (load : code.At start .load (some slot)) :
      Computes code resolution (.use mark name) start (start + 1)
  | binary {mark : Mark} {left right : Node} {operator : Token} {op : Operator}
      {start middle stop : Nat} (known : Operator.ofKind? operator.kind = some op)
      (first : Computes code resolution left start middle)
      (second : Computes code resolution right middle stop)
      (joined : code.At stop (.binary op) none) :
      Computes code resolution (.binary mark left operator right) start (stop + 1)

/-- The instructions from one address up to another carry out some statements in turn. -/
inductive Performs (code : Code) (resolution : Resolution) : List Node → Nat → Nat → Prop where
  | nothing {start : Nat} : Performs code resolution [] start start
  | also {n : Node} {ns : List Node} {start middle stop : Nat}
      (first : Performs code resolution [n] start middle)
      (others : Performs code resolution ns middle stop) :
      Performs code resolution (n :: ns) start stop
  | declare {mark : Mark} {name : Token} {slot : Int} {start : Nat}
      (known : resolution[mark.id]? = some slot) (zero : code.At start .push (some 0))
      (store : code.At (start + 1) .store (some slot)) :
      Performs code resolution [.declare mark name] start (start + 2)
  | assign {mark : Mark} {name : Token} {value : Node} {slot : Int} {start stop : Nat}
      (known : resolution[mark.id]? = some slot)
      (computed : Computes code resolution value start stop)
      (store : code.At stop .store (some slot)) :
      Performs code resolution [.assign mark name value] start (stop + 1)
  | print {mark : Mark} {value : Node} {start stop : Nat}
      (computed : Computes code resolution value start stop) (shown : code.At stop .print none) :
      Performs code resolution [.print mark value] start (stop + 1)
  | choose {mark : Mark} {condition yes : Node} {start test stop : Nat}
      (tested : Computes code resolution condition start test)
      (skip : code.At test .jumpIfFalse (some (stop : Int)))
      (taken : Performs code resolution [yes] (test + 1) stop) :
      Performs code resolution [.choose mark condition yes] start stop
  | chooseElse {mark : Mark} {condition yes no : Node} {start test leave stop : Nat}
      (tested : Computes code resolution condition start test)
      (skip : code.At test .jumpIfFalse (some ((leave + 1 : Nat) : Int)))
      (taken : Performs code resolution [yes] (test + 1) leave)
      (hop : code.At leave .jump (some (stop : Int)))
      (other : Performs code resolution [no] (leave + 1) stop) :
      Performs code resolution [.chooseElse mark condition yes no] start stop
  | loop {mark : Mark} {condition body : Node} {start test last : Nat}
      (tested : Computes code resolution condition start test)
      (leave : code.At test .jumpIfFalse (some ((last + 1 : Nat) : Int)))
      (repeated : Performs code resolution [body] (test + 1) last)
      (back : code.At last .jump (some (start : Int))) :
      Performs code resolution [.loop mark condition body] start (last + 1)
  | block {mark : Mark} {body : List Node} {start stop : Nat}
      (inside : Performs code resolution body start stop) :
      Performs code resolution [.block mark body] start stop

variable {code code' : Code} {resolution : Resolution} {start stop : Nat}

/-- The code of an expression is not empty. -/
theorem Computes.lt {n : Node} (computes : Computes code resolution n start stop) :
    start < stop := by
  -- Every expression ends with an instruction of its own.
  induction computes with
  | literal => omega
  | use => omega
  | binary _ _ _ _ firstIh secondIh => omega

/-- Only an expression has a value to compute. -/
theorem Computes.isExpression {n : Node} (computes : Computes code resolution n start stop) :
    n.IsExpression := by
  -- The cases of the relation are the kinds of expressions.
  induction computes with
  | literal => exact .literal _ _
  | use => exact .use _ _
  | binary known _ _ _ firstIh secondIh => exact .binary _ _ known firstIh secondIh

/-- The code of statements ends behind its start. -/
theorem Performs.le {ns : List Node} (performs : Performs code resolution ns start stop) :
    start ≤ stop := by
  -- A body may be empty, but no part ends before its start.
  induction performs with
  | nothing => exact Nat.le_refl _
  | also _ _ firstIh othersIh => omega
  | declare => omega
  | assign _ computed _ => exact Nat.le_succ_of_le (Nat.le_of_lt computed.lt)
  | print computed _ => exact Nat.le_succ_of_le (Nat.le_of_lt computed.lt)
  | choose tested _ _ ih =>
    have test := tested.lt
    omega
  | chooseElse tested _ _ _ _ yesIh noIh =>
    have test := tested.lt
    omega
  | loop tested _ _ _ ih =>
    have test := tested.lt
    omega
  | block _ ih => exact ih

/-- Two rows of instructions are the same between two addresses. -/
def Same (start stop : Nat) (code code' : Code) : Prop :=
  ∀ i, start ≤ i → i < stop → code'[i]? = code[i]?

/-- The same holds for a narrower range. -/
theorem Same.narrow {low high : Nat} (same : Same start stop code code') (above : start ≤ low)
    (below : high ≤ stop) : Same low high code code' := by
  -- The bounds of the narrower range are within the wider ones.
  intro i first last
  exact same i (by omega) (by omega)

/-- An instruction stays where the code is the same. -/
theorem At.congr {address : Nat} {op : Opcode} {operand : Option Int}
    (there : code.At address op operand) (same : Same start stop code code')
    (above : start ≤ address) (below : address < stop) : code'.At address op operand := by
  -- The address is within the range, so the same instruction is found there.
  obtain ⟨comment, found⟩ := there
  exact ⟨comment, by rw [same address above below, found]⟩

/-- The code of an expression is looked at within its range only. -/
theorem Computes.congr {n : Node} (computes : Computes code resolution n start stop)
    (same : Same start stop code code') : Computes code' resolution n start stop := by
  -- The operands lie within the whole, and the operator behind them.
  induction computes with
  | literal push => exact .literal (push.congr same (by omega) (by omega))
  | use known load => exact .use known (load.congr same (by omega) (by omega))
  | binary known first second joined firstIh secondIh =>
    have left := first.lt
    have right := second.lt
    exact .binary known (firstIh (same.narrow (by omega) (by omega)))
      (secondIh (same.narrow (by omega) (by omega))) (joined.congr same (by omega) (by omega))

/-- The code of statements is looked at within its range only. -/
theorem Performs.congr {ns : List Node} (performs : Performs code resolution ns start stop)
    (same : Same start stop code code') : Performs code' resolution ns start stop := by
  -- Every part lies within the whole.
  induction performs with
  | nothing => exact .nothing
  | also first others firstIh othersIh =>
    have left := first.le
    have right := others.le
    exact .also (firstIh (same.narrow (by omega) (by omega)))
      (othersIh (same.narrow (by omega) (by omega)))
  | declare known zero store =>
    exact .declare known (zero.congr same (by omega) (by omega))
      (store.congr same (by omega) (by omega))
  | assign known computed store =>
    have value := computed.lt
    exact .assign known (computed.congr (same.narrow (by omega) (by omega)))
      (store.congr same (by omega) (by omega))
  | print computed shown =>
    have value := computed.lt
    exact .print (computed.congr (same.narrow (by omega) (by omega)))
      (shown.congr same (by omega) (by omega))
  | choose tested skip taken ih =>
    have test := tested.lt
    have branch := taken.le
    exact .choose (tested.congr (same.narrow (by omega) (by omega)))
      (skip.congr same (by omega) (by omega)) (ih (same.narrow (by omega) (by omega)))
  | chooseElse tested skip taken hop other yesIh noIh =>
    have test := tested.lt
    have branch := taken.le
    have alternative := other.le
    exact .chooseElse (tested.congr (same.narrow (by omega) (by omega)))
      (skip.congr same (by omega) (by omega)) (yesIh (same.narrow (by omega) (by omega)))
      (hop.congr same (by omega) (by omega)) (noIh (same.narrow (by omega) (by omega)))
  | loop tested leave repeated back ih =>
    have test := tested.lt
    have body := repeated.le
    exact .loop (tested.congr (same.narrow (by omega) (by omega)))
      (leave.congr same (by omega) (by omega)) (ih (same.narrow (by omega) (by omega)))
      (back.congr same (by omega) (by omega))
  | block inside ih => exact .block (ih same)

/-- Code has only been appended. -/
structure Grows (code code' : Code) : Prop where
  size : code.size ≤ code'.size
  same : Same 0 code.size code code'

namespace Grows

variable {op : Opcode} {operand : Option Int} {comment : Option String}

/-- Nothing may be appended. -/
theorem refl : Grows code code := by
  exact ⟨Nat.le_refl _, fun _ _ _ => rfl⟩

/-- Appending goes on. -/
theorem trans {code'' : Code} (first : Grows code code') (second : Grows code' code'') :
    Grows code code'' := by
  -- What was there first was there in between.
  refine ⟨first.size.trans second.size, ?_⟩
  intro i above below
  have size := first.size
  rw [second.same i above (by omega), first.same i above below]

/-- An instruction is appended. -/
theorem emit (grows : Grows code code') : Grows code (code'.emit op operand comment) := by
  -- The new instruction stands at the end, behind every old address.
  refine grows.trans ⟨by simp [Code.emit], ?_⟩
  intro i _ below
  simp [Code.emit, Array.getElem?_push, Nat.ne_of_lt below]

end Grows

/-- The instruction that is appended stands at the end. -/
theorem at_emit (code : Code) (op : Opcode) (operand : Option Int) (comment : Option String) :
    (code.emit op operand comment).At code.size op operand := by
  exact ⟨comment, by simp [Code.emit]⟩

/-- Code has one more instruction when one is appended. -/
@[simp] theorem size_emit (code : Code) (op : Opcode) (operand : Option Int)
    (comment : Option String) : (code.emit op operand comment).size = code.size + 1 := by
  simp [Code.emit]

/-- Code keeps its size when a jump receives its target. -/
@[simp] theorem size_patch (code : Code) (index : Nat) : (code.patch index).size = code.size := by
  simp [Code.patch]

/-- Only the jump at the index receives a target. -/
theorem getElem?_patch {index i : Nat} (apart : i ≠ index) :
    (code.patch index)[i]? = code[i]? := by
  rw [Code.patch, Array.getElem?_modify, if_neg (Ne.symm apart)]

/-- The code of statements stays when a jump outside of it receives its target. -/
theorem Performs.patch {ns : List Node} {index : Nat}
    (performs : Performs code resolution ns start stop) (outside : index < start ∨ stop ≤ index) :
    Performs (code.patch index) resolution ns start stop := by
  -- Patching changes the code at one index, which is not in the range.
  refine performs.congr ?_
  intro i above below
  exact getElem?_patch (by omega)

/-- An instruction stays when another one receives its target. -/
theorem At.patch_other {address index : Nat} {op : Opcode} {operand : Option Int}
    (there : code.At address op operand) (apart : address ≠ index) :
    (code.patch index).At address op operand := by
  -- Patching changes the code at one index only.
  obtain ⟨comment, found⟩ := there
  exact ⟨comment, by rw [getElem?_patch apart, found]⟩

/-- The jump leads to the end of the code. -/
theorem At.patch {index : Nat} {op : Opcode} {operand : Option Int}
    (there : code.At index op operand) :
    (code.patch index).At index op (some (code.size : Int)) := by
  -- The opcode and the comment stay, and the operand becomes the size of the code.
  obtain ⟨comment, found⟩ := there
  exact ⟨comment, by rw [Code.patch, Array.getElem?_modify, if_pos rfl, found]; rfl⟩

/-- A jump that was appended since receives its target. -/
theorem Grows.patch {index : Nat} (grows : Grows code code') (above : code.size ≤ index) :
    Grows code (code'.patch index) := by
  -- The index is behind the old code, which is therefore still the same.
  refine ⟨by simpa using grows.size, ?_⟩
  intro i low high
  rw [getElem?_patch (by omega), grows.same i low high]

namespace Grows

variable {n : Node} {ns : List Node}

/-- An instruction of the code stays. -/
theorem keeps {address : Nat} {op : Opcode} {operand : Option Int} (grows : Grows code code')
    (there : code.At address op operand) : code'.At address op operand := by
  -- The address is within the old code, which is at the front of the new one.
  have inside := there.lt_size
  obtain ⟨comment, found⟩ := there
  exact ⟨comment, by rw [grows.same address (Nat.zero_le _) inside, found]⟩

/-- The code of an expression stays. -/
theorem computes (grows : Grows code code') (inside : stop ≤ code.size)
    (computes : Computes code resolution n start stop) :
    Computes code' resolution n start stop :=
  computes.congr (grows.same.narrow (Nat.zero_le _) inside)

/-- The code of statements stays. -/
theorem performs (grows : Grows code code') (inside : stop ≤ code.size)
    (performs : Performs code resolution ns start stop) :
    Performs code' resolution ns start stop :=
  performs.congr (grows.same.narrow (Nat.zero_le _) inside)

end Grows

/-- An instruction on a slot is appended if the node has one. -/
theorem emitSlot_ok {op : Opcode} {node : Node} {comment : Option String}
    (emitted : emitSlot resolution code op node comment = .ok code') :
    ∃ slot, resolution[node.id]? = some slot ∧ code' = code.emit op (some slot) comment := by
  -- Without a slot nothing is appended.
  cases known : resolution[node.id]? with
  | none =>
    rw [emitSlot_none _ _ _ known] at emitted
    cases emitted
  | some slot =>
    rw [emitSlot_some _ _ _ known] at emitted
    cases emitted
    exact ⟨slot, rfl, rfl⟩

end Code

namespace Node

open Code

variable {n : Node} {resolution : Resolution} {code code' : Code}

/-- The code that is appended for an expression computes it. -/
theorem IsExpression.emitted (shape : n.IsExpression)
    (emitted : ofNode resolution code n = .ok code') :
    Grows code code' ∧ Computes code' resolution n code.size code'.size := by
  -- The code of the parts stays where it is when more is appended.
  induction shape generalizing code code' with
  | literal mark value =>
    simp only [ofNode_literal, Except.ok.injEq] at emitted
    subst emitted
    refine ⟨Grows.refl.emit, ?_⟩
    rw [size_emit]
    exact .literal (at_emit ..)
  | use mark name =>
    simp only [ofNode_use] at emitted
    obtain ⟨slot, known, rfl⟩ := emitSlot_ok emitted
    refine ⟨Grows.refl.emit, ?_⟩
    rw [size_emit]
    exact .use known (at_emit ..)
  | binary mark operator known leftShape rightShape leftIh rightIh =>
    simp only [ofNode_binary, bind_eq_ok, emitOperator_some _ known] at emitted
    obtain ⟨code₁, first, code₂, second, returned⟩ := emitted
    cases returned
    obtain ⟨grows₁, left⟩ := leftIh first
    obtain ⟨grows₂, right⟩ := rightIh second
    refine ⟨(grows₁.trans grows₂).emit, ?_⟩
    rw [size_emit]
    -- The code of the operands stays when the operator is appended.
    exact .binary known (grows₂.emit.computes (Nat.le_refl _) left)
      (Grows.refl.emit.computes (Nat.le_refl _) right) (at_emit ..)

/-- Trees whose code carries them out one by one are carried out in turn. -/
theorem emittedAll {ns : List Node}
    (each : ∀ n ∈ ns, ∀ {code code'}, ofNode resolution code n = .ok code' →
      Grows code code' ∧ Performs code' resolution [n] code.size code'.size)
    (emitted : ofNodes resolution code ns = .ok code') :
    Grows code code' ∧ Performs code' resolution ns code.size code'.size := by
  -- Each tree appends to the code of those before it.
  induction ns generalizing code with
  | nil =>
    simp only [ofNodes_nil, Except.ok.injEq] at emitted
    subst emitted
    exact ⟨.refl, .nothing⟩
  | cons n ns ih =>
    simp only [ofNodes_cons, bind_eq_ok] at emitted
    obtain ⟨code₁, first, others⟩ := emitted
    obtain ⟨grows₁, performs₁⟩ := each n (.head _) first
    obtain ⟨grows₂, performs₂⟩ := ih (fun m member => each m (.tail _ member)) others
    exact ⟨grows₁.trans grows₂, .also (grows₂.performs (Nat.le_refl _) performs₁) performs₂⟩

/-- The code that is appended for a statement carries it out. -/
theorem IsStatement.emitted (shape : n.IsStatement)
    (emitted : ofNode resolution code n = .ok code') :
    Grows code code' ∧ Performs code' resolution [n] code.size code'.size := by
  -- Targets are filled in later, which touches the jumps alone.
  induction shape generalizing code code' with
  | declare mark name =>
    simp only [ofNode_declare] at emitted
    obtain ⟨slot, known, rfl⟩ := emitSlot_ok emitted
    refine ⟨Grows.refl.emit.emit, ?_⟩
    rw [size_emit, size_emit]
    refine .declare known ?_ ?_
    · exact (at_emit ..).congr Grows.refl.emit.same (Nat.zero_le _) (by simp)
    · rw [← size_emit]
      exact at_emit ..
  | assign mark name valueShape =>
    simp only [ofNode_assign, bind_eq_ok] at emitted
    obtain ⟨code₁, computed, stored⟩ := emitted
    obtain ⟨slot, known, rfl⟩ := emitSlot_ok stored
    obtain ⟨grows, computes⟩ := valueShape.emitted computed
    refine ⟨grows.emit, ?_⟩
    rw [size_emit]
    exact .assign known (Grows.refl.emit.computes (Nat.le_refl _) computes) (at_emit ..)
  | print mark valueShape =>
    simp only [ofNode_print, bind_eq_ok] at emitted
    obtain ⟨code₁, computed, returned⟩ := emitted
    cases returned
    obtain ⟨grows, computes⟩ := valueShape.emitted computed
    refine ⟨grows.emit, ?_⟩
    rw [size_emit]
    exact .print (Grows.refl.emit.computes (Nat.le_refl _) computes) (at_emit ..)
  | choose mark conditionShape yesShape ih =>
    simp only [ofNode_choose, bind_eq_ok] at emitted
    obtain ⟨code₁, tested, code₂, taken, returned⟩ := emitted
    cases returned
    obtain ⟨grows₁, computes⟩ := conditionShape.emitted tested
    obtain ⟨grows₂, performs⟩ := ih taken
    have jump := grows₂.keeps (at_emit ..)
    rw [emitJump_eq, size_emit] at performs
    have size := grows₂.size
    rw [emitJump_eq, size_emit] at size
    refine ⟨?_, ?_⟩
    · exact ((grows₁.emit).trans grows₂).patch grows₁.size
    · rw [size_patch]
      refine .choose ?_ jump.patch (performs.patch (by omega))
      exact ((Grows.refl.emit.trans grows₂).patch (Nat.le_refl _)).computes (Nat.le_refl _) computes
  | chooseElse mark conditionShape yesShape noShape yesIh noIh =>
    simp only [ofNode_chooseElse, bind_eq_ok] at emitted
    obtain ⟨code₁, tested, code₂, taken, code₃, other, returned⟩ := emitted
    cases returned
    obtain ⟨grows₁, computes⟩ := conditionShape.emitted tested
    obtain ⟨grows₂, performs₂⟩ := yesIh taken
    obtain ⟨grows₃, performs₃⟩ := noIh other
    have size₂ := grows₂.size
    have size₃ := grows₃.size
    rw [emitJump_eq, size_emit] at performs₂ size₂
    rw [size_patch, emitJump_eq, size_emit] at performs₃ size₃
    -- The first jump receives its target when the second one has been appended.
    have appended : Grows code₂ (code₂.emitJump .jump "skip else") := Grows.refl.emit
    have skip := (appended.keeps (grows₂.keeps (at_emit ..))).patch
    rw [emitJump_eq, size_emit] at skip
    have hop := (at_emit code₂ .jump (some 0) (some "skip else")).patch_other
      (Nat.ne_of_gt (Nat.lt_of_succ_le size₂))
    have joined := (Grows.refl.emit.trans (grows₂.trans appended)).patch (Nat.le_refl code₁.size)
    refine ⟨?_, ?_⟩
    · exact ((grows₁.trans joined).trans grows₃).patch (grows₁.size.trans (by omega))
    · rw [size_patch]
      refine .chooseElse ?_ ((grows₃.keeps skip).patch_other (by omega)) ?_ (grows₃.keeps hop).patch
        (performs₃.patch (by omega))
      · exact ((joined.trans grows₃).patch (by omega)).computes (Nat.le_refl _) computes
      · have branch := (appended.performs (Nat.le_refl _) performs₂).patch
          (.inl (Nat.lt_succ_self code₁.size))
        exact (grows₃.performs (by simp [emitJump_eq]) branch).patch (.inr (Nat.le_refl _))
  | loop mark conditionShape bodyShape ih =>
    simp only [ofNode_loop, bind_eq_ok] at emitted
    obtain ⟨code₁, tested, code₂, repeated, returned⟩ := emitted
    cases returned
    obtain ⟨grows₁, computes⟩ := conditionShape.emitted tested
    obtain ⟨grows₂, performs⟩ := ih repeated
    have size := grows₂.size
    rw [emitJump_eq, size_emit] at performs size
    -- The way out receives its target when the way back has been appended.
    have appended : Grows code₂ (code₂.emit .jump (some code.size) (some "loop")) :=
      Grows.refl.emit
    have leave := (appended.keeps (grows₂.keeps (at_emit ..))).patch
    rw [size_emit] at leave
    have back := (at_emit code₂ .jump (some code.size) (some "loop")).patch_other
      (Nat.ne_of_gt (Nat.lt_of_succ_le size))
    have joined := (Grows.refl.emit.trans (grows₂.trans appended)).patch (Nat.le_refl code₁.size)
    refine ⟨grows₁.trans joined, ?_⟩
    rw [size_patch, size_emit]
    refine .loop (joined.computes (Nat.le_refl _) computes) leave ?_ back
    exact (appended.performs (Nat.le_refl _) performs).patch (.inl (by omega))
  | block mark bodyShape ih =>
    simp only [ofNode_block] at emitted
    obtain ⟨grows, performs⟩ := emittedAll (fun n member => ih n member) emitted
    exact ⟨grows, .block performs⟩

end Node

/-- The code of a program carries out its statements from the first address on and halts behind
them. -/
theorem Code.program_layout {mark : Mark} {body : List Node} {resolution : Resolution} {code : Code}
    (shape : ∀ n ∈ body, n.IsStatement)
    (emitted : Code.program resolution #[] (.program mark body) = .ok code) :
    ∃ last, code.Performs resolution body 0 last ∧ code.At last .halt none ∧
      code.size = last + 1 := by
  -- The halt is appended to the code of the statements.
  simp only [program_eq, bind_eq_ok] at emitted
  obtain ⟨code₁, statements, returned⟩ := emitted
  cases returned
  obtain ⟨_, performs⟩ :=
    Node.emittedAll (fun n member => (shape n member).emitted) statements
  exact ⟨code₁.size, Grows.refl.emit.performs (Nat.le_refl _) performs, at_emit .., size_emit ..⟩

end BlockCode
