import BlockCode.Proofs.Instruction.Emission
import BlockCode.Proofs.Nesting
import BlockCode.Proofs.Scope.Walk

/-! How deep the walks over a tree call themselves. A watched walk takes the steps of the walk and
counts the calls that are active at the same time; operators are taken apart on a stack, without a
call for each. In a tree that was read the count stays within the bound on nesting and three more: a
statement inside all others, its expression, and an operand of that. -/

namespace BlockCode

/-- What a computation comes to, and the most calls of one function that were active at the same
time on the way there. -/
@[ext] structure Watched (ε α : Type) where
  outcome : Except ε α
  calls : Nat

namespace Watched

variable {ε α β γ : Type}

/-- A computation without calls. -/
def quiet (outcome : Except ε α) : Watched ε α := ⟨outcome, 0⟩

/-- A call, active as long as the computation in it lasts. -/
def call (w : Watched ε α) : Watched ε α := ⟨w.outcome, w.calls + 1⟩

/-- One computation behind another, which takes place only if the first succeeds. -/
def andThen (w : Watched ε α) (next : α → Watched ε β) : Watched ε β :=
  match w.outcome with
  -- The first computation is over when the second begins, so their calls are not active together.
  | .ok a => ⟨(next a).outcome, max w.calls (next a).calls⟩
  | .error e => ⟨.error e, w.calls⟩

/-- A tree among the operands of an operator, for which only an operator takes no call. -/
def operand : Node → Watched ε α → Watched ε α
  -- Operators are put on the stack instead, so they take no call here.
  | .binary .., w => w
  | _, w => w.call

instance : Monad (Watched ε) where
  pure a := quiet (.ok a)
  bind := andThen

instance : Walking ε (Watched ε) := ⟨quiet, call, operand⟩

instance : LawfulWalking ε (Watched ε) where
  operand_binary _ _ _ _ _ := rfl
  operand_other {_ n} w other := by
    cases n with
    | binary mark left operator right => exact absurd rfl (other mark left operator right)
    | _ => rfl

variable {w : Watched ε α} {next : α → Watched ε β} {most : Nat}

@[simp] theorem outcome_step (outcome : Except ε α) :
    (Walking.step outcome : Watched ε α).outcome = outcome := rfl

@[simp] theorem outcome_call (w : Watched ε α) : (Walking.call w).outcome = w.outcome := rfl

@[simp] theorem calls_call (w : Watched ε α) : (Walking.call w).calls = w.calls + 1 := rfl

@[simp] theorem outcome_operand (n : Node) (w : Watched ε α) :
    (Walking.operand n w).outcome = w.outcome := by
  -- A call does not show in the outcome, so it does not matter whether there is one.
  cases n <;> rfl

/-- Watched computations in a row come to what they come to in a row without being watched. -/
@[simp] theorem outcome_bind (w : Watched ε α) (next : α → Watched ε β) :
    (w >>= next).outcome = w.outcome >>= fun a => (next a).outcome := by
  -- Both ask for the first outcome, and pass a failure on.
  show (w.andThen next).outcome = _
  unfold andThen
  cases w.outcome <;> rfl

/-- Behind a computation that succeeds the next one takes place. -/
theorem ok_bind (a : α) (calls : Nat) (next : α → Watched ε β) :
    (⟨.ok a, calls⟩ >>= next) = ⟨(next a).outcome, max calls (next a).calls⟩ := rfl

instance : LawfulMonad (Watched ε) := .mk' _
  (by
    -- The calls of what is mapped are none.
    rintro α ⟨_ | a, calls⟩
    · rfl
    · exact Watched.ext rfl (Nat.max_zero _))
  (fun a next => Watched.ext rfl (Nat.zero_max _))
  (by
    rintro α β γ ⟨_ | a, calls⟩ second third
    · rfl
    · -- Whether the second computation fails decides if the third one takes place.
      rw [ok_bind, ok_bind]
      rcases second a with ⟨_ | b, more⟩
      · rfl
      · exact Watched.ext rfl (Nat.max_assoc ..))

/-- Computations in a row have as many calls at once as one of them, and no more. -/
theorem calls_bind_le (first : w.calls ≤ most) (second : ∀ a, (next a).calls ≤ most) :
    (w >>= next).calls ≤ most := by
  -- A failure leaves the calls of the first, and the second adds its own at most.
  show (w.andThen next).calls ≤ most
  unfold andThen
  cases w.outcome with
  | error e => exact first
  | ok a => exact Nat.max_le.mpr ⟨first, second a⟩

/-- What is done between the calls takes none. -/
theorem calls_step_le (outcome : Except ε α) :
    (Walking.step outcome : Watched ε α).calls ≤ most :=
  Nat.zero_le most

/-- A tree that takes one call among operands takes two on its own, if it is an operator. -/
theorem calls_call_le {n : Node} (few : (Walking.operand n w).calls ≤ 1) :
    (Walking.call w).calls ≤ 2 := by
  cases n with
  -- The call on an operator is one more than those of its operands.
  | binary mark left operator right => exact Nat.succ_le_succ few
  | _ => exact Nat.le_succ_of_le few

/-- Walks over trees in turn have as many calls at once as one of them, and no more. -/
theorem calls_turns_le {σ : Type} {walk : σ → Node → Watched ε σ}
    {turns : σ → List Node → Watched ε σ} (none : ∀ s, turns s [] = pure s)
    (some : ∀ s n ns, turns s (n :: ns) = walk s n >>= fun s => turns s ns) {ns : List Node}
    (each : ∀ n ∈ ns, ∀ s, (walk s n).calls ≤ most) (s : σ) : (turns s ns).calls ≤ most := by
  -- One tree is done when the next begins, so their calls are never active together.
  induction ns generalizing s with
  | nil =>
    rw [none]
    exact Nat.zero_le most
  | cons n ns ih =>
    rw [some]
    exact calls_bind_le (each n (.head _) s) (ih fun m member => each m (.tail _ member))

end Watched

open Node Watched

/-- A walk whose call on a statement has only calls on the trees right below it inside, while an
expression takes two calls at most. -/
structure Descends {ε σ : Type} (walk : σ → Node → Watched ε σ) : Prop where
  expression : ∀ {n : Node}, n.IsExpression → ∀ s, (walk s n).calls ≤ 2
  statement : ∀ {n : Node}, n.IsStatement → ∀ {most : Nat},
    (∀ m ∈ n.children, ∀ s, (walk s m).calls ≤ most) → ∀ s, (walk s n).calls ≤ most + 1

namespace Descends

variable {ε σ : Type} {walk : σ → Node → Watched ε σ} {n : Node}

/-- A statement around others takes a call more than its parts, which is the level more that it
has. -/
theorem calls_nesting_le (descends : Descends walk) (shape : n.IsStatement)
    (nesting : n.isNesting = true)
    (parts : ∀ m ∈ n.children, m.IsExpression ∨ ∀ s, (walk s m).calls ≤ m.levels + 3) (s : σ) :
    (walk s n).calls ≤ n.levels + 3 := by
  -- An expression takes two calls at most, which the three more leave room for.
  have below : ∀ m ∈ n.children, ∀ s, (walk s m).calls ≤ levelsAll n.children + 3 := by
    intro m member s
    have among := levels_le_levelsAll member
    rcases parts m member with plain | bounded
    · have few := descends.expression plain s
      omega
    · have few := bounded s
      omega
  have whole := descends.statement shape below s
  rw [levels_eq, nesting, Bool.toNat_true]
  omega

/-- A statement with nothing but expressions below it takes three calls. -/
theorem calls_simple_le (descends : Descends walk) (shape : n.IsStatement)
    (parts : ∀ m ∈ n.children, m.IsExpression) (s : σ) : (walk s n).calls ≤ n.levels + 3 := by
  -- Two calls for the expressions inside it, and the one on the statement itself.
  have whole := descends.statement shape (fun m member => descends.expression (parts m member)) s
  omega

/-- The walk over a statement takes a call for each level of it, and three at the innermost one. -/
theorem calls_le (descends : Descends walk) (shape : n.IsStatement) :
    ∀ s, (walk s n).calls ≤ n.levels + 3 := by
  -- The induction goes along the statements inside each other, down to one with expressions only.
  induction shape with
  | declare mark name =>
    exact descends.calls_simple_le (.declare mark name) (by simp [children])
  | assign mark name valueShape =>
    exact descends.calls_simple_le (.assign mark name valueShape) (by simpa [children])
  | print mark valueShape =>
    exact descends.calls_simple_le (.print mark valueShape) (by simpa [children])
  | choose mark conditionShape yesShape yesIh =>
    apply descends.calls_nesting_le (.choose mark conditionShape yesShape) rfl
    simp [children, conditionShape, yesIh]
  | chooseElse mark conditionShape yesShape noShape yesIh noIh =>
    apply descends.calls_nesting_le (.chooseElse mark conditionShape yesShape noShape) rfl
    simp [children, conditionShape, yesIh, noIh]
  | loop mark conditionShape bodyShape bodyIh =>
    apply descends.calls_nesting_le (.loop mark conditionShape bodyShape) rfl
    simp [children, conditionShape, bodyIh]
  | block mark bodyShape ih =>
    exact descends.calls_nesting_le (.block mark bodyShape) rfl fun m member => .inr (ih m member)

/-- Among statements side by side, each takes a call for each level that there is at most. -/
theorem calls_among_le (descends : Descends walk) {ns : List Node}
    (shapes : ∀ n ∈ ns, n.IsStatement) : ∀ n ∈ ns, ∀ s, (walk s n).calls ≤ levelsAll ns + 3 := by
  -- The levels of all of them are at least those of each.
  intro n member s
  have own := descends.calls_le (shapes n member) s
  have among := levels_le_levelsAll member
  omega

end Descends

namespace Analysis

/-- One watched step through a tree. -/
abbrev WatchedStep := Watched (Failure × Analysis) Analysis

/-- Goes through a tree, watched. Each tree takes a call of its own. -/
def visitWatched (a : Analysis) (n : Node) : WatchedStep := Walking.call (a.walk n)

/-- Goes through some trees in turn, watched. -/
def visitAllWatched (a : Analysis) (ns : List Node) : WatchedStep := a.walkAll ns

/-- Goes through the trees on a stack, watched. -/
def visitPendingWatched (a : Analysis) (pending : List Node) : WatchedStep := a.walkPending pending

/-- Goes through the statements of a program, watched. -/
def programWatched (a : Analysis) (root : Node) : WatchedStep := a.visitAllWatched root.body

variable {n : Node} {ns : List Node} {most : Nat}

/-- The operands of an operator are gone through on a stack, in the call on it. -/
theorem visitWatched_binary (a : Analysis) (mark : Mark) (left : Node) (operator : Token)
    (right : Node) : a.visitWatched (.binary mark left operator right) =
      Watched.call (a.visitPendingWatched [left, right]) :=
  congrArg Watched.call (a.walk_eq_walkPending mark left operator right)

/-- Being watched does not change what the walk over trees in turn comes to if it does not for each
of them. -/
theorem outcome_walkAll (each : ∀ n ∈ ns, ∀ a : Analysis,
      (a.walk n : WatchedStep).outcome = a.walk n) (a : Analysis) :
    (a.walkAll ns : WatchedStep).outcome = a.walkAll ns := by
  -- The failure of one tree ends both walks at the same place.
  induction ns generalizing a with
  | nil => rfl
  | cons n ns ih =>
    rw [walkAll, walkAll, outcome_bind, outcome_call, each n (.head _)]
    congr 1
    funext a₁
    exact ih (fun m member => each m (.tail _ member)) a₁

/-- Being watched does not change what the walk over a tree comes to. -/
theorem outcome_walk (n : Node) : ∀ a : Analysis,
    (a.walk n : WatchedStep).outcome = a.walk n := by
  -- Both take the same steps in the same order.
  induction n using Node.below_induction with
  | each n ih =>
    intro a
    cases n with
    | program mark body => rfl
    | unknown mark variant => rfl
    | declare mark name => rfl
    | use mark name => rfl
    | literal mark value => rfl
    | assign mark name value =>
      simp only [walk, outcome_bind, outcome_call, outcome_step, ih value (.head _)]
      rfl
    | print mark value =>
      rw [walk, walk, outcome_call, ih value (.head _)]
      rfl
    | block mark body =>
      simp only [walk, outcome_bind, outcome_step, outcome_walkAll (show ∀ m ∈ body, _ from ih)]
      rfl
    | choose mark condition yes =>
      simp only [walk, outcome_bind, outcome_call, ih condition (.head _),
        ih yes (.tail _ (.head _))]
      rfl
    | chooseElse mark condition yes no =>
      simp only [walk, outcome_bind, outcome_call, ih condition (.head _),
        ih yes (.tail _ (.head _)), ih no (.tail _ (.tail _ (.head _)))]
      rfl
    | loop mark condition body =>
      simp only [walk, outcome_bind, outcome_call, ih condition (.head _),
        ih body (.tail _ (.head _))]
      rfl
    | binary mark left operator right =>
      simp only [walk, outcome_bind, outcome_operand, ih left (.head _),
        ih right (.tail _ (.head _))]
      rfl

/-- Being watched does not change what the walk over a program comes to. -/
theorem outcome_programWatched (a : Analysis) (root : Node) :
    (a.programWatched root).outcome = a.program root :=
  outcome_walkAll (fun n _ => outcome_walk n) a

/-- The walk over some trees has as many calls at once as over one of them, and no more. -/
theorem calls_visitAllWatched_le
    (each : ∀ n ∈ ns, ∀ a : Analysis, (a.visitWatched n).calls ≤ most) (a : Analysis) :
    (a.visitAllWatched ns).calls ≤ most :=
  calls_turns_le (fun _ => rfl) (fun _ _ _ => rfl) each a

/-- An expression among operands takes one call at a time, however many operators it has. -/
theorem calls_operand_le (shape : n.IsExpression) : ∀ a : Analysis,
    (Walking.operand n (a.walk n) : WatchedStep).calls ≤ 1 := by
  -- The operands of an operator are among the operands in its place, one behind the other.
  induction shape with
  | literal mark value => exact fun a => Nat.le_refl 1
  | use mark name => exact fun a => Nat.le_refl 1
  | binary mark operator known leftShape rightShape leftIh rightIh =>
    intro a
    rw [LawfulWalking.operand_binary, walk]
    exact calls_bind_le (leftIh a) rightIh

/-- The walk makes a call for every tree below a statement, one behind the other. -/
theorem descends_visitWatched : Descends visitWatched where
  expression shape a := calls_call_le (calls_operand_le shape a)
  statement := by
    -- The call on the statement is over when those inside it are.
    intro n shape most each a
    rw [visitWatched, calls_call]
    refine Nat.succ_le_succ ?_
    cases shape with
    | declare mark name => exact calls_step_le _
    | assign mark name valueShape =>
      rw [walk]
      exact calls_bind_le (each _ (.head _) a) fun a => calls_step_le _
    | print mark valueShape =>
      rw [walk]
      exact each _ (.head _) a
    | choose mark conditionShape yesShape =>
      rw [walk]
      exact calls_bind_le (each _ (.head _) a) (each _ (.tail _ (.head _)))
    | chooseElse mark conditionShape yesShape noShape =>
      rw [walk]
      exact calls_bind_le (each _ (.head _) a) fun a =>
        calls_bind_le (each _ (.tail _ (.head _)) a) (each _ (.tail _ (.tail _ (.head _))))
    | loop mark conditionShape bodyShape =>
      rw [walk]
      exact calls_bind_le (each _ (.head _) a) (each _ (.tail _ (.head _)))
    | block mark bodyShape =>
      rw [walk]
      exact calls_bind_le (calls_visitAllWatched_le each a.enter) fun a => calls_step_le _

end Analysis

namespace Code

/-- One watched step of emission. -/
abbrev WatchedStep := Watched (Defect × Code) Code

/-- Emits the code of a tree, watched. Each tree takes a call of its own. -/
def ofNodeWatched (resolution : Resolution) (code : Code) (n : Node) : WatchedStep :=
  Walking.call (Emission.ofNode resolution code n)

/-- Emits the code of some trees in turn, watched. -/
def ofNodesWatched (resolution : Resolution) (code : Code) (ns : List Node) : WatchedStep :=
  Emission.ofNodes resolution code ns

/-- Emits what waits on a stack, watched. -/
def ofPendingWatched (resolution : Resolution) (code : Code) (pending : List Pending) :
    WatchedStep :=
  Emission.ofPending resolution code pending

/-- Emits the code of a program behind what there is, watched. -/
def programWatched (resolution : Resolution) (code : Code) (root : Node) : WatchedStep :=
  Emission.program resolution code root

variable {resolution : Resolution} {n : Node} {ns : List Node} {most : Nat}

/-- An operator and its operands are emitted from a stack, in the call on it. -/
theorem ofNodeWatched_binary (code : Code) (mark : Mark) (left : Node) (operator : Token)
    (right : Node) : ofNodeWatched resolution code (.binary mark left operator right) =
      Watched.call (ofPendingWatched resolution code
        [.operand left, .operand right, .operator operator]) :=
  congrArg Watched.call (Emission.ofNode_eq_ofPending code mark left operator right)

/-- Watched emission is seen in its outcomes, step by step. -/
theorem watchedView : Emission.View (fun code : Code => code) (outcome : WatchedStep → Step) where
  -- A call is not seen in the outcome, and so neither is where the operands take one.
  size _ := rfl
  emit _ _ _ _ := rfl
  patch _ _ := rfl
  done _ := rfl
  bind same := by rw [outcome_bind, funext same]
  taken _ := rfl
  failed _ _ := rfl
  call _ := rfl
  operand := outcome_operand

/-- Being watched does not change the code of a program. -/
theorem outcome_programWatched (resolution : Resolution) (code : Code) (root : Node) :
    (programWatched resolution code root).outcome = program resolution code root :=
  watchedView.program code root

/-- The emission of some trees has as many calls at once as of one of them, and no more. -/
theorem calls_ofNodesWatched_le
    (each : ∀ n ∈ ns, ∀ code, (ofNodeWatched resolution code n).calls ≤ most) (code : Code) :
    (ofNodesWatched resolution code ns).calls ≤ most :=
  calls_turns_le (fun _ => rfl) (fun _ _ _ => rfl) each code

/-- An expression among operands takes one call at a time, however many operators it has. -/
theorem calls_operand_le (shape : n.IsExpression) : ∀ code : Code,
    (Walking.operand n (Emission.ofNode resolution code n) : WatchedStep).calls ≤ 1 := by
  induction shape with
  | literal mark value => exact fun code => Nat.le_refl 1
  | use mark name => exact fun code => Nat.le_refl 1
  | binary mark operator known leftShape rightShape leftIh rightIh =>
    intro code
    rw [LawfulWalking.operand_binary, Emission.ofNode]
    -- The operator comes behind its operands, and takes no call.
    exact calls_bind_le (leftIh code) fun code =>
      calls_bind_le (rightIh code) fun code => Nat.zero_le 1

/-- Emission makes a call for every tree below a statement, one behind the other. -/
theorem descends_ofNodeWatched (resolution : Resolution) :
    Descends (ofNodeWatched resolution) where
  expression shape code := calls_call_le (calls_operand_le shape code)
  statement := by
    -- An instruction behind the last part takes no call either.
    intro n shape most each code
    rw [ofNodeWatched, calls_call]
    refine Nat.succ_le_succ ?_
    cases shape with
    | declare mark name => exact calls_step_le _
    | assign mark name valueShape =>
      rw [Emission.ofNode]
      exact calls_bind_le (each _ (.head _) code) fun code => calls_step_le _
    | print mark valueShape =>
      rw [Emission.ofNode]
      exact calls_bind_le (each _ (.head _) code) fun code => calls_step_le (.ok _)
    | choose mark conditionShape yesShape =>
      rw [Emission.ofNode]
      exact calls_bind_le (each _ (.head _) code) fun code =>
        calls_bind_le (each _ (.tail _ (.head _)) _) fun code => calls_step_le (.ok _)
    | chooseElse mark conditionShape yesShape noShape =>
      rw [Emission.ofNode]
      exact calls_bind_le (each _ (.head _) code) fun code =>
        calls_bind_le (each _ (.tail _ (.head _)) _) fun code =>
          calls_bind_le (each _ (.tail _ (.tail _ (.head _))) _) fun code => calls_step_le (.ok _)
    | loop mark conditionShape bodyShape =>
      rw [Emission.ofNode]
      exact calls_bind_le (each _ (.head _) code) fun code =>
        calls_bind_le (each _ (.tail _ (.head _)) _) fun code => calls_step_le (.ok _)
    | block mark bodyShape => exact calls_ofNodesWatched_le each code

end Code

namespace Node

open Grammar

/-- Loops inside each other, with a sum to be printed inside all of them. -/
def sampleLoops : (levels : Nat) → Derivation .statement
  | 0 => .print (sampleTerminal .kwPrint "print") (sampleTerminal .openParen "(") sampleSum
      (sampleTerminal .closeParen ")") (sampleTerminal .semicolon ";")
  | levels + 1 => .loop (sampleTerminal .kwWhile "while") (sampleTerminal .openParen "(")
      (sampleValue sampleOne) (sampleTerminal .closeParen ")") (sampleLoops levels)

/-- Loops inside each other are as deep as there are loops. -/
theorem depth_sampleLoops (levels : Nat) : (sampleLoops levels).depth = levels := by
  -- The condition has no levels, so each loop adds one to those of its body.
  induction levels with
  | zero => rfl
  | succ levels ih =>
    show max 0 (sampleLoops levels).depth + 1 = levels + 1
    rw [ih, Nat.zero_max]

/-- There are no alternatives in them. -/
theorem nearest_sampleLoops (levels : Nat) : (sampleLoops levels).Nearest := by
  -- Loops have a single branch, which no keyword could belong to.
  induction levels with
  | zero => simp [sampleLoops, sampleSum, sampleOne, Derivation.Nearest]
  | succ levels ih => simp [sampleLoops, sampleValue, sampleOne, Derivation.Nearest, ih]

/-- The numbers in them can be read. -/
theorem legible_sampleLoops (levels : Nat) : (sampleLoops levels).Legible := by
  -- The only digit that occurs is the same in all of them.
  have digit : Numeral.Legible "1" := by decide
  unfold Derivation.Legible
  induction levels with
  | zero =>
    simp [sampleLoops, sampleSum, sampleOne, sampleTerminal, Derivation.tokens, digit]
  | succ levels ih =>
    simpa [sampleLoops, sampleValue, sampleOne, sampleTerminal, Derivation.tokens, digit] using ih

/-- The tokens of a program of such loops. -/
def loopTokens (levels : Nat) : List Token :=
  (sampleLoops levels).tokens ++ [(sampleTerminal .finish "").val]

/-- The loops are read as long as the bound on nesting allows. -/
theorem parse_loopTokens {levels : Nat} (shallow : levels ≤ maxNesting) : ∃ first,
    parse (loopTokens levels) = .ok (.program ⟨0, first⟩ [((sampleLoops levels).build 1).1]) := by
  -- A derivation of the whole program is at hand, so the reader has to find it.
  let d : Derivation .body := .also (sampleLoops levels) .nothing
  have covers : d.tokens = (sampleLoops levels).tokens := List.append_nil _
  have few : d.depth ≤ maxNesting := by
    show max (sampleLoops levels).depth 0 ≤ maxNesting
    rw [depth_sampleLoops]
    omega
  have legible : d.Legible := by
    unfold Derivation.Legible
    rw [covers]
    exact legible_sampleLoops levels
  have closed : Closed (loopTokens levels) := ⟨_, _, rfl, rfl⟩
  have own : d.Nearest := ⟨nearest_sampleLoops levels, trivial⟩
  obtain ⟨first, rest, read⟩ :=
    programFrom_complete own legible few (sampleTerminal .finish "").property []
  rw [covers] at read
  refine ⟨first, ?_⟩
  rw [closed.parse_eq, loopTokens, read]
  rfl

end Node

/-- The walk over the loops takes all the calls that their levels allow. -/
theorem Analysis.visitWatched_sampleLoops (levels k : Nat) (a : Analysis) :
    a.visitWatched ((sampleLoops levels).build k).1 = ⟨.ok a, levels + 3⟩ := by
  -- From the inside out, each loop adds the call on it.
  induction levels generalizing k with
  | zero => rfl
  | succ levels ih =>
    show Walking.call (⟨.ok a, 1⟩ >>= (visitWatched · ((sampleLoops levels).build (k + 2)).1)) = _
    rw [ok_bind, ih]
    have most : max 1 (levels + 3) + 1 = levels + 1 + 3 := by omega
    exact Watched.ext rfl most

/-- The emission of the loops takes all the calls that their levels allow. -/
theorem Code.ofNodeWatched_sampleLoops (resolution : Resolution) (levels k : Nat) (code : Code) :
    ∃ code', ofNodeWatched resolution code ((sampleLoops levels).build k).1 =
      ⟨.ok code', levels + 3⟩ := by
  induction levels generalizing k code with
  | zero => exact ⟨_, rfl⟩
  | succ levels ih =>
    -- The loop inside is emitted behind the number and the jump over it.
    let tested := code.emit .push (some 1) none
    obtain ⟨inner, emitted⟩ := ih (k + 2) (tested.emitJump .jumpIfFalse "exit loop")
    refine ⟨(inner.emit .jump (some code.size) (some "loop")).patch tested.size, ?_⟩
    show Walking.call (⟨.ok tested, 1⟩ >>= fun tested => ofNodeWatched resolution
      (tested.emitJump .jumpIfFalse "exit loop") ((sampleLoops levels).build (k + 2)).1 >>=
        fun inner => pure ((inner.emit .jump (some code.size) (some "loop")).patch tested.size)) = _
    rw [ok_bind, emitted, ok_bind]
    have most : max 1 (max (levels + 3) 0) + 1 = levels + 1 + 3 := by omega
    exact Watched.ext rfl most

/-- In a tree that was read, no way from the root to a leaf has more blocks, choices and loops on it
than the bound on nesting, and neither the walk that resolves names nor the one that emits code ever
has more than three calls more than that active at the same time, however long the program and its
chains of operators are: the operands of an operator wait on a stack. -/
theorem nesting_bounds_calls {tokens : List Token} {tree : Node}
    (parsed : Node.parse tokens = .ok tree) :
    (∀ path, tree.Path path → path.countP isNesting ≤ maxNesting) ∧
    (∀ a : Analysis, (a.programWatched tree).outcome = a.program tree ∧
      (a.programWatched tree).calls ≤ maxNesting + 3 ∧
      ∀ mark left operator right, a.visitWatched (.binary mark left operator right) =
        Watched.call (a.visitPendingWatched [left, right])) ∧
    ∀ resolution code,
      (Code.programWatched resolution code tree).outcome = Code.program resolution code tree ∧
      (Code.programWatched resolution code tree).calls ≤ maxNesting + 3 ∧
      ∀ mark left operator right,
        Code.ofNodeWatched resolution code (.binary mark left operator right) =
          Watched.call (Code.ofPendingWatched resolution code
            [.operand left, .operand right, .operator operator]) := by
  -- The levels of the tree bound both walks, which differ in what they do between their calls.
  have few := levels_le_of_parse parsed
  refine ⟨fun path way => Nat.le_trans way.count_le few, fun a => ?_, fun resolution code => ?_⟩
  all_goals obtain ⟨mark, body, rfl, shapes, _⟩ := parse_program parsed
  · refine ⟨a.outcome_programWatched _, ?_, a.visitWatched_binary⟩
    have each := Analysis.descends_visitWatched.calls_among_le shapes
    exact Nat.le_trans (Analysis.calls_visitAllWatched_le each a) (Nat.add_le_add_right few 3)
  · refine ⟨Code.outcome_programWatched resolution code _, ?_, Code.ofNodeWatched_binary code⟩
    have each := (Code.descends_ofNodeWatched resolution).calls_among_le shapes
    have body := Code.calls_ofNodesWatched_le each code
    exact calls_bind_le (Nat.le_trans body (Nat.add_le_add_right few 3)) fun code => Nat.zero_le _

/-- As many calls are active at the same time when loops are as deep as they can be. -/
theorem nesting_bounds_calls_reached : ∃ tree, Node.parse (loopTokens maxNesting) = .ok tree ∧
    (∀ path, tree.Path path → path.countP isNesting ≤ maxNesting) ∧
    (Analysis.empty.programWatched tree).calls = maxNesting + 3 ∧
    (Code.programWatched ∅ #[] tree).calls = maxNesting + 3 := by
  -- A tree with that many levels is read, and each walk takes all the calls there that it can.
  obtain ⟨first, parsed⟩ := parse_loopTokens (Nat.le_refl maxNesting)
  obtain ⟨paths, _, _⟩ := nesting_bounds_calls parsed
  refine ⟨_, parsed, paths, ?_, ?_⟩
  · show (Analysis.empty.visitWatched _ >>= fun a => a.visitAllWatched []).calls = _
    rw [Analysis.visitWatched_sampleLoops]
    rfl
  · obtain ⟨code, emitted⟩ := Code.ofNodeWatched_sampleLoops ∅ maxNesting 1 #[]
    show ((Code.ofNodeWatched ∅ #[] _ >>= fun code => Code.ofNodesWatched ∅ code []) >>=
      fun code => pure (code.emit .halt none none)).calls = _
    rw [emitted]
    rfl

end BlockCode
