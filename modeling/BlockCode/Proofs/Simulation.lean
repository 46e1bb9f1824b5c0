import BlockCode.Proofs.Simulation.Step

/-! The code of a program does what the program means: the machine follows the reference evaluator
to its end, and if that has none, so has the run. -/

namespace BlockCode

open Machine Evaluation

variable {code : Code} {bound k : Nat} {α β : Type} {m m₁ : Machine}

/-- The machine follows a part of an evaluation. If that has a result, a walk leads to a state that
is good for it. If it ends in trouble, so does the run after a walk, with the same lines printed.
If it is given up, a walk of some length leads to the point where it was. -/
inductive Follows (code : Code) (bound : Nat) (Good : α → Machine → Prop) (m : Machine) :
    Evaluation.Outcome α → Prop where
  | goes {k : Nat} {a : α} {m' : Machine} (walks : Walks code k m m') (good : Good a m') :
      Follows code bound Good m (.ok a)
  | stops {k : Nat} {m₁ m' : Machine} {trouble : Trouble} {s : Evaluation} {ending : Ending}
      (walks : Walks code k m m₁) (ends : ending? (.error (trouble, s)) = some ending)
      (stops : Stops code m₁ m' ending) (before : m₁.output.toList = s.printed)
      (after : m'.output.toList = outputOf (.error (trouble, s))) :
      Follows code bound Good m (.error (trouble, s))
  | runs {k : Nat} {m' : Machine} {s : Evaluation} (long : bound ≤ k) (walks : Walks code k m m')
      (printed : m'.output.toList = s.printed) :
      Follows code bound Good m (.error (.unfinished, s))

namespace Follows

variable {Good : α → Machine → Prop} {Fine : β → Machine → Prop} {x : Evaluation.Outcome α}

/-- A walk in front makes the way longer. -/
theorem after (walks : Walks code k m m₁) (follows : Follows code bound Good m₁ x) :
    Follows code (bound + k) Good m x := by
  -- The steps of the walk are counted before those that follow.
  cases follows with
  | goes further good => exact .goes (walks.trans further) good
  | stops further ends stops before after =>
    exact .stops (walks.trans further) ends stops before after
  | runs long further printed => exact .runs (by omega) (walks.trans further) printed

/-- A smaller bound may be asked for. -/
theorem weaken {smaller : Nat} (follows : Follows code bound Good m x) (less : smaller ≤ bound) :
    Follows code smaller Good m x := by
  -- Only an evaluation that was given up looks at the bound.
  cases follows with
  | goes walks good => exact .goes walks good
  | stops walks ends stops before after => exact .stops walks ends stops before after
  | runs long walks printed => exact .runs (less.trans long) walks printed

/-- A walk may be put in front. -/
theorem along (walks : Walks code k m m₁) (follows : Follows code bound Good m₁ x) :
    Follows code bound Good m x :=
  (after walks follows).weaken (Nat.le_add_right _ _)

/-- The machine follows two parts in turn. -/
theorem bind {f : α → Evaluation.Outcome β} (first : Follows code bound Good m x)
    (following : ∀ a m', Good a m' → Follows code bound Fine m' (f a)) :
    Follows code bound Fine m (x >>= f) := by
  -- What ends the first part ends the whole.
  cases first with
  | goes walks good => exact along walks (following _ _ good)
  | stops walks ends stops before after => exact .stops walks ends stops before after
  | runs long walks printed => exact .runs long walks printed

end Follows

/-- Behind what is followed, a jump leads on to its target. -/
theorem Follows.jump {cells : List Int} {resolution : Resolution} {address target : Nat}
    {x : Evaluation.Outcome Evaluation}
    (follows : Follows code bound (Stands cells resolution address []) m x)
    (there : code.At address .jump (some (target : Int))) :
    Follows code bound (Stands cells resolution target []) m x := by
  -- Only a part that has a result comes to the jump.
  cases follows with
  | goes walks stands =>
    obtain ⟨m', walks', stands'⟩ := stands.jump there
    exact .goes (walks.trans walks') stands'
  | stops walks ends stops before after => exact .stops walks ends stops before after
  | runs long walks printed => exact .runs long walks printed

/-- Behind a conditional jump the machine follows one of two ways, and the jump is a step of it. -/
theorem Follows.branch {cells : List Int} {resolution : Resolution} {address target : Nat}
    {stack : List Int} {s : Evaluation} {a : Int} {Good : α → Machine → Prop}
    {x y : Evaluation.Outcome α} (ready : Stands cells resolution address (a :: stack) s m)
    (there : code.At address .jumpIfFalse (some (target : Int)))
    (leaves : ∀ m', Stands cells resolution target stack s m' → Follows code bound Good m' x)
    (enters : ∀ m', Stands cells resolution (address + 1) stack s m' →
      Follows code bound Good m' y) :
    Follows code (bound + 1) Good m (if a = 0 then x else y) := by
  -- The number that is taken from the stack decides on both sides.
  obtain ⟨m', walks, stands⟩ := ready.jumpIfFalse there
  by_cases zero : a = 0
  · rw [if_pos zero] at stands ⊢
    exact .after walks (leaves m' stands)
  · rw [if_neg zero] at stands ⊢
    exact .after walks (enters m' stands)

section Program

variable {cells : List Int} {places : List Occurrence} {resolution : Resolution}
variable {owner : Int → Option Int} {start stop : Nat} {stack : List Int} {s : Evaluation}

/-- The value of a binary expression is taken from the left to the right. -/
theorem Evaluation.value_binary (mark : Mark) (left right : Node) (operator : Token) :
    s.value owner (.binary mark left operator right) = (do
      let a ← s.value owner left
      let b ← s.value owner right
      (operator.kind.operate a b).mapError fun trouble => (trouble, s)) := by
  -- Trouble with an operand comes before the operation.
  simp only [value, valueOf]
  cases valueOf owner s.cells left with
  | error trouble => rfl
  | ok a =>
    cases valueOf owner s.cells right with
    | error trouble => rfl
    | ok b => rfl

/-- One statement in turn is that statement. -/
theorem Evaluation.performAll_singleton (rounds : Nat) (n : Node) (s : Evaluation) :
    performAll owner rounds [n] s = perform owner rounds n s := by
  -- Nothing follows the statement.
  simp only [performAll]
  cases perform owner rounds n s <;> rfl

/-- The machine follows the evaluation of an expression. -/
theorem Code.Computes.follows {n : Node} {blocks : List Int}
    (computes : code.Computes resolution n start stop)
    (links : Links code.size cells places resolution owner) (inside : n.occurrences blocks ⊆ places)
    (stands : Stands cells resolution start stack s m) :
    Follows code bound (fun a => Stands cells resolution stop (a :: stack) s) m
      (s.value owner n) := by
  -- The operands are left on the stack, the later one on top.
  induction computes generalizing stack m with
  | literal push =>
    obtain ⟨m', walks, stands'⟩ := stands.push push
    exact .goes walks stands'
  | @use mark name slot start known load =>
    -- The place has the slot of the cell that it denotes.
    rw [Node.occurrences, List.cons_subset] at inside
    obtain ⟨id, member, owned, same⟩ := links.referred _ inside.1 rfl
    obtain ⟨m', walks, stands'⟩ := stands.load links load member (same ▸ known)
    simp only [value, valueOf, owned]
    exact .goes walks stands'
  | binary known first second joined firstIh secondIh =>
    rw [Node.occurrences, List.append_subset] at inside
    rw [value_binary]
    refine (firstIh inside.1 stands).bind ?_
    intro a m₁ left
    refine (secondIh inside.2 left).bind ?_
    intro b m₂ right
    cases operated : Kind.operate _ a b with
    | ok value =>
      obtain ⟨m', walks, stands'⟩ := right.operate joined known operated
      exact .goes walks stands'
    | error trouble =>
      obtain ⟨rfl, m', stopped, printed⟩ := right.operate_stops joined known operated
      exact .stops (.here _) rfl stopped right.output printed

/-- The machine follows a loop, with at least one step for each round. -/
theorem follows_iterate {body : Evaluation → Evaluation.Outcome Evaluation}
    {test : Evaluation → Evaluation.Outcome Int} {middle last rounds : Nat}
    (leave : code.At middle .jumpIfFalse (some ((last + 1 : Nat) : Int)))
    (back : code.At last .jump (some (start : Int)))
    (tested : ∀ s m, Stands cells resolution start [] s m →
      Follows code rounds (fun a => Stands cells resolution middle [a] s) m (test s))
    (repeated : ∀ s m, Stands cells resolution (middle + 1) [] s m →
      Follows code rounds (Stands cells resolution last []) m (body s))
    (stands : Stands cells resolution start [] s m) :
    Follows code rounds (Stands cells resolution (last + 1) []) m (iterate test body rounds s) := by
  -- The rounds that are left are never more than all of them, which bounds the walks in the body.
  suffices general : ∀ left, left ≤ rounds → ∀ s m, Stands cells resolution start [] s m →
      Follows code left (Stands cells resolution (last + 1) []) m (iterate test body left s) from
    general rounds (Nat.le_refl _) s m stands
  intro left
  induction left with
  | zero => exact fun _ s m stands => .runs (Nat.zero_le _) (.here m) stands.output
  | succ left ih =>
    intro fits s m stands
    refine ((tested s m stands).weaken fits).bind ?_
    intro a m₁ ready
    -- The step of the jump is the one that the round counts for.
    refine .branch ready leave (fun m₂ stands₂ => .goes (.here m₂) stands₂) ?_
    intro m₂ stands₂
    refine ((repeated s m₂ stands₂).weaken (by omega)).bind ?_
    intro s' m₃ stands₃
    obtain ⟨m₄, walks, stands₄⟩ := stands₃.jump back
    exact .along walks (ih (by omega) s' m₄ stands₄)

/-- The places of a statement, seen as one that is carried out in turn. -/
theorem Node.occurrencesAll_subset {n : Node} {blocks : List Int}
    (inside : n.occurrences blocks ⊆ places) : Node.occurrencesAll blocks [n] ⊆ places := by
  rwa [Node.occurrencesAll_singleton]

/-- The machine follows the evaluation of statements. -/
theorem Code.Performs.follows {ns : List Node} {blocks : List Int} {rounds : Nat}
    (performs : code.Performs resolution ns start stop)
    (links : Links code.size cells places resolution owner)
    (inside : Node.occurrencesAll blocks ns ⊆ places)
    (stands : Stands cells resolution start [] s m) :
    Follows code rounds (Stands cells resolution stop []) m (performAll owner rounds ns s) := by
  -- Between statements the stack is empty, and each part starts where the last one ended.
  induction performs generalizing s m blocks with
  | nothing => exact .goes (.here m) stands
  | also first others firstIh othersIh =>
    rw [Node.occurrencesAll, List.append_subset, ← Node.occurrencesAll_singleton] at inside
    rw [performAll, ← performAll_singleton]
    exact (firstIh inside.1 stands).bind fun s' m' stands' => othersIh inside.2 stands'
  | declare known zero store =>
    rw [Node.occurrencesAll_singleton, Node.occurrences, List.cons_subset] at inside
    have member := links.declared _ inside.1 rfl
    obtain ⟨m₁, walks₁, stands₁⟩ := stands.push zero
    obtain ⟨m₂, walks₂, stands₂⟩ := stands₁.store links store member known
    rw [performAll_singleton]
    exact .goes (walks₁.trans walks₂) stands₂
  | assign known computed store =>
    rw [Node.occurrencesAll_singleton, Node.occurrences, List.cons_subset] at inside
    obtain ⟨id, member, owned, same⟩ := links.referred _ inside.1 rfl
    rw [performAll_singleton, perform]
    refine (computed.follows links inside.2 stands).bind ?_
    intro a m₁ ready
    obtain ⟨m', walks, stands'⟩ := ready.store links store member (same ▸ known)
    simp only [owned]
    exact .goes walks stands'
  | print computed shown =>
    rw [Node.occurrencesAll_singleton, Node.occurrences] at inside
    rw [performAll_singleton, perform]
    refine (computed.follows links inside stands).bind ?_
    intro a m₁ ready
    by_cases short : (Nat.digits 10 a.natAbs).length ≤ Numeral.maxDigits
    · obtain ⟨m', walks, stands'⟩ := ready.print shown short
      rw [if_pos short]
      exact .goes walks stands'
    · obtain ⟨m', stopped, printed⟩ := ready.print_stops shown short
      rw [if_neg short]
      exact .stops (.here _) rfl stopped ready.output printed
  | choose tested skip taken ih =>
    rw [Node.occurrencesAll_singleton, Node.occurrences, List.append_subset] at inside
    rw [performAll_singleton, perform]
    refine (tested.follows links inside.1 stands).bind ?_
    intro a m₁ ready
    refine (Follows.branch ready skip (fun m₂ stands₂ => .goes (.here m₂) stands₂) ?_).weaken
      (Nat.le_succ _)
    intro m₂ stands₂
    rw [← performAll_singleton]
    exact ih (Node.occurrencesAll_subset inside.2) stands₂
  | chooseElse tested skip taken hop other yesIh noIh =>
    rw [Node.occurrencesAll_singleton, Node.occurrences, List.append_subset, List.append_subset]
      at inside
    obtain ⟨⟨condition, yes⟩, no⟩ := inside
    rw [performAll_singleton, perform]
    refine (tested.follows links condition stands).bind ?_
    intro a m₁ ready
    refine (Follows.branch ready skip ?_ ?_).weaken (Nat.le_succ _)
    · intro m₂ stands₂
      rw [← performAll_singleton]
      exact noIh (Node.occurrencesAll_subset no) stands₂
    · -- Behind the first branch a jump leads past the second one.
      intro m₂ stands₂
      rw [← performAll_singleton]
      exact (yesIh (Node.occurrencesAll_subset yes) stands₂).jump hop
  | loop tested leave repeated back ih =>
    rw [Node.occurrencesAll_singleton, Node.occurrences, List.append_subset] at inside
    rw [performAll_singleton, perform]
    refine follows_iterate leave back ?_ ?_ stands
    · exact fun s' m' stands' => tested.follows links inside.1 stands'
    · intro s' m' stands'
      rw [← performAll_singleton]
      exact ih (Node.occurrencesAll_subset inside.2) stands'
  | block within ih =>
    rw [Node.occurrencesAll_singleton, Node.occurrences] at inside
    rw [performAll_singleton, perform]
    exact ih inside stands

end Program

namespace Translation

variable {source : String} (t : Translation source code)

/-- The machine stands at the start of the evaluation before its first step. -/
theorem stands_initial :
    Stands t.cells t.analysis.resolution 0 [] Evaluation.start Machine.initial :=
  ⟨rfl, rfl, fun _ _ _ _ => rfl, rfl⟩

/-- The machine follows the evaluation of the program. -/
theorem follows (rounds : Nat) : Follows code rounds
    (Stands t.cells t.analysis.resolution t.last []) Machine.initial (t.tree.evaluate rounds) :=
  t.performs.follows t.links (List.Subset.refl t.places) t.stands_initial

/-- An evaluation that comes to an end is followed to it. -/
theorem follows_end {rounds : Nat} {ending : Ending}
    (ended : ending? (t.tree.evaluate rounds) = some ending) :
    ∃ k m m', Walks code k Machine.initial m ∧ Stops code m m' ending ∧
      m.output.toList = printedBy (t.tree.evaluate rounds) ∧
      m'.output.toList = outputOf (t.tree.evaluate rounds) := by
  -- Trouble has stopped the machine, and a result has led it to the halt.
  have follows := t.follows rounds
  generalize t.tree.evaluate rounds = outcome at ended follows
  cases follows with
  | goes walks stands =>
    -- Behind the last statement stands the halt.
    obtain ⟨m', stopped, printed⟩ := stands.halt t.halts
    cases ended
    exact ⟨_, _, m', walks, stopped, stands.output, printed⟩
  | stops walks ends stopped before after =>
    rw [ends, Option.some.injEq] at ended
    subst ended
    exact ⟨_, _, _, walks, stopped, before, after⟩
  | runs long walks printed => cases ended

/-- An evaluation that does not come to an end is followed for any number of steps. -/
theorem follows_long {rounds : Nat} (endless : ending? (t.tree.evaluate rounds) = none) :
    ∃ k m, rounds ≤ k ∧ Walks code k Machine.initial m ∧
      m.output.toList = printedBy (t.tree.evaluate rounds) := by
  -- A result or trouble with an ending would be an end.
  have follows := t.follows rounds
  generalize t.tree.evaluate rounds = outcome at endless follows
  cases follows with
  | goes walks stands => cases endless
  | stops walks ends stopped before after => simp [ends] at endless
  | runs long walks printed => exact ⟨_, _, long, walks, printed⟩

/-- Every part of the program has a meaning. -/
theorem evaluate_ne_meaningless (rounds : Nat) (s : Evaluation) :
    t.tree.evaluate rounds ≠ .error (.meaningless, s) := by
  -- The machine does not follow an evaluation without a meaning.
  intro same
  have follows := t.follows rounds
  rw [same] at follows
  cases follows with
  | stops _ ends => cases ends

end Translation

/-- The code of a source text does what the reference evaluator does. Its evaluation is never
without a meaning and comes to one end at most. If it comes to an end, there is a number of steps
from which on every cap lets the run end in the same way with the same lines; below it the run ends
at the cap, with some of the numbers that the evaluation prints. If it comes to no end, every run
ends at the cap in this way, and all that the evaluation prints is printed under every cap that is
large enough. -/
theorem compile_correct {source : String} {code : Code} (compiled : compile source = .ok code) :
    ∃ tokens tree, tokenize source = .ok tokens ∧ Node.parse tokens = .ok tree ∧
    (∀ rounds s, tree.evaluate rounds ≠ .error (.meaningless, s)) ∧
    (∀ rounds rounds', (ending? (tree.evaluate rounds)).isSome →
      (ending? (tree.evaluate rounds')).isSome → tree.evaluate rounds = tree.evaluate rounds') ∧
    (∀ rounds ending, ending? (tree.evaluate rounds) = some ending → ∃ steps, 1 ≤ steps ∧
      (∀ cap, steps ≤ cap → RunsTo code cap ending (outputOf (tree.evaluate rounds))) ∧
      ∀ cap, 1 ≤ cap → cap < steps → ∃ printed, printed <+: printedBy (tree.evaluate rounds) ∧
        RunsTo code cap .limit (printed ++ [limitLine])) ∧
    ((∀ rounds, ending? (tree.evaluate rounds) = none) →
      (∀ cap, 1 ≤ cap → ∃ rounds printed, printed <+: printedBy (tree.evaluate rounds) ∧
        RunsTo code cap .limit (printed ++ [limitLine])) ∧
      ∀ rounds, ∃ enough, ∀ cap, 1 ≤ cap → enough ≤ cap → ∃ printed,
        printedBy (tree.evaluate rounds) <+: printed ∧
          RunsTo code cap .limit (printed ++ [limitLine])) := by
  obtain ⟨t⟩ := exists_translation compiled
  refine ⟨t.tokens, t.tree, t.scanned, t.parsed, t.evaluate_ne_meaningless,
    fun rounds rounds' => Node.evaluate_unique, ?_, ?_⟩
  · intro rounds ending ended
    obtain ⟨k, m, m', walks, stops, before, after⟩ := t.follows_end ended
    refine ⟨k + 1, by omega, ?_, ?_⟩
    · intro cap enough
      rw [← after]
      exact walks.runsTo stops (by omega)
    · intro cap positive short
      rw [← before]
      exact walks.runsTo_limit positive (by omega)
  · intro endless
    refine ⟨fun cap positive => ?_, fun rounds => ?_⟩
    · -- As many rounds as the cap allows steps are enough to see the cap reached.
      obtain ⟨k, m, long, walks, printed⟩ := t.follows_long (endless cap)
      refine ⟨cap, ?_⟩
      rw [← printed]
      exact walks.runsTo_limit positive long
    · -- The walk that prints so much is passed by every run that has room for it.
      obtain ⟨k, m, _, walks, printed⟩ := t.follows_long (endless rounds)
      refine ⟨k, fun cap positive behind => ?_⟩
      obtain ⟨l, m', long, longer, _⟩ := t.follows_long (endless cap)
      rw [← printed]
      exact walks.runsTo_limit_behind longer positive behind long

/-- A program that prints the first squares and divides by zero then. -/
def squaresSource : String :=
  "int a; while (a < 3) \x7b int b; b = a * a; print(b); a = a + 1; \x7d print(1 / (a - 3));"

/-- The run of that program prints the squares and the line about the division. -/
theorem compile_correct_squares : ∃ code steps, compile squaresSource = .ok code ∧
    ∀ cap, steps ≤ cap → RunsTo code cap .divisionByZero ["0", "1", "4", divisionLine] := by
  have compiles : (compile squaresSource).toOption.isSome = true := by decide +kernel
  cases compiled : compile squaresSource with
  | error failure => simp [compiled, Except.toOption] at compiles
  | ok code =>
    obtain ⟨tokens, tree, scanned, parsed, _, _, finite, _⟩ := compile_correct compiled
    -- Four rounds are enough: three that print and the test that fails.
    have evaluated : ((tokenize squaresSource).toOption.bind fun tokens =>
        (Node.parse tokens).toOption.map fun tree =>
          (ending? (tree.evaluate 4), outputOf (tree.evaluate 4))) =
        some (some .divisionByZero, ["0", "1", "4", divisionLine]) := by
      decide +kernel
    simp only [scanned, parsed, Except.toOption, Option.bind_some, Option.map_some,
      Option.some.injEq, Prod.mk.injEq] at evaluated
    obtain ⟨steps, _, enough, _⟩ := finite 4 _ evaluated.1
    exact ⟨code, steps, rfl, fun cap more => evaluated.2 ▸ enough cap more⟩

end BlockCode
