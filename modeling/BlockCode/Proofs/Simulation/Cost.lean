import BlockCode.Proofs.Machine.Truncation
import BlockCode.Proofs.Simulation

/-! What an evaluation costs, counted on the tree alone, and that a run takes as many steps. -/

namespace BlockCode

open Machine Evaluation

/-- The steps of an expression: one for each number, each variable and each operator. -/
def Node.price : Node → Nat
  | .binary _ left _ right => left.price + right.price + 1
  | .literal .. | .use .. => 1
  -- A statement is not priced as an expression.
  | _ => 0

namespace Evaluation

/-- The steps of a test, of the jump behind it and of the way that the jump leads to. -/
def testCost (price : Nat) (test : Outcome Int) (leaves enters : Outcome Nat) : Outcome Nat := do
  -- The test may fail, and then the steps are not counted.
  let holds ← test
  let taken ← (if holds = 0 then leaves else enters)
  -- One step more is that of the conditional jump.
  return price + 1 + taken

/-- The steps of a loop, which tests before each round and once more in the end. The body of a round
is followed by the jump back. -/
def iterateCost (price : Nat) (test : Evaluation → Outcome Int)
    (body : Evaluation → Outcome Evaluation) (cost : Evaluation → Outcome Nat) :
    (rounds : Nat) → Evaluation → Outcome Nat
  | 0, s => .error (.unfinished, s)
  -- The last test leaves the loop, and nothing is taken behind it.
  | rounds + 1, s => testCost price (test s) (.ok 0) do
    let round ← cost s
    let s ← body s
    let others ← iterateCost price test body cost rounds s
    -- One step more is that of the jump back.
    return round + 1 + others

mutual

/-- The steps of a statement that is carried out from some point of an evaluation on, with a number
of rounds for each loop. -/
def cost (owner : Int → Option Int) (rounds : Nat) : Node → Evaluation → Outcome Nat
  | .declare .., _ => .ok 2
  | .assign _ _ n, _ | .print _ n, _ => .ok (n.price + 1)
  | .choose _ condition yes, s =>
    testCost condition.price (s.value owner condition) (.ok 0) (cost owner rounds yes s)
  | .chooseElse _ condition yes no, s =>
    -- Behind the first branch there is a jump past the second one.
    testCost condition.price (s.value owner condition) (cost owner rounds no s) do
      let branch ← cost owner rounds yes s
      return branch + 1
  | .loop _ condition body, s =>
    iterateCost condition.price (value owner condition) (perform owner rounds body)
      (cost owner rounds body) rounds s
  | .block _ body, s => costAll owner rounds body s
  | _, s => .error (.meaningless, s)

/-- The steps of some statements in turn. -/
def costAll (owner : Int → Option Int) (rounds : Nat) : List Node → Evaluation → Outcome Nat
  | [], _ => .ok 0
  | n :: ns, s => do
    -- What a statement costs depends on the state it starts in.
    let first ← cost owner rounds n s
    let s ← perform owner rounds n s
    let others ← costAll owner rounds ns s
    return first + others

end

end Evaluation

/-- The steps of a program that is evaluated from the start, up to the halt behind it. -/
def Node.cost (tree : Node) (rounds : Nat) : Evaluation.Outcome Nat :=
  Evaluation.costAll tree.owner rounds tree.body .start

section Program

variable {code : Code} {cells : List Int} {places : List Occurrence} {resolution : Resolution}
variable {owner : Int → Option Int} {start stop rounds : Nat} {stack : List Int}
variable {s s' : Evaluation} {m : Machine}

/-- Where a part of an evaluation has a result, the machine comes to a good state for it in just as
many steps as the part costs. -/
def Spends (code : Code) (Good : Evaluation → Machine → Prop) (m : Machine)
    (cost : Evaluation.Outcome Nat) (x : Evaluation.Outcome Evaluation) : Prop :=
  ∀ s, x = .ok s → ∃ k m', cost = .ok k ∧ Walks code k m m' ∧ Good s m'

namespace Spends

variable {Good : Evaluation → Machine → Prop} {address target : Nat}
variable {x y : Evaluation.Outcome Evaluation} {spent spent' : Evaluation.Outcome Nat}

/-- Nothing is spent where the machine is at its goal already. -/
theorem none (good : Good s m) : Spends code Good m (.ok 0) (.ok s) := by
  -- There is only one state to come to, and it is reached without a step.
  intro s' done
  cases done
  exact ⟨0, m, rfl, .here m, good⟩

/-- Behind what is spent, a jump takes one step more. -/
theorem jump (spends : Spends code (Stands cells resolution address []) m spent x)
    (there : code.At address .jump (some (target : Int))) :
    Spends code (Stands cells resolution target []) m (do let k ← spent; return k + 1) x := by
  -- The jump is taken from where the steps before it lead.
  intro s' done
  obtain ⟨k, m₁, rfl, walks₁, stands₁⟩ := spends s' done
  obtain ⟨m₂, walks₂, stands₂⟩ := stands₁.jump there
  exact ⟨k + 1, m₂, rfl, walks₁.trans walks₂, stands₂⟩

/-- A test takes its own steps, one for the jump, and those of the way that is taken. -/
theorem test {price : Nat} {tested : Evaluation.Outcome Int}
    (computed : ∀ a, tested = .ok a →
      ∃ m', Walks code price m m' ∧ Stands cells resolution address [a] s m')
    (there : code.At address .jumpIfFalse (some (target : Int)))
    (leaves : ∀ m', Stands cells resolution target [] s m' → Spends code Good m' spent x)
    (enters : ∀ m', Stands cells resolution (address + 1) [] s m' →
      Spends code Good m' spent' y) :
    Spends code Good m (testCost price tested spent spent')
      (do let a ← tested; if a = 0 then x else y) := by
  intro s' done
  obtain ⟨a, rfl, done⟩ := bind_eq_ok.mp done
  obtain ⟨m₁, walks₁, stands₁⟩ := computed a rfl
  obtain ⟨m₂, walks₂, stands₂⟩ := stands₁.jumpIfFalse there
  -- The number that was tested decides on the way and on its cost alike.
  have way : Spends code Good m₂ (if a = 0 then spent else spent') (if a = 0 then x else y) := by
    by_cases zero : a = 0
    · rw [if_pos zero] at stands₂ ⊢
      rw [if_pos zero]
      exact leaves m₂ stands₂
    · rw [if_neg zero] at stands₂ ⊢
      rw [if_neg zero]
      exact enters m₂ stands₂
  obtain ⟨k, m₃, taken, walks₃, good⟩ := way s' done
  refine ⟨price + 1 + k, m₃, ?_, (walks₁.trans walks₂).trans walks₃, good⟩
  exact bind_eq_ok.mpr ⟨a, rfl, bind_eq_ok.mpr ⟨k, taken, rfl⟩⟩

end Spends

/-- The machine computes the value of an expression in as many steps as the expression has nodes. -/
theorem Code.Computes.spends {n : Node} {blocks : List Int} {a : Int}
    (computes : code.Computes resolution n start stop)
    (links : Links code.size cells places resolution owner) (inside : n.occurrences blocks ⊆ places)
    (stands : Stands cells resolution start stack s m) (valued : s.value owner n = .ok a) :
    ∃ m', Walks code n.price m m' ∧ Stands cells resolution stop (a :: stack) s m' := by
  -- The steps of the operands come before the one of the operator.
  induction computes generalizing stack m a with
  | literal push =>
    cases valued
    exact stands.push push
  | @use mark name slot start known load =>
    rw [Node.occurrences, List.cons_subset] at inside
    obtain ⟨id, member, owned, same⟩ := links.referred _ inside.1 rfl
    simp only [value, valueOf, owned] at valued
    cases valued
    exact stands.load links load member (same ▸ known)
  | binary known first second joined firstIh secondIh =>
    rw [Node.occurrences, List.append_subset] at inside
    rw [value_binary] at valued
    obtain ⟨b, left, valued⟩ := bind_eq_ok.mp valued
    obtain ⟨c, right, valued⟩ := bind_eq_ok.mp valued
    obtain ⟨m₁, walks₁, stands₁⟩ := firstIh inside.1 stands left
    obtain ⟨m₂, walks₂, stands₂⟩ := secondIh inside.2 stands₁ right
    cases operated : Kind.operate _ b c with
    | error trouble =>
      rw [operated] at valued
      cases valued
    | ok result =>
      rw [operated] at valued
      cases valued
      obtain ⟨m₃, walks₃, stands₃⟩ := stands₂.operate joined known operated
      exact ⟨m₃, (walks₁.trans walks₂).trans walks₃, stands₃⟩

/-- The machine goes through a loop in as many steps as its rounds cost. -/
theorem spends_iterate {price middle last : Nat} {test : Evaluation → Evaluation.Outcome Int}
    {body : Evaluation → Evaluation.Outcome Evaluation}
    {cost : Evaluation → Evaluation.Outcome Nat}
    (leave : code.At middle .jumpIfFalse (some ((last + 1 : Nat) : Int)))
    (back : code.At last .jump (some (start : Int)))
    (tested : ∀ s m a, Stands cells resolution start [] s m → test s = .ok a →
      ∃ m', Walks code price m m' ∧ Stands cells resolution middle [a] s m')
    (repeated : ∀ s m, Stands cells resolution (middle + 1) [] s m →
      Spends code (Stands cells resolution last []) m (cost s) (body s))
    (stands : Stands cells resolution start [] s m) :
    Spends code (Stands cells resolution (last + 1) []) m
      (iterateCost price test body cost rounds s) (iterate test body rounds s) := by
  -- The rounds are gone through one by one; each starts where the loop does.
  induction rounds generalizing s m with
  | zero =>
    intro s' done
    cases done
  | succ rounds ih =>
    refine .test (fun a => tested s m a stands) leave (fun m₁ => .none) ?_
    intro m₁ stands₁ s' done
    obtain ⟨s₁, performed, done⟩ := bind_eq_ok.mp done
    obtain ⟨k, m₂, spent, walks₂, stands₂⟩ := (repeated s m₁ stands₁).jump back s₁ performed
    obtain ⟨round, paid, same⟩ := bind_eq_ok.mp spent
    cases same
    obtain ⟨l, m₃, others, walks₃, stands₃⟩ := ih stands₂ s' done
    refine ⟨round + 1 + l, m₃, ?_, walks₂.trans walks₃, stands₃⟩
    exact bind_eq_ok.mpr ⟨round, paid, bind_eq_ok.mpr ⟨s₁, performed,
      bind_eq_ok.mpr ⟨l, others, rfl⟩⟩⟩

/-- One statement in turn takes the steps of that statement. -/
theorem spends_singleton {n : Node} {Good : Evaluation → Machine → Prop} :
    Spends code Good m (costAll owner rounds [n] s) (performAll owner rounds [n] s) ↔
      Spends code Good m (Evaluation.cost owner rounds n s) (perform owner rounds n s) := by
  rw [performAll_singleton]
  -- Nothing is added behind the only statement.
  have same {s' : Evaluation} {k : Nat} (performed : perform owner rounds n s = .ok s') :
      costAll owner rounds [n] s = .ok k ↔ Evaluation.cost owner rounds n s = .ok k := by
    simp only [costAll, performed]
    cases Evaluation.cost owner rounds n s with
    | error trouble => rfl
    | ok first => exact Iff.rfl
  constructor
  · intro spends s' performed
    obtain ⟨k, m', spent, walks⟩ := spends s' performed
    exact ⟨k, m', (same performed).mp spent, walks⟩
  · intro spends s' performed
    obtain ⟨k, m', spent, walks⟩ := spends s' performed
    exact ⟨k, m', (same performed).mpr spent, walks⟩

/-- The machine carries out statements in as many steps as they cost. -/
theorem Code.Performs.spends {ns : List Node} {blocks : List Int}
    (performs : code.Performs resolution ns start stop)
    (links : Links code.size cells places resolution owner)
    (inside : Node.occurrencesAll blocks ns ⊆ places)
    (stands : Stands cells resolution start [] s m) :
    Spends code (Stands cells resolution stop []) m (costAll owner rounds ns s)
      (performAll owner rounds ns s) := by
  -- The parts are those that the machine follows; here their steps are added up.
  induction performs generalizing s m blocks with
  | nothing => exact .none stands
  | also first others firstIh othersIh =>
    rw [Node.occurrencesAll, List.append_subset, ← Node.occurrencesAll_singleton] at inside
    intro s' done
    obtain ⟨s₁, performed, done⟩ := bind_eq_ok.mp done
    obtain ⟨k, m₁, spent, walks₁, stands₁⟩ :=
      spends_singleton.mp (firstIh inside.1 stands) s₁ performed
    obtain ⟨l, m₂, spent', walks₂, stands₂⟩ := othersIh inside.2 stands₁ s' done
    refine ⟨k + l, m₂, ?_, walks₁.trans walks₂, stands₂⟩
    exact bind_eq_ok.mpr ⟨k, spent, bind_eq_ok.mpr ⟨s₁, performed,
      bind_eq_ok.mpr ⟨l, spent', rfl⟩⟩⟩
  | declare known zero store =>
    rw [Node.occurrencesAll_singleton, Node.occurrences, List.cons_subset] at inside
    have member := links.declared _ inside.1 rfl
    -- A zero is pushed and stored, and this cannot go wrong.
    obtain ⟨m₁, walks₁, stands₁⟩ := stands.push zero
    obtain ⟨m₂, walks₂, stands₂⟩ := stands₁.store links store member known
    rw [spends_singleton]
    intro s' done
    cases done
    exact ⟨2, m₂, rfl, walks₁.trans walks₂, stands₂⟩
  | assign known computed store =>
    rw [Node.occurrencesAll_singleton, Node.occurrences, List.cons_subset] at inside
    obtain ⟨id, member, owned, same⟩ := links.referred _ inside.1 rfl
    rw [spends_singleton]
    intro s' done
    obtain ⟨a, valued, done⟩ := bind_eq_ok.mp done
    rw [owned] at done
    cases done
    obtain ⟨m₁, walks₁, stands₁⟩ := computed.spends links inside.2 stands valued
    obtain ⟨m₂, walks₂, stands₂⟩ := stands₁.store links store member (same ▸ known)
    exact ⟨_, m₂, rfl, walks₁.trans walks₂, stands₂⟩
  | print computed shown =>
    rw [Node.occurrencesAll_singleton, Node.occurrences] at inside
    rw [spends_singleton]
    intro s' done
    obtain ⟨a, valued, done⟩ := bind_eq_ok.mp done
    -- A number with too many digits has no result, and nothing is said about its steps.
    split at done
    · rename_i short
      cases done
      obtain ⟨m₁, walks₁, stands₁⟩ := computed.spends links inside stands valued
      obtain ⟨m₂, walks₂, stands₂⟩ := stands₁.print shown short
      exact ⟨_, m₂, rfl, walks₁.trans walks₂, stands₂⟩
    · cases done
  | choose tested skip taken ih =>
    rw [Node.occurrencesAll_singleton, Node.occurrences, List.append_subset] at inside
    rw [spends_singleton]
    refine .test (fun a => tested.spends links inside.1 stands) skip (fun m₁ => .none) ?_
    intro m₁ stands₁
    exact spends_singleton.mp (ih (Node.occurrencesAll_subset inside.2) stands₁)
  | chooseElse tested skip taken hop other yesIh noIh =>
    rw [Node.occurrencesAll_singleton, Node.occurrences, List.append_subset, List.append_subset]
      at inside
    obtain ⟨⟨condition, yes⟩, no⟩ := inside
    rw [spends_singleton]
    refine .test (fun a => tested.spends links condition stands) skip ?_ ?_
    · intro m₁ stands₁
      exact spends_singleton.mp (noIh (Node.occurrencesAll_subset no) stands₁)
    · -- Only the first branch has to jump past the other one.
      intro m₁ stands₁
      apply Spends.jump _ hop
      exact spends_singleton.mp (yesIh (Node.occurrencesAll_subset yes) stands₁)
  | loop tested leave repeated back ih =>
    rw [Node.occurrencesAll_singleton, Node.occurrences, List.append_subset] at inside
    rw [spends_singleton]
    -- Test and body take their own steps from whatever state a round starts in.
    refine spends_iterate leave back ?_ ?_ stands
    · intro s₁ m₁ a stands₁ held
      exact tested.spends links inside.1 stands₁ held
    · intro s₁ m₁ stands₁
      exact spends_singleton.mp (ih (Node.occurrencesAll_subset inside.2) stands₁)
  | block within ih =>
    rw [Node.occurrencesAll_singleton, Node.occurrences] at inside
    rw [spends_singleton]
    exact ih inside stands

end Program

/-- A walk and a step that stops behind it settle every run. Under a cap that leaves room for all of
these steps the run takes them, and under a smaller one it ends at the cap. -/
theorem Machine.Walks.run_settled {code : Code} {k cap : Nat} {m m' : Machine} {ending : Ending}
    (walks : Walks code k initial m) (stops : Stops code m m' ending) (positive : 1 ≤ cap) :
    ∃ r, run? code cap = some r ∧
      (k + 1 ≤ cap → r.ending = ending ∧ r.final.steps = k + 1) ∧
      (r.limitExceeded = true ↔ cap < k + 1) := by
  refine ⟨run code cap, run?_natCast positive, ?_⟩
  rcases Nat.lt_or_ge k cap with room | short
  · -- The walk and the last step are taken, and the rest of the cap is not used.
    obtain ⟨spare, rfl⟩ : ∃ spare, cap = k + (spare + 1) := ⟨cap - k - 1, by omega⟩
    obtain ⟨steps, _⟩ := stops.reported (walks.underway underway_initial)
    have ended : run code (k + (spare + 1)) = ⟨m', ending⟩ := by
      rw [run, walks.runFrom_add, stops.runFrom]
    rw [ended]
    refine ⟨fun _ => ⟨rfl, by simpa using steps⟩, iff_of_false ?_ (by omega)⟩
    simpa [Run.limitExceeded] using stops.ne_limit
  · -- The cap is used up inside the walk.
    obtain ⟨lines, _, r, ran, limited, _⟩ := walks.runsTo_limit positive short
    rw [run?_natCast positive, Option.some.injEq] at ran
    refine ⟨fun room => by omega, iff_of_true ?_ (by omega)⟩
    simp [Run.limitExceeded, ran, limited]

/-- The machine carries out a program in as many steps as it costs. -/
theorem Translation.spends {source : String} {code : Code} (t : Translation source code)
    (rounds : Nat) : Spends code (Stands t.cells t.analysis.resolution t.last []) Machine.initial
      (t.tree.cost rounds) (t.tree.evaluate rounds) :=
  t.performs.spends t.links (List.Subset.refl t.places) t.stands_initial

/-- The number of steps is compositional. If the evaluation of a program goes through, its cost is
the sum over the statements that are carried out. A run that has room for as many steps and the halt
takes just these, and a run ends at its cap if and only if it has less room. -/
theorem compile_costs {source : String} {code : Code} (compiled : compile source = .ok code) :
    ∃ tokens tree, tokenize source = .ok tokens ∧ Node.parse tokens = .ok tree ∧
    ∀ rounds s, tree.evaluate rounds = .ok s → ∃ cost, tree.cost rounds = .ok cost ∧
      ∀ cap : Nat, 1 ≤ cap → ∃ r, run? code cap = some r ∧
        (1 + cost ≤ cap → r.ending = .halted ∧ r.final.steps = 1 + cost) ∧
        (r.limitExceeded = true ↔ cap < 1 + cost) := by
  obtain ⟨t⟩ := exists_translation compiled
  refine ⟨t.tokens, t.tree, t.scanned, t.parsed, ?_⟩
  intro rounds s evaluated
  obtain ⟨cost, m, spent, walks, stands⟩ := t.spends rounds s evaluated
  -- Behind the last statement stands the halt, which is one step more.
  obtain ⟨m', stops, _⟩ := stands.halt t.halts
  refine ⟨cost, spent, fun cap positive => ?_⟩
  rw [Nat.add_comm 1 cost]
  exact walks.run_settled stops positive

/-- A loop of two rounds that takes another branch in each of them. -/
def twoRoundsSource : String :=
  "int i; while (i < 2) \x7b if (i == 1) print(i); else print(0); i = i + 1; \x7d"

/-- The declaration takes two steps, each of the three tests four, the rounds eleven and twelve, and
the halt one. With one step less the run ends at its cap. -/
theorem compile_costs_twoRounds : ∃ code, compile twoRoundsSource = .ok code ∧
    (∀ cap : Nat, 38 ≤ cap → ∃ r, run? code cap = some r ∧ r.final.steps = 38) ∧
    ∃ r, run? code 37 = some r ∧ r.limitExceeded = true := by
  have compiles : (compile twoRoundsSource).toOption.isSome = true := by decide +kernel
  cases compiled : compile twoRoundsSource with
  | error failure => simp [compiled, Except.toOption] at compiles
  | ok code =>
    obtain ⟨tokens, tree, scanned, parsed, counted⟩ := compile_costs compiled
    have evaluated : ((tokenize twoRoundsSource).toOption.bind fun tokens =>
        (Node.parse tokens).toOption.map fun tree =>
          ((tree.evaluate 3).toOption.isSome, (tree.cost 3).toOption)) =
        some (true, some 37) := by
      decide +kernel
    rw [scanned, Except.toOption, Option.bind_some, parsed, Except.toOption, Option.map_some,
      Option.some.injEq, Prod.mk.injEq] at evaluated
    obtain ⟨through, paid⟩ := evaluated
    -- The evaluation goes through, and its cost is the one that was computed.
    cases evaluation : tree.evaluate 3 with
    | error trouble => simp [evaluation, Except.toOption] at through
    | ok s =>
      obtain ⟨cost, spent, runs⟩ := counted 3 s evaluation
      rw [spent, Except.toOption, Option.some.injEq] at paid
      subst paid
      refine ⟨code, rfl, ?_, ?_⟩
      · intro cap enough
        obtain ⟨r, ran, room, _⟩ := runs cap (by omega)
        exact ⟨r, ran, (room (by omega)).2⟩
      · obtain ⟨r, ran, _, limited⟩ := runs 37 (by omega)
        exact ⟨r, ran, limited.mpr (by omega)⟩

end BlockCode
