import Mathlib.Data.Nat.Digits.Defs
import BlockCode.Machine
import BlockCode.Proofs.Scope.Occurrence

/-! A reference evaluator. It works on the tree alone: every declaration owns a cell, names denote
cells by block scope, and neither slots nor instructions come into it. -/

namespace BlockCode

/-- Why an evaluation does not go through. -/
inductive Trouble where
  /-- A number is divided by zero. -/
  | zeroDivisor
  /-- A number has too many digits to be printed. -/
  | unprintable
  /-- A part has no meaning where it stands, or names a variable that is not declared. -/
  | meaningless
  /-- A loop has not come to its end within the rounds it was given. -/
  | unfinished
deriving DecidableEq, Repr

/-- How far an evaluation has come. -/
structure Evaluation where
  /-- The cells of the declarations, by their numbers. -/
  cells : Int → Int
  /-- The numbers printed so far, as they are written. -/
  printed : List String

/-- The number that an operator gives for two numbers: quotients are rounded down, remainders have
the sign of the dividend, and comparisons give one or zero. -/
def Kind.operate : Kind → Int → Int → Except Trouble Int
  | .plus, a, b => .ok (a + b)
  | .minus, a, b => .ok (a - b)
  | .star, a, b => .ok (a * b)
  -- There is no quotient by zero, and neither is there a remainder.
  | .slash, a, b => if b = 0 then .error .zeroDivisor else .ok (a.fdiv b)
  | .percent, a, b => if b = 0 then .error .zeroDivisor else .ok (a.tmod b)
  | .equal, a, b => .ok (if a = b then 1 else 0)
  | .notEqual, a, b => .ok (if a = b then 0 else 1)
  | .less, a, b => .ok (if a < b then 1 else 0)
  | .greater, a, b => .ok (if b < a then 1 else 0)
  | .lessEqual, a, b => .ok (if a ≤ b then 1 else 0)
  | .greaterEqual, a, b => .ok (if b ≤ a then 1 else 0)
  -- Other kinds of tokens are no operators.
  | _, _, _ => .error .meaningless

namespace Evaluation

/-- Every cell holds zero, and nothing is printed. -/
def start : Evaluation := ⟨fun _ => 0, []⟩

/-- Puts a number into the cell of a declaration. -/
def put (s : Evaluation) (declaration value : Int) : Evaluation :=
  { s with cells := fun other => if other = declaration then value else s.cells other }

/-- Prints a number. -/
def print (s : Evaluation) (value : Int) : Evaluation :=
  { s with printed := s.printed ++ [toString value] }

/-- What a part of an evaluation comes to: a result, or trouble and how far it had come then. -/
abbrev Outcome (α : Type) := Except (Trouble × Evaluation) α

/-- The number that an expression stands for, given the declarations that the places denote and
the cells. -/
def valueOf (owner : Int → Option Int) (cells : Int → Int) : Node → Except Trouble Int
  | .literal _ value => .ok value
  | .use mark _ =>
    -- A name without a declaration has no value; no checked program has one.
    match owner mark.id with
    | some declaration => .ok (cells declaration)
    | none => .error .meaningless
  | .binary _ left operator right => do
    -- The left operand is evaluated first, so its trouble is told if both have some.
    let a ← valueOf owner cells left
    let b ← valueOf owner cells right
    operator.kind.operate a b
  | _ => .error .meaningless

/-- The number that an expression stands for at this point of an evaluation. -/
def value (owner : Int → Option Int) (n : Node) (s : Evaluation) : Outcome Int :=
  (valueOf owner s.cells n).mapError fun trouble => (trouble, s)

/-- Repeats something while a test does not give zero, but no more than a number of rounds. -/
def iterate (test : Evaluation → Outcome Int) (body : Evaluation → Outcome Evaluation) :
    (rounds : Nat) → Evaluation → Outcome Evaluation
  -- The last round has to be left for the test that ends the loop.
  | 0, s => .error (.unfinished, s)
  | rounds + 1, s => do
    let holds ← test s
    if holds = 0 then .ok s
    else do
      let s ← body s
      iterate test body rounds s

mutual

/-- Carries out a statement, with a number of rounds for each loop. -/
def perform (owner : Int → Option Int) (rounds : Nat) : Node → Evaluation → Outcome Evaluation
  -- A declaration sets its variable to zero each time control comes by.
  | .declare mark _, s => .ok (s.put mark.id 0)
  | .assign mark _ n, s => do
    let result ← s.value owner n
    match owner mark.id with
    | some declaration => .ok (s.put declaration result)
    | none => .error (.meaningless, s)
  | .print _ n, s => do
    let result ← s.value owner n
    -- A number is printed only if it is short enough to be written in digits.
    if (Nat.digits 10 result.natAbs).length ≤ Numeral.maxDigits then .ok (s.print result)
    else .error (.unprintable, s)
  | .choose _ condition yes, s => do
    let holds ← s.value owner condition
    if holds = 0 then .ok s else perform owner rounds yes s
  | .chooseElse _ condition yes no, s => do
    let holds ← s.value owner condition
    if holds = 0 then perform owner rounds no s else perform owner rounds yes s
  | .loop _ condition body, s =>
    -- The rounds are counted anew for each time the loop is entered.
    iterate (value owner condition) (perform owner rounds body) rounds s
  | .block _ body, s => performAll owner rounds body s
  | _, s => .error (.meaningless, s)

/-- Carries out some statements in turn. -/
def performAll (owner : Int → Option Int) (rounds : Nat) :
    List Node → Evaluation → Outcome Evaluation
  -- The first trouble ends all of it.
  | [], s => .ok s
  | n :: ns, s => do
    let s ← perform owner rounds n s
    performAll owner rounds ns s

end

/-- The way a run of the program has to end, if the evaluation has come to an end. -/
def ending? : Outcome Evaluation → Option Ending
  | .ok _ => some .halted
  | .error (.zeroDivisor, _) => some .divisionByZero
  | .error (.unprintable, _) => some (.fault (.numeral .unprintable))
  -- An evaluation that has not come to an end says nothing about the run.
  | .error (.meaningless, _) | .error (.unfinished, _) => none

/-- The numbers printed until an evaluation ended or was given up. -/
def printedBy : Outcome Evaluation → List String
  | .ok s | .error (_, s) => s.printed

/-- All lines of an evaluation: the numbers printed, and a line about a division by zero. -/
def outputOf : Outcome Evaluation → List String
  -- The numbers printed before the division are not lost.
  | .error (.zeroDivisor, s) => s.printed ++ [Machine.divisionLine]
  | outcome => printedBy outcome

/-- Two outcomes are the same unless the first was given up. -/
def Agrees {α : Type} (x y : Outcome α) : Prop :=
  x = y ∨ ∃ s, x = .error (.unfinished, s)

section Agrees

variable {α β : Type}

/-- Outcomes agree if their first parts do and the parts that follow do. -/
theorem Agrees.bind {x y : Outcome α} {f g : α → Outcome β} (first : Agrees x y)
    (following : ∀ a, Agrees (f a) (g a)) : Agrees (x >>= f) (y >>= g) := by
  -- A first part that was given up is the end of both.
  rcases first with rfl | ⟨s, rfl⟩
  · cases x with
    | error trouble => exact .inl rfl
    | ok a => exact following a
  · exact .inr ⟨s, rfl⟩

/-- A loop with more rounds, and with more rounds for the loops in it, comes to the same end. -/
theorem iterate_agrees {test : Evaluation → Outcome Int}
    {body body' : Evaluation → Outcome Evaluation} (same : ∀ s, Agrees (body s) (body' s))
    {rounds rounds' : Nat} (more : rounds ≤ rounds') (s : Evaluation) :
    Agrees (iterate test body rounds s) (iterate test body' rounds' s) := by
  -- The rounds of the shorter loop are rounds of the longer one.
  induction rounds generalizing rounds' s with
  | zero => exact .inr ⟨s, rfl⟩
  | succ rounds ih =>
    obtain ⟨more', rfl⟩ : ∃ more', rounds' = more' + 1 := ⟨rounds' - 1, by omega⟩
    refine Agrees.bind (.inl rfl) fun holds => ?_
    split
    · exact .inl rfl
    · exact (same s).bind fun s' => ih (by omega) s'

mutual

/-- A statement with more rounds for its loops comes to the same end. -/
theorem perform_agrees (owner : Int → Option Int) {rounds rounds' : Nat} (more : rounds ≤ rounds') :
    ∀ (n : Node) (s : Evaluation), Agrees (perform owner rounds n s) (perform owner rounds' n s)
  -- Only loops count rounds, and what holds them passes the rounds on.
  | .choose _ condition yes, s => by
    refine Agrees.bind (.inl rfl) fun holds => ?_
    split
    · exact .inl rfl
    · exact perform_agrees owner more yes s
  | .chooseElse _ condition yes no, s => by
    refine Agrees.bind (.inl rfl) fun holds => ?_
    split
    · exact perform_agrees owner more no s
    · exact perform_agrees owner more yes s
  | .loop _ condition body, s =>
    iterate_agrees (fun s' => perform_agrees owner more body s') more s
  | .block _ body, s => performAll_agrees owner more body s
  | .declare .., _ | .assign .., _ | .print .., _ | .program .., _ | .binary .., _
  | .literal .., _ | .use .., _ | .unknown .., _ => .inl rfl

/-- Statements with more rounds for their loops come to the same end. -/
theorem performAll_agrees (owner : Int → Option Int) {rounds rounds' : Nat}
    (more : rounds ≤ rounds') : ∀ (ns : List Node) (s : Evaluation),
    Agrees (performAll owner rounds ns s) (performAll owner rounds' ns s)
  -- The rounds are the same for each statement, not shared out among them.
  | [], _ => .inl rfl
  | n :: ns, s =>
    (perform_agrees owner more n s).bind fun s' => performAll_agrees owner more ns s'

end

end Agrees

end Evaluation

namespace Node

/-- The number of the declaration that the place with a number denotes by block scope. -/
def owner (tree : Node) (id : Int) : Option Int := do
  let places := tree.occurrences []
  -- The place is found in the tree, and what is declared before it in source order is searched.
  let u ← places.find? (·.id = id)
  let declared := Occurrence.declarations (places.takeWhile (·.id ≠ id))
  let d ← Occurrence.search declared u.name.lexeme u.blocks
  return d.id

/-- Evaluates a program from the start, with a number of rounds for each loop. -/
def evaluate (tree : Node) (rounds : Nat) : Evaluation.Outcome Evaluation :=
  Evaluation.performAll tree.owner rounds tree.body .start

/-- An evaluation that has come to an end comes to the same end with any number of rounds that is
enough. -/
theorem evaluate_unique {tree : Node} {rounds rounds' : Nat}
    (ended : (Evaluation.ending? (tree.evaluate rounds)).isSome)
    (ended' : (Evaluation.ending? (tree.evaluate rounds')).isSome) :
    tree.evaluate rounds = tree.evaluate rounds' := by
  -- Of two numbers of rounds, the smaller one is already enough.
  have keeps {low high : Nat} (more : low ≤ high)
      (finished : (Evaluation.ending? (tree.evaluate low)).isSome) :
      tree.evaluate low = tree.evaluate high := by
    rcases Evaluation.performAll_agrees tree.owner more tree.body .start with same | ⟨s, given_up⟩
    · exact same
    · rw [evaluate, given_up] at finished
      cases finished
  rcases Nat.le_total rounds rounds' with more | less
  · exact keeps more ended
  · exact (keeps less ended').symm

end Node

end BlockCode
