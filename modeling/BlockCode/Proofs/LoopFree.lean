import BlockCode.Proofs.Frame
import BlockCode.Proofs.Machine.Truncation

/-! Programs without a loop. All their jumps lead forward, so a run comes to every instruction once
at most, and a cap of as many steps as there are instructions is never reached. -/

namespace BlockCode

namespace Node

mutual

/-- Tells whether there is a loop in a tree. -/
def hasLoop : Node → Bool
  -- The search goes into the parts; there is nothing to find in a leaf.
  | program _ body | block _ body => haveLoop body
  | assign _ _ value | print _ value => value.hasLoop
  | choose _ condition yes => condition.hasLoop || yes.hasLoop
  | chooseElse _ condition yes no => condition.hasLoop || yes.hasLoop || no.hasLoop
  | loop .. => true
  | binary _ left _ right => left.hasLoop || right.hasLoop
  | declare .. | literal .. | use .. | unknown .. => false

/-- Tells whether there is a loop in one of some trees. -/
def haveLoop : List Node → Bool
  -- One loop is enough, wherever it stands.
  | [] => false
  | n :: ns => n.hasLoop || haveLoop ns

end

/-- There is a loop in some trees if one of them has it. -/
theorem haveLoop_of_mem {n : Node} {ns : List Node} (member : n ∈ ns) (found : n.hasLoop = true) :
    haveLoop ns = true := by
  -- The first tree has it or one of the others does.
  induction ns with
  | nil => cases member
  | cons first ns ih =>
    rw [haveLoop, Bool.or_eq_true]
    rcases List.mem_cons.mp member with rfl | later
    · exact .inl found
    · exact .inr (ih later)

/-- A tree has every loop of what stands in it. -/
theorem Within.hasLoop {m n : Node} (within : m.Within n) (found : m.hasLoop = true) :
    n.hasLoop = true := by
  induction within with
  | root => exact found
  | @inside child n member within ih =>
    -- A loop below the root is one of the tree.
    cases n with
    | program mark body => exact haveLoop_of_mem member ih
    | block mark body => exact haveLoop_of_mem member ih
    | loop => rfl
    | declare | literal | use | unknown => cases member
    | _ =>
      simp only [children, List.mem_cons, List.not_mem_nil, or_false] at member
      rcases member with rfl | rfl | rfl <;> simp [Node.hasLoop, ih]

end Node

/-- All jumps lead to addresses behind their own. -/
def Code.Forward (code : Code) : Prop :=
  -- Both kinds of jumps are meant, and a jump without a target is not forward.
  ∀ (address : Nat) op operand, op = .jump ∨ op = .jumpIfFalse → code.At address op operand →
    ∃ target : Nat, operand = some (target : Int) ∧ address < target

/-- The code of a tree without a loop jumps forward only. -/
theorem Code.forward_of_hasLoop {resolution : Resolution} {mark : Mark} {body : List Node}
    {code : Code} (generated : generate resolution (.program mark body) = .ok code)
    (free : (Node.program mark body).hasLoop = false) : code.Forward := by
  intro address op operand jumps there
  -- A jump back would belong to a loop of the tree.
  obtain ⟨comment, has⟩ := has_of_at generated jumps there
  obtain ⟨n, start, target, lies, leads, jump⟩ := has.jump jumps
  rcases jump.forward with forward | ⟨⟨mark', condition, repeated, rfl⟩, _⟩
  · exact ⟨target, leads, forward⟩
  · rw [lies.within.hasLoop rfl] at free
    cases free

namespace Machine

variable {code : Code} {m m' : Machine}

/-- The addresses that a run with room for some steps dispatches from, in order. -/
def dispatched (code : Code) : (room : Nat) → Machine → List Int
  | 0, _ => []
  | room + 1, m =>
    -- Only an instruction that is there is dispatched.
    if m.ip < code.size then
      match m.step code with
      | .next m' => m.ip :: dispatched code room m'
      -- The instruction that ends a run is the last one dispatched.
      | .stop _ _ => [m.ip]
    else []

/-- A run counts a step for each address that it dispatches from. -/
theorem steps_runFrom (code : Code) (room : Nat) (m : Machine) :
    (runFrom code room m).final.steps = m.steps + (dispatched code room m).length := by
  induction room generalizing m with
  | zero => rfl
  | succ room ih =>
    have printed := Prints.step code m
    rw [runFrom, dispatched]
    by_cases inside : m.ip < code.size
    · simp only [if_pos inside]
      -- The step is counted whether or not it ends the run.
      cases stepped : m.step code with
      | next m₁ =>
        rw [stepped] at printed
        have counted : m₁.steps = m.steps + 1 := by
          cases printed with
          | quiet _ steps => exact steps
          | line _ _ steps => exact steps
        simp only [ih, counted, List.length_cons]
        omega
      | stop m₁ ending =>
        rw [stepped] at printed
        cases printed with
        | ends _ steps _ _ => exact steps
        | divides _ steps => exact steps
    · simp only [if_neg inside]
      rfl

end Machine

open Machine

namespace Steady

variable {code : Code} {slotCount address : Nat} {m m' : Machine}

/-- Where all jumps lead forward, so does every step. -/
theorem ip_lt (forward : code.Forward) (steady : Steady code address m)
    (stepped : m.step code = .next m') : m.ip < m'.ip := by
  have ip := steady.ip
  -- The instruction at hand is known by its opcode and operand alone.
  have inside := steady.inside
  have there : code.At address code[address].op code[address].operand :=
    ⟨code[address].comment, Array.getElem?_eq_getElem inside⟩
  generalize code[address].op = op, code[address].operand = operand at there
  obtain ⟨comment, executed⟩ := step_at there ip
  rcases (carries_execute (executed.symm.trans stepped)).ip with next | ⟨jumps, leads⟩
  · have next : m'.ip = m.ip + 1 := next
    omega
  · obtain ⟨target, same, behind⟩ := forward address op operand jumps there
    have leads : operand = some m'.ip := leads
    rw [same, Option.some.injEq] at leads
    omega

/-- A step that goes on leads to a state in order. -/
theorem next (fits : code.Fits slotCount)
    (steady : Steady code address m) (stepped : m.step code = .next m') :
    ∃ address', Steady code address' m' := by
  -- The step is the one that goes on, so the state that it leads to is the one in order.
  rcases steady.step fits with ⟨m₁, address₁, stepped₁, steady₁⟩ | ⟨m₁, ending, stopped, _⟩
  · cases stepped.symm.trans stepped₁
    exact ⟨address₁, steady₁⟩
  · cases stepped.symm.trans stopped

/-- A walk leads on by one address at least with each of its steps. -/
theorem ip_add_le {k : Nat} (fits : code.Fits slotCount)
    (forward : code.Forward) (steady : Steady code address m) (walks : Walks code k m m') :
    m.ip + k ≤ m'.ip := by
  -- Along the walk, each step leads forward, since no jump leads back.
  induction walks generalizing address with
  | here m => simp
  | @step k m m₁ m' inside stepped further ih =>
    have ascends := steady.ip_lt forward stepped
    obtain ⟨address₁, steady₁⟩ := steady.next fits stepped
    have others := ih steady₁
    omega

/-- A run dispatches from ascending addresses. -/
theorem dispatched_ascends (fits : code.Fits slotCount)
    (forward : code.Forward) (room : Nat) (steady : Steady code address m) :
    (∀ a ∈ dispatched code room m, m.ip ≤ a) ∧ (dispatched code room m).Pairwise (· < ·) := by
  induction room generalizing m address with
  | zero => exact ⟨by simp [dispatched], .nil⟩
  | succ room ih =>
    have ip := steady.ip
    have inside := steady.inside
    rw [dispatched, if_pos (by omega)]
    cases stepped : m.step code with
    | stop m₁ ending => simp
    | next m₁ =>
      -- The others lie behind the next address, and that one behind this.
      have ascends := steady.ip_lt forward stepped
      obtain ⟨address₁, steady₁⟩ := steady.next fits stepped
      obtain ⟨behind, others⟩ := ih steady₁
      have above : ∀ a ∈ dispatched code room m₁, m.ip < a := by
        intro a later
        have := behind a later
        omega
      refine ⟨?_, .cons above others⟩
      rintro a (_ | ⟨_, later⟩)
      · exact Int.le_refl _
      · exact Int.le_of_lt (above a later)

end Steady

/-- A run of a program without a loop dispatches every instruction once at most, and so takes no
more steps than there are instructions. If its cap is not smaller than their number, the run ends
by itself: at the halt, at a zero that divides, or at a number that has too many digits to be
printed. -/
theorem compile_loopFree {source : String} {code : Code} (compiled : compile source = .ok code) :
    ∃ tokens tree, tokenize source = .ok tokens ∧ Node.parse tokens = .ok tree ∧
    (tree.hasLoop = false → ∀ cap : Nat, 1 ≤ cap → ∃ r, run? code cap = some r ∧
      (dispatched code cap Machine.initial).Nodup ∧
      r.final.steps = (dispatched code cap Machine.initial).length ∧
      r.final.steps ≤ code.size ∧
      (code.size ≤ cap → r.limitExceeded = false ∧
        ∃ k m, Walks code k Machine.initial m ∧ Stops code m r.final r.ending ∧
          EndsSafely code m r.final r.ending)) := by
  obtain ⟨t⟩ := exists_translation compiled
  refine ⟨t.tokens, t.tree, t.scanned, t.parsed, ?_⟩
  intro free cap positive
  have forward := Code.forward_of_hasLoop (t.generated compiled) free
  have ordered := (t.steady_initial.dispatched_ascends t.fits forward cap).2
  have counted := steps_runFrom code cap Machine.initial
  have distinct : (dispatched code cap Machine.initial).Nodup := ordered.imp Int.ne_of_lt
  refine ⟨run code cap, run?_natCast positive, distinct, ?_, ?_⟩
  · simpa [run, Machine.initial] using counted
  -- A walk of some steps has come at least as far into the code.
  have reach {k : Nat} {m : Machine} (walks : Walks code k Machine.initial m) : k < code.size := by
    have far := t.steady_initial.ip_add_le t.fits forward walks
    obtain ⟨address, steady⟩ := t.steady_initial.walks t.fits walks
    have ip := steady.ip
    have inside := steady.inside
    simp only [Machine.initial] at far
    omega
  rcases t.steady_initial.runFrom t.fits cap with
    ⟨m, walks, ended⟩ | ⟨k, m, m', ending, _, walks, stops, safe, ended⟩
  · -- A run that ends at its cap has not come to the end of the code.
    have short := reach walks
    have steps := (walks.underway underway_initial).steps
    rw [run, ended]
    refine ⟨by simp only [steps]; omega, fun enough => by omega⟩
  · have short := reach walks
    obtain ⟨steps, _⟩ := stops.reported (walks.underway underway_initial)
    rw [run, ended]
    refine ⟨by simp only [steps]; omega, fun _ => ⟨?_, k, m, walks, stops, safe⟩⟩
    simpa [Run.limitExceeded] using stops.ne_limit

/-- A choice between two numbers to print. -/
def twoWaysSource : String := "if (0) print(1); else print(2);"

/-- The tokens of that program. -/
def twoWaysTokens : List Token :=
  -- The condition is zero, so that the alternative is taken.
  [⟨.kwIf, "if", ⟨1, 1⟩⟩, ⟨.openParen, "(", ⟨1, 4⟩⟩, ⟨.number, "0", ⟨1, 5⟩⟩,
    ⟨.closeParen, ")", ⟨1, 6⟩⟩, ⟨.kwPrint, "print", ⟨1, 8⟩⟩, ⟨.openParen, "(", ⟨1, 13⟩⟩,
    ⟨.number, "1", ⟨1, 14⟩⟩, ⟨.closeParen, ")", ⟨1, 15⟩⟩, ⟨.semicolon, ";", ⟨1, 16⟩⟩,
    ⟨.kwElse, "else", ⟨1, 18⟩⟩, ⟨.kwPrint, "print", ⟨1, 23⟩⟩, ⟨.openParen, "(", ⟨1, 28⟩⟩,
    ⟨.number, "2", ⟨1, 29⟩⟩, ⟨.closeParen, ")", ⟨1, 30⟩⟩, ⟨.semicolon, ";", ⟨1, 31⟩⟩,
    ⟨.finish, "", ⟨1, 32⟩⟩]

/-- The code of that program. -/
def twoWaysCode : Code :=
  -- The first jump leads behind the second one, which is never reached.
  #[⟨.push, some 0, none⟩, ⟨.jumpIfFalse, some 5, some "if false"⟩, ⟨.push, some 1, none⟩,
    ⟨.print, none, none⟩, ⟨.jump, some 7, some "skip else"⟩, ⟨.push, some 2, none⟩,
    ⟨.print, none, none⟩, ⟨.halt, none, none⟩]

/-- The run passes over the first branch, and a cap of the eight instructions is not reached. -/
theorem compile_loopFree_twoWays : compile twoWaysSource = .ok twoWaysCode ∧
    dispatched twoWaysCode 8 Machine.initial = [0, 1, 5, 6, 7] ∧
    ∃ r, run? twoWaysCode 8 = some r ∧ r.final.steps = 5 ∧ r.limitExceeded = false := by
  -- The program is evaluated on both sides of the general fact.
  have scanned : tokenize twoWaysSource = .ok twoWaysTokens := by decide +kernel
  have compiled : compile twoWaysSource = .ok twoWaysCode := by decide +kernel
  have addresses : dispatched twoWaysCode 8 Machine.initial = [0, 1, 5, 6, 7] := by decide +kernel
  obtain ⟨tokens, tree, scanned', parsed, free⟩ := compile_loopFree compiled
  cases scanned.symm.trans scanned'
  cases parsed
  obtain ⟨r, ran, _, steps, _, ends⟩ := free rfl 8 (by decide)
  rw [addresses] at steps
  exact ⟨compiled, addresses, r, ran, steps, (ends (by decide)).1⟩

end BlockCode
