import BlockCode.Machine

/-! Walks of the machine: rows of steps that do not end the run, and what a capped run makes of
them. -/

namespace BlockCode.Machine

variable {code : Code} {k l : Nat} {m m₁ m' : Machine} {ending : Ending}

/-- A number of steps leads from one state to another, and none of them ends the run. -/
inductive Walks (code : Code) : Nat → Machine → Machine → Prop where
  | here (m : Machine) : Walks code 0 m m
  | step {k : Nat} {m m₁ m' : Machine} (inside : m.ip < code.size)
      (stepped : m.step code = .next m₁) (further : Walks code k m₁ m') : Walks code (k + 1) m m'

/-- The next step ends the run. -/
structure Stops (code : Code) (m m' : Machine) (ending : Ending) : Prop where
  inside : m.ip < code.size
  stepped : m.step code = .stop m' ending

namespace Walks

/-- One step is a walk. -/
theorem single (inside : m.ip < code.size) (stepped : m.step code = .next m') :
    Walks code 1 m m' :=
  .step inside stepped (.here m')

/-- One walk follows another. -/
theorem trans (first : Walks code k m m₁) (second : Walks code l m₁ m') :
    Walks code (k + l) m m' := by
  -- The steps of the first walk come first.
  induction first with
  | here m => simpa using second
  | step inside stepped further ih =>
    rw [Nat.add_right_comm]
    exact .step inside stepped (ih second)

/-- A walk passes a state after each smaller number of steps. -/
theorem split (walks : Walks code k m m') (shorter : l ≤ k) :
    ∃ m₁, Walks code l m m₁ ∧ Walks code (k - l) m₁ m' := by
  -- Steps are taken off the front until the number is reached.
  induction walks generalizing l with
  | here m =>
    obtain rfl : l = 0 := by omega
    exact ⟨m, .here m, .here m⟩
  | @step k m m₂ m' inside stepped further ih =>
    cases l with
    | zero => exact ⟨m, .here m, .step inside stepped further⟩
    | succ l =>
      obtain ⟨m₁, front, back⟩ := ih (Nat.le_of_succ_le_succ shorter)
      exact ⟨m₁, .step inside stepped front, by simpa using back⟩

/-- What every step keeps is kept by a walk. -/
theorem keeps {P : Machine → Prop}
    (each : ∀ m m₁, P m → m.ip < code.size → m.step code = .next m₁ → P m₁)
    (walks : Walks code k m m') (start : P m) : P m' := by
  -- Step by step, from the start of the walk to its end.
  induction walks with
  | here m => exact start
  | step inside stepped further ih => exact ih (each _ _ start inside stepped)

/-- As many steps lead to one state only. -/
theorem unique {m₂ : Machine} (first : Walks code k m m₁) (second : Walks code k m m₂) :
    m₁ = m₂ := by
  -- A step goes on to one state.
  induction first with
  | here m =>
    cases second with
    | here => rfl
  | step inside stepped further ih =>
    cases second with
    | step _ stepped' further' =>
      cases stepped.symm.trans stepped'
      exact ih further'

/-- A run with room for a walk goes on from its end. -/
theorem runFrom_add (walks : Walks code k m m') (room : Nat) :
    runFrom code (k + room) m = runFrom code room m' := by
  -- Each step of the walk takes one from the room.
  induction walks with
  | here m => simp
  | step inside stepped further ih =>
    rw [Nat.add_right_comm, runFrom, if_pos inside, stepped]
    exact ih

end Walks

/-- A run with room for one more step ends at a step that stops. -/
theorem Stops.runFrom (stops : Stops code m m' ending) (room : Nat) :
    runFrom code (room + 1) m = ⟨m', ending⟩ := by
  rw [Machine.runFrom, if_pos stops.inside, stops.stepped]

/-- What one instruction may do to the output: an instruction that goes on prints the text of a
value at most, and one that ends the run prints at most the line about a division. None of them
counts steps. -/
inductive Prints (m : Machine) : Progress → Prop where
  | quiet {m' : Machine} (output : m'.output = m.output) (steps : m'.steps = m.steps) :
      Prints m (.next m')
  | line {m' : Machine} {value : Value} {text : String} (shown : show? value = .ok text)
      (output : m'.output = m.output.push text) (steps : m'.steps = m.steps) : Prints m (.next m')
  | ends {m' : Machine} {ending : Ending} (output : m'.output = m.output)
      (steps : m'.steps = m.steps) (divides : ending ≠ .divisionByZero) (limit : ending ≠ .limit) :
      Prints m (.stop m' ending)
  | divides {m' : Machine} (output : m'.output = m.output.push divisionLine)
      (steps : m'.steps = m.steps) : Prints m (.stop m' .divisionByZero)

namespace Prints

/-- A failure prints nothing. -/
theorem fail (fault : Fault) (output : m₁.output = m.output) (steps : m₁.steps = m.steps) :
    m.Prints (m₁.fail fault) :=
  .ends output steps (by simp) (by simp)

/-- A jump prints nothing, whether it has a target or not. -/
theorem goTo (target : Option Int) (output : m₁.output = m.output) (steps : m₁.steps = m.steps) :
    m.Prints (m₁.goTo target) := by
  -- Without a target the jump is a fault, which prints nothing either.
  cases target with
  | none => exact .ends output steps (by simp) (by simp)
  | some target => exact .quiet output steps

/-- An operation prints only when a zero divides. -/
theorem operate (operator : Operator) : m.Prints (m.operate operator) := by
  -- One case for each way out of the operation.
  fun_cases Machine.operate m operator with
  | case1 | case2 | case4 => exact .fail _ rfl rfl
  | case3 => exact .divides rfl rfl
  | case5 => exact .quiet rfl rfl

/-- An instruction prints one line at most. -/
theorem execute (capacity : Nat) (i : Instruction) : m.Prints (m.execute capacity i) := by
  -- Only printing and dividing touch the output; the other instructions hand it on.
  obtain ⟨op, operand, comment⟩ := i
  cases op with
  | halt => exact .ends rfl rfl (by simp) (by simp)
  | push => exact .quiet rfl rfl
  | load =>
    simp only [Machine.execute]
    split
    · exact .fail _ rfl rfl
    · split
      · exact .fail _ rfl rfl
      · exact .quiet rfl rfl
  | store =>
    simp only [Machine.execute]
    split
    · exact .fail _ rfl rfl
    · split
      · exact .fail _ rfl rfl
      · split
        · exact .fail _ rfl rfl
        · exact .quiet rfl rfl
  | jump => exact .goTo _ rfl rfl
  | jumpIfFalse =>
    simp only [Machine.execute]
    split
    · exact .fail _ rfl rfl
    · split
      · exact .goTo _ rfl rfl
      · exact .quiet rfl rfl
  | print =>
    simp only [Machine.execute]
    split
    · exact .fail _ rfl rfl
    · split
      · exact .fail _ rfl rfl
      · rename_i shown
        exact .line shown rfl rfl
  | binary operator => exact .operate operator

/-- A step prints what its instruction prints, behind one more step that is counted. -/
theorem step (code : Code) (m : Machine) :
    Prints { m with steps := m.steps + 1 } (m.step code) := by
  -- Where there is no instruction, fetching one fails.
  simp only [Machine.step]
  split
  · exact .fail _ rfl rfl
  · exact .execute _ _

end Prints

/-- Along a walk lines are only added to the output. -/
theorem Walks.output_prefix (walks : Walks code k m m') :
    m.output.toList <+: m'.output.toList := by
  -- It is enough that one step does so.
  refine walks.keeps (P := fun m₁ => m.output.toList <+: m₁.output.toList) ?_ List.prefix_rfl
  intro m₁ m₂ added _ stepped
  have printed := Prints.step code m₁
  rw [stepped] at printed
  -- The output stays as it was, or gets one line behind it.
  cases printed with
  | quiet output _ => simpa [output] using added
  | line _ output _ =>
    refine added.trans ?_
    simp [output]

/-- A run under a cap ends in some way, with some lines printed. -/
def RunsTo (code : Code) (cap : Nat) (ending : Ending) (lines : List String) : Prop :=
  ∃ r, run? code cap = some r ∧ r.ending = ending ∧ r.final.output.toList = lines

/-- A positive cap is accepted. -/
theorem run?_natCast {cap : Nat} (positive : 0 < cap) : run? code cap = some (run code cap) := by
  simp [run?, positive]

/-- A run whose cap leaves room for a walk and one more step ends as that step does. -/
theorem Walks.runsTo {cap : Nat} (walks : Walks code k initial m) (stops : Stops code m m' ending)
    (room : k < cap) : RunsTo code cap ending m'.output.toList := by
  -- The walk and the last step take what they need, and the rest of the cap is not used.
  obtain ⟨spare, rfl⟩ : ∃ spare, cap = k + (spare + 1) := ⟨cap - k - 1, by omega⟩
  refine ⟨⟨m', ending⟩, ?_, rfl, rfl⟩
  rw [run?_natCast (by omega), run, walks.runFrom_add, stops.runFrom]

/-- A run whose cap is used up by a walk ends at the cap, with the lines that the walk prints. -/
theorem Walks.runsTo_cap {cap : Nat} (walks : Walks code cap initial m) (positive : 0 < cap) :
    RunsTo code cap .limit (m.output.toList ++ [limitLine]) := by
  -- No room is left at the end of the walk.
  refine ⟨_, run?_natCast positive, ?_⟩
  have ended := walks.runFrom_add 0
  rw [Nat.add_zero] at ended
  rw [run, ended]
  simp [Machine.runFrom]

/-- A run whose cap leaves no room beyond a walk ends at the cap, with some of the lines that the
walk prints. -/
theorem Walks.runsTo_limit {cap : Nat} (walks : Walks code k initial m) (positive : 0 < cap)
    (short : cap ≤ k) :
    ∃ lines, lines <+: m.output.toList ∧ RunsTo code cap .limit (lines ++ [limitLine]) := by
  -- The run is cut off inside the walk.
  obtain ⟨m₁, front, back⟩ := walks.split short
  exact ⟨m₁.output.toList, back.output_prefix, front.runsTo_cap positive⟩

/-- A run that is cut off behind a walk, but inside a longer one, has printed the lines of the
first. -/
theorem Walks.runsTo_limit_behind {cap : Nat} (walks : Walks code k initial m)
    (longer : Walks code l initial m') (positive : 0 < cap) (behind : k ≤ cap) (short : cap ≤ l) :
    ∃ lines, m.output.toList <+: lines ∧ RunsTo code cap .limit (lines ++ [limitLine]) := by
  -- The longer walk passes the end of the first one before it is cut off.
  obtain ⟨m₁, front, _⟩ := longer.split short
  obtain ⟨m₂, first, second⟩ := front.split behind
  cases first.unique walks
  exact ⟨m₁.output.toList, second.output_prefix, front.runsTo_cap positive⟩

end BlockCode.Machine
