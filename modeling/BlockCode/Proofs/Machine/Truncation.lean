import BlockCode.Proofs.Machine.Walk
import BlockCode.Proofs.Numeral

/-! The cap on the steps of a run only cuts the run off: a run that ends by itself ends in the same
way under every larger cap, and a run that is cut off is the beginning of the longer one. -/

namespace BlockCode

namespace Machine

variable {code : Code} {cap k : Nat} {m m' : Machine} {ending : Ending}

/-- The text of a value has no blank in it. -/
theorem blank_not_mem_shown {value : Value} {text : String} (shown : show? value = .ok text) :
    ' ' ∉ text.toList := by
  cases value with
  | none =>
    cases shown
    decide
  | some n =>
    -- A number that is printed is printed as it is written.
    simp only [show?, Numeral.write] at shown
    split at shown
    · cases shown
      exact Numeral.blank_not_mem n
    · cases shown

/-- A line that reports why a run was ended. -/
def IsReport (line : String) : Prop := line = limitLine ∨ line = divisionLine

/-- No value prints like a report. -/
theorem not_isReport_of_shown {value : Value} {text : String} (shown : show? value = .ok text) :
    ¬ IsReport text := by
  -- There are blanks in both reports.
  have plain := blank_not_mem_shown shown
  rintro (rfl | rfl)
  · exact plain (by decide)
  · exact plain (by decide)

/-- A machine in the middle of a run: it has counted its steps, and printed nothing but values. -/
structure Underway (steps : Nat) (m : Machine) : Prop where
  steps : m.steps = steps
  lines : ∀ line ∈ m.output.toList, ¬ IsReport line

/-- A step that goes on leaves the machine in the middle of its run. -/
theorem Underway.step (underway : Underway k m) (stepped : m.step code = .next m') :
    Underway (k + 1) m' := by
  have printed := Prints.step code m
  rw [stepped] at printed
  cases printed with
  | quiet output steps =>
    refine ⟨by rw [steps, underway.steps], ?_⟩
    rw [output]
    exact underway.lines
  | line shown output steps =>
    refine ⟨by rw [steps, underway.steps], ?_⟩
    rw [output, Array.toList_push]
    -- The line behind the others is the text of a value.
    intro line member
    rcases List.mem_append.mp member with before | last
    · exact underway.lines line before
    · rw [List.mem_singleton.mp last]
      exact not_isReport_of_shown shown

/-- A walk leaves the machine in the middle of its run. -/
theorem Walks.underway {start : Nat} (walks : Walks code k m m') (underway : Underway start m) :
    Underway (start + k) m' := by
  -- Each step counts one.
  induction walks generalizing start with
  | here m => exact underway
  | @step k m m₁ m' inside stepped further ih =>
    have later := ih (underway.step stepped)
    rwa [Nat.add_right_comm, Nat.add_assoc] at later

/-- The machine before its first step has counted nothing and printed nothing. -/
theorem underway_initial : Underway 0 initial :=
  ⟨rfl, by simp [initial]⟩

/-- What a capped run comes to: a walk, and behind it a step that stops, the end of the code, or the
cap. -/
inductive Comes (code : Code) (room : Nat) (m : Machine) : Run → Prop where
  | stopped {k : Nat} {m₁ m' : Machine} {ending : Ending} (walks : Walks code k m m₁)
      (within : k < room) (stops : Stops code m₁ m' ending) : Comes code room m ⟨m', ending⟩
  | left {k : Nat} {m₁ : Machine} (walks : Walks code k m m₁) (within : k < room)
      (outside : code.size ≤ m₁.ip) : Comes code room m ⟨m₁, .leftCode⟩
  | limited {m₁ : Machine} (walks : Walks code room m m₁) :
      Comes code room m ⟨{ m₁ with output := m₁.output.push limitLine }, .limit⟩

/-- Every run comes to one of the three. -/
theorem comes_runFrom (code : Code) (room : Nat) (m : Machine) :
    Comes code room m (runFrom code room m) := by
  -- Each further step is put in front of the walk.
  induction room generalizing m with
  | zero => exact .limited (.here m)
  | succ room ih =>
    rw [runFrom]
    split
    · rename_i inside
      split
      · rename_i m₁ stepped
        have later := ih m₁
        generalize runFrom code room m₁ = r at later ⊢
        cases later with
        | stopped walks within stops =>
          exact .stopped (.step inside stepped walks) (Nat.succ_lt_succ within) stops
        | left walks within outside =>
          exact .left (.step inside stepped walks) (Nat.succ_lt_succ within) outside
        | limited walks => exact .limited (.step inside stepped walks)
      · rename_i m' ending stepped
        exact .stopped (.here m) (Nat.succ_pos room) ⟨inside, stepped⟩
    · rename_i outside
      exact .left (.here m) (Nat.succ_pos room) (by omega)

/-- What a run comes to before its cap, it comes to under every larger cap. -/
theorem Comes.runFrom_eq {room larger : Nat} {r : Run} (comes : Comes code room m r)
    (own : r.ending ≠ .limit) (within : room ≤ larger) : runFrom code larger m = r := by
  -- The walk takes its part of the larger cap, and one more step is left behind it.
  cases comes with
  | @stopped k m₁ m' ending walks before stops =>
    obtain ⟨spare, rfl⟩ : ∃ spare, larger = k + (spare + 1) := ⟨larger - k - 1, by omega⟩
    rw [walks.runFrom_add, stops.runFrom]
  | @left k m₁ walks before outside =>
    obtain ⟨spare, rfl⟩ : ∃ spare, larger = k + (spare + 1) := ⟨larger - k - 1, by omega⟩
    rw [walks.runFrom_add, runFrom, if_neg (by omega)]
  | limited walks => exact absurd rfl own

/-- A step that stops leaves the lines of the output as they were, or adds one. -/
theorem Stops.output_prefix (stops : Stops code m m' ending) :
    m.output.toList <+: m'.output.toList := by
  -- Of the ways in which a step prints, those that stop are the end and the division by zero.
  have printed := Prints.step code m
  rw [stops.stepped] at printed
  cases printed with
  | ends output _ _ _ => simp [output]
  | divides output _ => simp [output]

/-- A step that stops is not what ends a run at its cap. -/
theorem Stops.ne_limit (stops : Stops code m m' ending) : ending ≠ .limit := by
  -- Only the cap itself is told as such.
  have printed := Prints.step code m
  rw [stops.stepped] at printed
  cases printed with
  | ends _ _ _ limit => exact limit
  | divides _ _ => simp

/-- A run only adds to the lines of the output. -/
theorem Comes.output_prefix {room : Nat} {r : Run} (comes : Comes code room m r) :
    m.output.toList <+: r.final.output.toList := by
  -- Up to the last step lines are only added, and the cap adds the last one.
  cases comes with
  | stopped walks within stops => exact walks.output_prefix.trans stops.output_prefix
  | left walks within outside => exact walks.output_prefix
  | limited walks =>
    refine walks.output_prefix.trans ?_
    simp

/-- A run under a cap is in some state after a number of its steps. -/
structure Passes (code : Code) (cap steps : Nat) (m : Machine) : Prop where
  walks : Walks code steps initial m
  within : steps ≤ cap
  onward : run code cap = runFrom code (cap - steps) m

/-- A run passes every state that a walk within its cap leads to. -/
theorem Walks.passes (walks : Walks code k initial m) (within : k ≤ cap) :
    Passes code cap k m := by
  -- The steps taken and those left are the steps of the whole run.
  refine ⟨walks, within, ?_⟩
  have whole := walks.runFrom_add (cap - k)
  rwa [Nat.add_sub_cancel' within] at whole

/-- The lines of a finished run: values, and behind them at most one report, which tells how the run
was ended. -/
inductive Reported (m : Machine) : Ending → Prop where
  | plain {ending : Ending} (lines : ∀ line ∈ m.output.toList, ¬ IsReport line)
      (divides : ending ≠ .divisionByZero) (limit : ending ≠ .limit) : Reported m ending
  | division {lines : List String} (others : ∀ line ∈ lines, ¬ IsReport line)
      (output : m.output.toList = lines ++ [divisionLine]) : Reported m .divisionByZero
  | limit {lines : List String} (others : ∀ line ∈ lines, ¬ IsReport line)
      (output : m.output.toList = lines ++ [limitLine]) : Reported m .limit

/-- A step that stops in the middle of a run reports a division by zero and nothing else. -/
theorem Stops.reported {m' : Machine} (stops : Stops code m m' ending) (underway : Underway k m) :
    m'.steps = k + 1 ∧ Reported m' ending := by
  -- The step counts itself, and all lines before it were printed by the program.
  have printed := Prints.step code m
  rw [stops.stepped] at printed
  cases printed with
  | ends output steps divides limit =>
    refine ⟨by rw [steps, underway.steps], .plain ?_ divides limit⟩
    rw [output]
    exact underway.lines
  | divides output steps =>
    exact ⟨by rw [steps, underway.steps], .division underway.lines (by simp [output])⟩

/-- Every run from the start counts no more steps than its cap, and reports how it was ended. -/
theorem Comes.reported {room : Nat} {r : Run} (comes : Comes code room initial r) :
    r.final.steps ≤ room ∧ Reported r.final r.ending := by
  -- Each way that a run can come to is looked at: a stop, the end of the code, the cap.
  cases comes with
  | stopped walks within stops =>
    obtain ⟨steps, reported⟩ := stops.reported (walks.underway underway_initial)
    exact ⟨by simp only; omega, reported⟩
  | left walks within outside =>
    have underway := walks.underway underway_initial
    exact ⟨by simp only [underway.steps]; omega, .plain underway.lines (by simp) (by simp)⟩
  | limited walks =>
    have underway := walks.underway underway_initial
    exact ⟨by simp only [underway.steps]; omega, .limit underway.lines (by simp)⟩

/-- A run that is cut off has come to a state that the run under a larger cap passes. -/
theorem Comes.cut {larger : Nat} {r : Run} (comes : Comes code cap initial r)
    (limited : r.ending = .limit) (within : cap ≤ larger) :
    ∃ m, r.final = { m with output := m.output.push limitLine } ∧ Underway cap m ∧
      Passes code larger cap m := by
  -- Only a walk as long as the cap ends a run in this way.
  cases comes with
  | stopped walks before stops => exact absurd limited stops.ne_limit
  | left walks before outside => cases limited
  | limited walks =>
    have underway := walks.underway underway_initial
    rw [Nat.zero_add] at underway
    exact ⟨_, rfl, underway, walks.passes within⟩

/-- What a run passes, it has printed in the end. -/
theorem Passes.output_prefix {steps : Nat} (passes : Passes code cap steps m) :
    m.output.toList <+: (run code cap).final.output.toList := by
  -- From the state that was passed, the rest of the run only adds lines.
  rw [passes.onward]
  exact Comes.output_prefix (comes_runFrom code _ m)

namespace Reported

/-- The line about the cap is there exactly if the cap ended the run. -/
theorem limitLine_mem (reported : Reported m ending) :
    limitLine ∈ m.output ↔ ending = .limit := by
  -- The line is no line that a program prints, and not the one about a division.
  rw [← Array.mem_toList_iff]
  cases reported with
  | plain lines divides limit => exact iff_of_false (fun member => lines _ member (.inl rfl)) limit
  | division others output =>
    refine iff_of_false ?_ (by simp)
    rw [output, List.mem_append, List.mem_singleton]
    rintro (before | last)
    · exact others _ before (.inl rfl)
    · exact absurd last (by decide)
  | limit others output => simp [output]

/-- The line about a division is there exactly if a zero divided. -/
theorem divisionLine_mem (reported : Reported m ending) :
    divisionLine ∈ m.output ↔ ending = .divisionByZero := by
  -- As for the cap: a program prints no such line, and the cap is told by another one.
  rw [← Array.mem_toList_iff]
  cases reported with
  | plain lines divides limit =>
    exact iff_of_false (fun member => lines _ member (.inr rfl)) divides
  | division others output => simp [output]
  | limit others output =>
    refine iff_of_false ?_ (by simp)
    rw [output, List.mem_append, List.mem_singleton]
    rintro (before | last)
    · exact others _ before (.inr rfl)
    · exact absurd last (by decide)

/-- Nothing is printed behind a report. -/
theorem last (reported : Reported m ending) {front back : List String} {line : String}
    (split : m.output.toList = front ++ line :: back) (report : IsReport line) : back = [] := by
  -- All lines but the last are values.
  have behind {lines : List String} {other : String} (others : ∀ line ∈ lines, ¬ IsReport line)
      (output : m.output.toList = lines ++ [other]) : back = [] := by
    rcases List.eq_nil_or_concat back with none | ⟨inner, final, rfl⟩
    · exact none
    · rw [output, List.concat_eq_append, ← List.cons_append, ← List.append_assoc] at split
      have earlier : lines = front ++ line :: inner := List.append_inj_left' split rfl
      exact absurd report (others line (by simp [earlier]))
  cases reported with
  | plain lines divides limit => exact absurd report (lines line (by simp [split]))
  | division others output => exact behind others output
  | limit others output => exact behind others output

/-- The line about a division is printed once at most. -/
theorem count_divisionLine (reported : Reported m ending) :
    m.output.toList.count divisionLine ≤ 1 := by
  -- The lines before a report are values.
  have none {lines : List String} (others : ∀ line ∈ lines, ¬ IsReport line) :
      lines.count divisionLine = 0 :=
    List.count_eq_zero.mpr fun member => others _ member (.inr rfl)
  cases reported with
  | plain lines divides limit => simp [none lines]
  | division others output => simp [output, none others]
  | limit others output =>
    have apart : limitLine ≠ divisionLine := by decide
    simp [output, none others, apart]

end Reported

/-- The cap only cuts a run off. A run that ends by itself, also by a fault, ends in the same state
and in the same way under every larger cap. A run that is cut off has taken as many steps as the cap
allows, and the run under the larger cap passes the state in which it was cut off. No run takes more
steps than its cap, and a line that reports why it was ended is its last one. -/
theorem run_truncates (code : Code) {cap larger : Int} (positive : 1 ≤ cap)
    (within : cap ≤ larger) :
    ∃ r r', run? code cap = some r ∧ run? code larger = some r' ∧
      (r.limitExceeded = false → r' = r) ∧
      (r.limitExceeded = true → r.final.steps = cap ∧
        ∃ m, r.final = { m with output := m.output.push limitLine } ∧ limitLine ∉ m.output ∧
          Passes code larger.toNat cap.toNat m ∧
          m.output.toList <+: r'.final.output.toList) ∧
      r.final.steps ≤ cap ∧
      (limitLine ∈ r.final.output ↔ r.limitExceeded = true) ∧
      (∀ front line back, r.final.output.toList = front ++ line :: back →
        line = limitLine ∨ line = divisionLine → back = []) ∧
      r.final.output.toList.count divisionLine ≤ 1 ∧
      ¬ (limitLine ∈ r.final.output ∧ divisionLine ∈ r.final.output) := by
  -- Both caps count steps, so they are natural numbers.
  obtain ⟨cap, rfl⟩ := Int.eq_ofNat_of_zero_le (show 0 ≤ cap by omega)
  obtain ⟨larger, rfl⟩ := Int.eq_ofNat_of_zero_le (show 0 ≤ larger by omega)
  have comes : Comes code cap initial (run code cap) := comes_runFrom code cap initial
  obtain ⟨steps, reported⟩ := comes.reported
  have limit_iff : (run code cap).limitExceeded = true ↔ (run code cap).ending = .limit := by
    simp [Run.limitExceeded]
  refine ⟨run code cap, run code larger, run?_natCast (by omega), run?_natCast (by omega), ?_, ?_,
    by omega, by rw [reported.limitLine_mem, limit_iff], ?_, reported.count_divisionLine, ?_⟩
  · intro own
    refine comes.runFrom_eq (fun limited => ?_) (by omega)
    simp [limit_iff.mpr limited] at own
  · intro limited
    obtain ⟨m, final, underway, passes⟩ :=
      comes.cut (limit_iff.mp limited) (show cap ≤ larger by omega)
    refine ⟨by rw [final, underway.steps], m, final, ?_, passes, passes.output_prefix⟩
    intro member
    exact underway.lines _ (Array.mem_toList_iff.mpr member) (.inl rfl)
  · intro front line back split report
    exact reported.last split report
  · rw [reported.limitLine_mem, reported.divisionLine_mem]
    rintro ⟨limited, divided⟩
    simp [limited] at divided

/-- Code that prints a number, over and over. -/
def tickingCode : Code := #[⟨.push, some 7, none⟩, ⟨.print, none, none⟩, ⟨.jump, some 0, none⟩]

/-- Cut off in the middle of the second round, the run has printed the number once; the run under
the larger cap, cut off in the third round, has printed it twice. -/
theorem run_truncates_ticking : ∃ r r', run? tickingCode 4 = some r ∧
    run? tickingCode 7 = some r' ∧ r.final.output = #["7", limitLine] ∧
    r'.final.output = #["7", "7", limitLine] ∧ r.final.steps = 4 ∧
    ∃ m, m.output = #["7"] ∧ Passes tickingCode 7 4 m := by
  obtain ⟨r, r', ran, ran', _, cut, _⟩ :=
    run_truncates tickingCode (show (1 : Int) ≤ 4 by decide) (show (4 : Int) ≤ 7 by decide)
  have short : r = run tickingCode 4 := Option.some.inj (ran.symm.trans (run?_natCast (by decide)))
  have long : r' = run tickingCode 7 := Option.some.inj (ran'.symm.trans (run?_natCast (by decide)))
  rw [short] at ran cut
  rw [long] at ran'
  have printed : (run tickingCode 4).final.output = #["7"].push limitLine := by decide +kernel
  obtain ⟨steps, m, final, _, passes, _⟩ := cut (by decide +kernel)
  refine ⟨_, _, ran, ran', printed, by decide +kernel, Int.natCast_inj.mp steps, m, ?_, passes⟩
  -- The state that is passed lacks only the line about the cap.
  rw [final] at printed
  exact Array.push_inj_left.mp printed

end Machine

end BlockCode
