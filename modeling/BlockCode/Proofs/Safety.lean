import BlockCode.Proofs.Compilation
import BlockCode.Proofs.Instruction.Height
import BlockCode.Proofs.Machine.Effect
import BlockCode.Proofs.Machine.Walk

/-! Compiled code is safe: wherever a run comes, the instruction there finds its operands, and no
run ends by a fault of the code. -/

namespace BlockCode

open Machine

variable {code : Code} {slotCount address : Nat} {m m' : Machine} {ending : Ending}

/-- A state of the machine is in order at an address of the code: its stack has the height of the
address, and there are numbers on the stack and in the slots. -/
structure Steady (code : Code) (address : Nat) (m : Machine) : Prop where
  ip : m.ip = address
  inside : address < code.size
  height : (m.stack.length : Int) = code.height address
  stack : ∀ v ∈ m.stack, ∃ n, v = some n
  slots : ∀ slot, ∃ n, content m.slots slot = some n

/-- The ways in which compiled code may end a run: at a halt with nothing left on the stack, at a
zero that divides, or at a number that has too many digits to be printed. -/
inductive EndsSafely (code : Code) (m m' : Machine) : Ending → Prop where
  | halted (there : code.At m.ip.toNat .halt none) (empty : m'.stack = []) :
      EndsSafely code m m' .halted
  | zeroDivisor {op : Operator} {a : Value} {rest : List Value}
      (there : code.At m.ip.toNat (.binary op) none) (divides : op.divides = true)
      (operands : m.stack = some 0 :: a :: rest) : EndsSafely code m m' .divisionByZero
  | unprintable {n : Int} {rest : List Value} (there : code.At m.ip.toNat .print none)
      (operands : m.stack = some n :: rest)
      (long : Numeral.maxDigits < (Nat.digits 10 n.natAbs).length) :
      EndsSafely code m m' (.fault (.numeral .unprintable))

namespace Steady

/-- The machine is in order before its first step. -/
theorem initial (nonempty : 0 < code.size) : Steady code 0 Machine.initial :=
  ⟨rfl, nonempty, rfl, by simp [Machine.initial], fun _ => ⟨0, rfl⟩⟩

/-- A number can be taken from the stack if the height is not zero. -/
theorem operand (steady : Steady code address m) (enough : 1 ≤ code.height address) :
    ∃ n rest, m.stack = some n :: rest ∧ ∀ v ∈ rest, ∃ n, v = some n := by
  -- An empty stack would have the height zero.
  have height := steady.height
  have numbers := steady.stack
  cases operands : m.stack with
  | nil =>
    rw [operands, List.length_nil] at height
    omega
  | cons v rest =>
    rw [operands] at numbers
    obtain ⟨⟨n, rfl⟩, others⟩ := List.forall_mem_cons.mp numbers
    exact ⟨n, rest, rfl, others⟩

/-- Two numbers can be taken from the stack if the height is enough. -/
theorem operands (steady : Steady code address m) (enough : 2 ≤ code.height address) :
    ∃ b a rest, m.stack = some b :: some a :: rest ∧ ∀ v ∈ rest, ∃ n, v = some n := by
  -- One operand alone would have the height one.
  obtain ⟨b, others, first, numbers⟩ := steady.operand (by omega)
  have height := steady.height
  cases others with
  | nil =>
    rw [first] at height
    simp only [List.length_cons, List.length_nil] at height
    omega
  | cons v rest =>
    obtain ⟨⟨a, rfl⟩, others⟩ := List.forall_mem_cons.mp numbers
    exact ⟨b, a, rest, first, others⟩

/-- The state behind an instruction is in order if the stack has changed by what the instruction
takes and puts. -/
theorem behind {op : Opcode} {operand : Option Int} (steady : Steady code address m)
    (there : code.At address op operand) (next : address + 1 < code.size)
    (ip : m'.ip = m.ip + 1) (changed : m'.stack.length + op.pops = m.stack.length + op.pushes)
    (stack : ∀ v ∈ m'.stack, ∃ n, v = some n)
    (slots : ∀ slot, ∃ n, content m'.slots slot = some n) : Steady code (address + 1) m' := by
  -- The height behind an instruction is counted in the same way.
  have risen := there.height_succ
  have height := steady.height
  refine ⟨?_, next, by omega, stack, slots⟩
  rw [ip, steady.ip]
  rfl

/-- A number is pushed. -/
theorem push {value : Int} (steady : Steady code address m)
    (there : code.At address .push (some value)) (next : address + 1 < code.size) :
    ∃ m', m.step code = .next m' ∧ Steady code (address + 1) m' := by
  -- What is pushed is a number, and the others stay.
  refine ⟨_, step_push there steady.ip, steady.behind there next rfl rfl ?_ steady.slots⟩
  exact List.forall_mem_cons.mpr ⟨⟨value, rfl⟩, steady.stack⟩

/-- A slot holds a number, which is loaded. -/
theorem load {slot : Nat} (steady : Steady code address m)
    (there : code.At address .load (some (slot : Int))) (next : address + 1 < code.size) :
    ∃ m', m.step code = .next m' ∧ Steady code (address + 1) m' := by
  -- Every slot holds a number, also one that was never stored to.
  refine ⟨_, step_load there steady.ip, steady.behind there next rfl rfl ?_ steady.slots⟩
  exact List.forall_mem_cons.mpr ⟨steady.slots slot, steady.stack⟩

/-- A number is stored. -/
theorem store {slot : Nat} (steady : Steady code address m)
    (there : code.At address .store (some (slot : Int))) (few : slot < code.size)
    (enough : 1 ≤ code.height address) (next : address + 1 < code.size) :
    ∃ m', m.step code = .next m' ∧ Steady code (address + 1) m' := by
  -- The height tells that there is an operand to store.
  obtain ⟨n, rest, operands, numbers⟩ := steady.operand enough
  obtain ⟨slots', stepped, content_eq⟩ := step_store there few steady.ip operands
  refine ⟨_, stepped, steady.behind there next rfl ?_ numbers ?_⟩
  · simp [operands, Opcode.pops, Opcode.pushes]
  · -- A slot holds the number that was stored, or what it held before.
    intro other
    rw [content_eq]
    split
    · exact ⟨n, rfl⟩
    · exact steady.slots other

/-- Two numbers are joined, unless a zero divides. -/
theorem binary {op : Operator} (steady : Steady code address m)
    (there : code.At address (.binary op) none) (enough : 2 ≤ code.height address)
    (next : address + 1 < code.size) :
    (∃ m', m.step code = .next m' ∧ Steady code (address + 1) m') ∨
      ∃ m', m.step code = .stop m' .divisionByZero ∧ op.divides = true ∧
        ∃ a rest, m.stack = some 0 :: a :: rest := by
  -- The two operands are numbers, so the operation is defined unless a zero divides.
  obtain ⟨b, a, rest, operands, numbers⟩ := steady.operands enough
  have stepped := step_binary there steady.ip operands
  by_cases divided : op.divides ∧ b = 0
  · obtain ⟨divides, rfl⟩ := divided
    rw [if_pos ⟨divides, rfl⟩] at stepped
    exact .inr ⟨_, stepped, divides, some a, rest, operands⟩
  · rw [if_neg divided] at stepped
    refine .inl ⟨_, stepped, steady.behind there next rfl ?_ ?_ steady.slots⟩
    · simp [operands, Opcode.pops, Opcode.pushes]
    · exact List.forall_mem_cons.mpr ⟨⟨_, rfl⟩, numbers⟩

/-- A number is printed, unless it has too many digits. -/
theorem print (steady : Steady code address m) (there : code.At address .print none)
    (enough : 1 ≤ code.height address) (next : address + 1 < code.size) :
    (∃ m', m.step code = .next m' ∧ Steady code (address + 1) m') ∨
      ∃ m', m.step code = .stop m' (.fault (.numeral .unprintable)) ∧
        ∃ n rest, m.stack = some n :: rest ∧
          Numeral.maxDigits < (Nat.digits 10 n.natAbs).length := by
  -- Only the number of digits decides.
  obtain ⟨n, rest, operands, numbers⟩ := steady.operand enough
  have stepped := step_print there steady.ip operands
  by_cases short : (Nat.digits 10 n.natAbs).length ≤ Numeral.maxDigits
  · rw [if_pos short] at stepped
    refine .inl ⟨_, stepped, steady.behind there next rfl ?_ numbers steady.slots⟩
    simp [operands, Opcode.pops, Opcode.pushes]
  · rw [if_neg short] at stepped
    exact .inr ⟨_, stepped, n, rest, operands, by omega⟩

/-- A jump leads to its target. -/
theorem jump {target : Nat} (steady : Steady code address m)
    (there : code.At address .jump (some (target : Int))) (empty : code.height address = 0)
    (inside : target < code.size) (level : code.height target = 0) :
    ∃ m', m.step code = .next m' ∧ Steady code target m' := by
  -- The stack is empty at both ends of the jump.
  have height := steady.height
  exact ⟨_, step_jump there steady.ip, rfl, inside, by rw [level, ← empty, ← height],
    steady.stack, steady.slots⟩

/-- A conditional jump leads to its target or goes on. -/
theorem jumpIfFalse {target : Nat} (steady : Steady code address m)
    (there : code.At address .jumpIfFalse (some (target : Int)))
    (single : code.height address = 1) (inside : target < code.size)
    (level : code.height target = 0) (next : address + 1 < code.size) :
    ∃ m' address', m.step code = .next m' ∧ Steady code address' m' := by
  -- The condition is the only operand.
  obtain ⟨n, rest, operands, numbers⟩ := steady.operand (by omega)
  have stepped := step_jumpIfFalse there steady.ip operands
  by_cases zero : n = 0
  · -- The only operand is gone, so the stack is empty at the target.
    rw [if_pos zero] at stepped
    have height := steady.height
    rw [operands, List.length_cons] at height
    exact ⟨_, target, stepped, rfl, inside, by simp only; omega, numbers, steady.slots⟩
  · rw [if_neg zero] at stepped
    refine ⟨_, address + 1, stepped, steady.behind there next rfl ?_ numbers steady.slots⟩
    simp [operands, Opcode.pops, Opcode.pushes]

/-- Where every instruction fits, a step from a state in order leads to one, or it ends the run in
one of the safe ways. -/
theorem step (fits : code.Fits slotCount)
    (steady : Steady code address m) :
    (∃ m' address', m.step code = .next m' ∧ Steady code address' m') ∨
      ∃ m' ending, m.step code = .stop m' ending ∧ EndsSafely code m m' ending := by
  -- One case for each way in which an instruction can fit.
  have here : m.ip.toNat = address := by simp [steady.ip]
  cases fits.each address steady.inside with
  | push there next =>
    obtain ⟨m', stepped, steady'⟩ := steady.push there next
    exact .inl ⟨m', _, stepped, steady'⟩
  | load there known next =>
    obtain ⟨m', stepped, steady'⟩ := steady.load there next
    exact .inl ⟨m', _, stepped, steady'⟩
  | store there known enough next =>
    have few := fits.few
    obtain ⟨m', stepped, steady'⟩ := steady.store there (by omega) enough next
    exact .inl ⟨m', _, stepped, steady'⟩
  | binary there enough next =>
    rcases steady.binary there enough next with
      ⟨m', stepped, steady'⟩ | ⟨m', stepped, divides, a, rest, operands⟩
    · exact .inl ⟨m', _, stepped, steady'⟩
    · exact .inr ⟨m', _, stepped, .zeroDivisor (here ▸ there) divides operands⟩
  | print there enough next =>
    rcases steady.print there enough next with
      ⟨m', stepped, steady'⟩ | ⟨m', stepped, n, rest, operands, long⟩
    · exact .inl ⟨m', _, stepped, steady'⟩
    · exact .inr ⟨m', _, stepped, .unprintable (here ▸ there) operands long⟩
  | jump there empty inside level =>
    obtain ⟨m', stepped, steady'⟩ := steady.jump there empty inside level
    exact .inl ⟨m', _, stepped, steady'⟩
  | jumpIfFalse there single inside level next =>
    exact .inl (steady.jumpIfFalse there single inside level next)
  | halt there empty =>
    have height := steady.height
    have none_left : m.stack = [] := List.eq_nil_of_length_eq_zero (by omega)
    exact .inr ⟨_, _, step_halt there steady.ip, .halted (here ▸ there) none_left⟩

/-- Every state that a walk comes to is in order. -/
theorem walks {k : Nat} (fits : code.Fits slotCount)
    (walks : Walks code k m m') (steady : Steady code address m) :
    ∃ address', Steady code address' m' := by
  -- A step of a walk is not one that ends the run.
  refine walks.keeps (P := fun m₁ => ∃ address', Steady code address' m₁) ?_ ⟨address, steady⟩
  rintro m₁ m₂ ⟨address₁, steady₁⟩ _ stepped
  rcases steady₁.step fits with ⟨m₃, address₃, stepped', steady₃⟩ | ⟨m₃, ending, stopped, _⟩
  · cases stepped.symm.trans stepped'
    exact ⟨address₃, steady₃⟩
  · cases stepped.symm.trans stopped

/-- A run from a state in order takes all the steps of its cap, or it ends before in one of the safe
ways. -/
theorem runFrom (fits : code.Fits slotCount) (room : Nat)
    (steady : Steady code address m) :
    (∃ m₁, Walks code room m m₁ ∧ Machine.runFrom code room m =
        ⟨{ m₁ with output := m₁.output.push limitLine }, .limit⟩) ∨
      ∃ k m₁ m' ending, k < room ∧ Walks code k m m₁ ∧ Stops code m₁ m' ending ∧
        EndsSafely code m₁ m' ending ∧ Machine.runFrom code room m = ⟨m', ending⟩ := by
  -- The room is used up step by step, from states in order only.
  induction room generalizing m address with
  | zero => exact .inl ⟨m, .here m, rfl⟩
  | succ room ih =>
    have inside : m.ip < code.size := by
      have below := steady.inside
      rw [steady.ip]
      omega
    rcases steady.step fits with ⟨m₁, address₁, stepped, steady₁⟩ | ⟨m', ending, stopped, safe⟩
    · simp only [Machine.runFrom, if_pos inside, stepped]
      -- The rest of the run starts from the next state.
      rcases ih steady₁ with ⟨m₂, walks, ended⟩ | ⟨k, m₂, m', ending, short, walks, ended⟩
      · exact .inl ⟨m₂, .step inside stepped walks, ended⟩
      · exact .inr ⟨k + 1, m₂, m', ending, by omega, .step inside stepped walks, ended⟩
    · simp only [Machine.runFrom, if_pos inside, stopped]
      exact .inr ⟨0, m, m', ending, by omega, .here m, ⟨inside, stopped⟩, safe, rfl⟩

/-- The slots of a state in order hold numbers. -/
theorem isSome_slots (steady : Steady code address m) : ∀ v ∈ m.slots, v.isSome = true := by
  -- The content of a slot that exists is what is stored there.
  intro v member
  obtain ⟨slot, found⟩ := Array.getElem?_of_mem member
  obtain ⟨n, held⟩ := steady.slots slot
  simp only [content, found, Option.getD_some] at held
  simp [held]

end Steady

namespace Translation

variable {source : String}

/-- Every instruction of compiled code fits. -/
theorem fits (t : Translation source code) : code.Fits t.analysis.table.slotCount := by
  -- The statements end before the halt, where the stack is empty again.
  refine ⟨fun address inside => ?_, t.slotCount_le_size⟩
  have size := t.size
  obtain ⟨last, fits⟩ := t.performs.fits (fun id slot => t.slot_lt) Code.height_zero (by omega)
  exact fits.snoc (.halt t.halts last) address (Nat.zero_le _) (by omega)

/-- The machine is in order before the first step of compiled code. -/
theorem steady_initial (t : Translation source code) : Steady code 0 Machine.initial := by
  -- There is at least the halt to start at.
  have size := t.size
  exact .initial (by omega)

end Translation

/-- Compiled code is safe. Wherever a run comes, the address lies in the code, the stack has the one
height that belongs to the address and holds what the instruction takes, there are only numbers on
the stack and in the slots, and the slots in the code have been given out. The stack is empty at
every target of a jump and at the halt. A run takes all the steps of its cap, or it ends before at
a halt, at a zero that divides, or at a number that has too many digits to be printed. -/
theorem compile_safe {source : String} {code : Code} (compiled : compile source = .ok code) :
    ∃ tokens tree a, tokenize source = .ok tokens ∧ Node.parse tokens = .ok tree ∧
      Analysis.empty.program tree = .ok a ∧ ∃ height : Int → Nat,
    (∀ k m, Walks code k Machine.initial m → 0 ≤ m.ip ∧ m.ip < code.size ∧
      m.stack.length = height m.ip ∧ (∀ v ∈ m.stack, v.isSome = true) ∧
      (∀ v ∈ m.slots, v.isSome = true) ∧
      ∀ op operand, code.At m.ip.toNat op operand → op.pops ≤ m.stack.length ∧
        (op = .load ∨ op = .store →
          ∃ slot : Nat, operand = some (slot : Int) ∧ slot < a.table.slotCount)) ∧
    (∀ address op operand, code.At address op operand → op = .jump ∨ op = .jumpIfFalse →
      ∃ target : Nat, operand = some (target : Int) ∧ target < code.size ∧ height target = 0) ∧
    (∀ (address : Nat) operand, code.At address .halt operand → height address = 0) ∧
    ∀ cap : Nat, 1 ≤ cap → ∃ r, run? code cap = some r ∧
      ((r.ending = .limit ∧ ∃ m, Walks code cap Machine.initial m ∧
          r.final = { m with output := m.output.push limitLine }) ∨
        ∃ k m, k < cap ∧ Walks code k Machine.initial m ∧ Stops code m r.final r.ending ∧
          EndsSafely code m r.final r.ending) := by
  -- The height belongs to the address in the code, and the walk is in order at every state.
  obtain ⟨t⟩ := exists_translation compiled
  refine ⟨t.tokens, t.tree, t.analysis, t.scanned, t.parsed, t.analyzed,
    fun ip => (code.height ip.toNat).toNat, ?_, ?_, ?_, ?_⟩
  · -- In a state that is in order, all that is asked for is known.
    intro k m walks
    obtain ⟨address, steady⟩ := t.steady_initial.walks t.fits walks
    have inside := steady.inside
    have height := steady.height
    have here : m.ip.toNat = address := by simp [steady.ip]
    refine ⟨by rw [steady.ip]; omega, by rw [steady.ip]; omega, ?_, ?_, steady.isSome_slots, ?_⟩
    · simp only [here, ← height]
      omega
    · intro v member
      obtain ⟨n, rfl⟩ := steady.stack v member
      rfl
    · intro op operand there
      rw [here] at there
      have enough := (t.fits.each address inside).pops_le there (by omega)
      exact ⟨by omega, (t.fits.each address inside).slot there⟩
  · -- Jumps fit only with targets where nothing is on the stack.
    intro address op operand there jumps
    have inside := there.lt_size
    obtain ⟨target, rfl, within, level⟩ := (t.fits.each address inside).target there jumps
    exact ⟨target, rfl, within, by simp [level]⟩
  · intro address operand there
    have empty := (t.fits.each address there.lt_size).height_halt there
    simp [empty]
  · -- A run ends at its cap, or at a step that stops safely before.
    intro cap positive
    refine ⟨run code cap, run?_natCast positive, ?_⟩
    rcases t.steady_initial.runFrom t.fits cap with
      ⟨m, walks, ended⟩ | ⟨k, m, m', ending, short, walks, stops, safe, ended⟩
    · exact .inl ⟨by rw [run, ended], m, walks, by rw [run, ended]⟩
    · refine .inr ⟨k, m, short, walks, ?_⟩
      rw [run, ended]
      exact ⟨stops, safe⟩

/-- A program with a choice inside a loop. -/
def countdownSource : String :=
  "int n; n = 9; while (n > 0) \x7b if (n % 2 == 0) print(n / 2); else n = n - 1; n = n - 1; \x7d"

/-- A run of that program keeps to one height of the stack at each address and does not leave the
code. -/
theorem compile_safe_countdown : ∃ code, compile countdownSource = .ok code ∧
    (∃ height : Int → Nat, ∀ k m, Walks code k Machine.initial m →
      m.stack.length = height m.ip) ∧
    ∀ cap : Nat, 1 ≤ cap → ∃ r, run? code cap = some r ∧ r.ending ≠ .leftCode := by
  -- The code is taken as it comes, and the general facts are asked about it.
  have compiles : (compile countdownSource).toOption.isSome = true := by decide +kernel
  cases compiled : compile countdownSource with
  | error failure => simp [compiled, Except.toOption] at compiles
  | ok code =>
    obtain ⟨_, _, _, _, _, _, height, visited, _, _, ends⟩ := compile_safe compiled
    refine ⟨code, rfl, ⟨height, fun k m walks => (visited k m walks).2.2.1⟩, ?_⟩
    intro cap positive
    obtain ⟨r, ran, ended⟩ := ends cap positive
    refine ⟨r, ran, ?_⟩
    rcases ended with ⟨limited, _⟩ | ⟨_, _, _, _, _, safe⟩
    · simp [limited]
    · intro left
      rw [left] at safe
      cases safe

end BlockCode
