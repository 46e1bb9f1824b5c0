import BlockCode.Machine
import BlockCode.Proofs.Instruction.Height
import BlockCode.Proofs.Numeral

/-! What each instruction does to the machine when the operands that it takes are numbers and the
slots that it names are not below zero, and what it does in any case if the run goes on. -/

namespace BlockCode.Machine

/-- What a slot holds; one that was never reached holds zero. -/
def content (slots : Array Value) (slot : Nat) : Value :=
  slots[slot]?.getD (some 0)

/-- Every slot that is not below zero can be loaded. -/
theorem load?_natCast (slots : Array Value) (slot : Nat) :
    load? slots slot = some (content slots slot) := by
  -- Beyond the last slot a load gives zero.
  by_cases inside : slot < slots.size
  · simp [load?, place?, content, inside]
  · simp [load?, content, inside]

section Store

variable {capacity slot : Nat} {slots slots' : Array Value} {value : Value}

/-- A slot that is not below zero can be stored to if it is there or the slots that are missing up
to it can be added. -/
theorem isSome_store? (slots : Array Value) (slot : Nat) (value : Value) :
    (store? capacity slots slot value).isSome = true ↔ slot < slots.size + capacity := by
  by_cases inside : slot < slots.size
  · -- Nothing has to be added.
    simp [store?, place?, inside]
    omega
  · -- One slot more is added than are passed over.
    have missing : (slot : Int) + 1 - slots.size ≤ capacity ↔ slot < slots.size + capacity := by
      omega
    simp [store?, inside, missing]

/-- A store makes room up to its slot and takes none away. -/
theorem size_store? (stored : store? capacity slots slot value = some slots') :
    slots'.size = max slots.size (slot + 1) := by
  by_cases inside : slot < slots.size
  · -- There is such a slot already, and only its value is replaced.
    have replaced : slots.setIfInBounds slot value = slots' := by
      simpa [store?, place?, inside] using stored
    rw [← replaced, Array.size_setIfInBounds]
    omega
  · -- The gap is filled with zeros, and the value stands behind it.
    simp only [store?, Int.ofNat_lt, inside, if_false, Int.toNat_natCast,
      Option.ite_none_right_eq_some, Option.some.injEq] at stored
    rw [← stored.2, Array.size_push, Array.size_append, Array.size_replicate]
    omega

/-- A store changes the slot that it names and no other one. -/
theorem content_store? (stored : store? capacity slots slot value = some slots') (other : Nat) :
    content slots' other = if other = slot then value else content slots other := by
  by_cases inside : slot < slots.size
  · -- The value takes the place of the one that was there.
    have replaced : slots.setIfInBounds slot value = slots' := by
      simpa [store?, place?, inside] using stored
    subst replaced
    by_cases same : other = slot
    · simp [content, same, inside]
    · simp [content, same, Ne.symm same]
  · -- The slots in between hold zeros, as they did before they were reached.
    simp only [store?, Int.ofNat_lt, inside, if_false, Int.toNat_natCast,
      Option.ite_none_right_eq_some, Option.some.injEq] at stored
    have size : (slots ++ Array.replicate (slot - slots.size) (some 0)).size = slot := by
      simp
      omega
    rw [← stored.2, content, Array.getElem?_push, size]
    by_cases same : other = slot
    · simp [same]
    · rw [if_neg same, if_neg same, content, Array.getElem?_append]
      split
      · rfl
      · rename_i outside
        rw [Array.getElem?_replicate, Array.getElem?_eq_none (by omega)]
        split <;> rfl

/-- Where there is room for more, a store that was possible does the same. -/
theorem store?_mono {capacity' : Nat} {slot : Int} (enough : capacity ≤ capacity')
    (stored : store? capacity slots slot value = some slots') :
    store? capacity' slots slot value = some slots' := by
  unfold store? at stored ⊢
  by_cases inside : slot < slots.size
  · rwa [if_pos inside] at stored ⊢
  · -- Only the test whether so many can be added depends on the room.
    rw [if_neg inside] at stored ⊢
    rw [Option.ite_none_right_eq_some] at stored
    rw [if_pos (by omega), stored.2]

/-- While code runs, there is room for as many slots as it has instructions. -/
theorem lt_capacity {code : Code} (few : slot < code.size) (slots : Array Value) :
    slot < slots.size + Machine.capacity code := by
  -- The capacity is no less than the number of instructions.
  have room : code.size ≤ Machine.capacity code := Nat.le_max_right _ _
  omega

end Store

section Step

variable {code : Code} {address : Nat} {m : Machine} {rest : List Value}

/-- The machine is inside the code where an instruction stands. -/
theorem ip_lt_size {op : Opcode} {operand : Option Int} (there : code.At address op operand)
    (ip : m.ip = address) : m.ip < code.size := by
  -- The machine stands at that address.
  have inside := there.lt_size
  omega

/-- The instruction at the address of the machine is the one that is carried out. -/
theorem step_at {op : Opcode} {operand : Option Int} (there : code.At address op operand)
    (ip : m.ip = address) : ∃ comment,
      m.step code =
        { m with steps := m.steps + 1 }.execute (capacity code) ⟨op, operand, comment⟩ := by
  -- The address is not below zero, so the instruction is fetched from there.
  obtain ⟨comment, found⟩ := there
  obtain ⟨inside, same⟩ := Array.getElem?_eq_some_iff.mp found
  have fetched : fetch? code m.ip = some ⟨op, operand, comment⟩ := by
    simp [fetch?, place?, ip, inside, same]
  exact ⟨comment, by simp [step, fetched]⟩

/-- A number is pushed. -/
theorem step_push {value : Int} (there : code.At address .push (some value))
    (ip : m.ip = address) : m.step code = .next { m with
      ip := m.ip + 1, stack := some value :: m.stack, steps := m.steps + 1 } := by
  -- Executing the instruction is the step.
  obtain ⟨comment, stepped⟩ := step_at there ip
  exact stepped

/-- The content of a slot is pushed. -/
theorem step_load {slot : Nat} (there : code.At address .load (some (slot : Int)))
    (ip : m.ip = address) : m.step code = .next { m with
      ip := m.ip + 1, stack := content m.slots slot :: m.stack, steps := m.steps + 1 } := by
  -- A slot that is not negative is looked up by its number.
  obtain ⟨comment, stepped⟩ := step_at there ip
  simpa only [execute, load?_natCast, advance] using stepped

/-- The latest operand becomes the content of a slot, and no other slot changes. -/
theorem step_store {slot : Nat} {value : Value}
    (there : code.At address .store (some (slot : Int))) (few : slot < code.size)
    (ip : m.ip = address) (operands : m.stack = value :: rest) :
    ∃ slots', m.step code = .next { m with
        ip := m.ip + 1, stack := rest, slots := slots', steps := m.steps + 1 } ∧
      ∀ other, content slots' other = if other = slot then value else content m.slots other := by
  -- There is room for a slot with a number below the length of the code.
  obtain ⟨comment, stepped⟩ := step_at there ip
  have roomy := (isSome_store? m.slots slot value).mpr (lt_capacity few m.slots)
  obtain ⟨slots', stored⟩ := Option.isSome_iff_exists.mp roomy
  refine ⟨slots', ?_, content_store? stored⟩
  simpa only [execute, operands, stored, advance] using stepped

/-- A jump leads to its target. -/
theorem step_jump {target : Int} (there : code.At address .jump (some target))
    (ip : m.ip = address) : m.step code = .next { m with
      ip := target, steps := m.steps + 1 } := by
  -- The target becomes the address, and nothing else changes but the count of steps.
  obtain ⟨comment, stepped⟩ := step_at there ip
  exact stepped

/-- A conditional jump takes the latest operand and leads to its target if that is zero. -/
theorem step_jumpIfFalse {target n : Int} (there : code.At address .jumpIfFalse (some target))
    (ip : m.ip = address) (operands : m.stack = some n :: rest) :
    m.step code = .next { m with
      ip := if n = 0 then target else m.ip + 1, stack := rest, steps := m.steps + 1 } := by
  -- Only the address differs between the two cases.
  obtain ⟨comment, stepped⟩ := step_at there ip
  simp only [execute, operands, Option.some.injEq, goTo, advance] at stepped
  rw [stepped]
  split <;> rfl

/-- The two latest operands are joined, unless the second one is a zero that divides. -/
theorem step_binary {op : Operator} {a b : Int} (there : code.At address (.binary op) none)
    (ip : m.ip = address) (operands : m.stack = some b :: some a :: rest) :
    m.step code =
      if op.divides ∧ b = 0 then
        .stop { m with
          stack := rest, output := m.output.push divisionLine, steps := m.steps + 1 }
          .divisionByZero
      else .next { m with
        ip := m.ip + 1, stack := some (Arithmetic.apply op a b) :: rest,
        steps := m.steps + 1 } := by
  -- Both operands are numbers, so nothing but a zero divisor can be in the way.
  obtain ⟨comment, stepped⟩ := step_at there ip
  simp only [execute, operate, operands, Option.some.injEq, combine?, advance] at stepped
  exact stepped

/-- The latest operand is printed, unless it has too many digits. -/
theorem step_print {n : Int} (there : code.At address .print none) (ip : m.ip = address)
    (operands : m.stack = some n :: rest) :
    m.step code =
      if (Nat.digits 10 n.natAbs).length ≤ Numeral.maxDigits then
        .next { m with
          ip := m.ip + 1, stack := rest, output := m.output.push (toString n),
          steps := m.steps + 1 }
      else .stop { m with stack := rest, steps := m.steps + 1 }
        (.fault (.numeral .unprintable)) := by
  -- The text of the number exists if there are few enough digits.
  obtain ⟨comment, stepped⟩ := step_at there ip
  simp only [execute, operands, show?, Numeral.write_eq] at stepped
  rw [stepped]
  by_cases short : (Nat.digits 10 n.natAbs).length ≤ Numeral.maxDigits
  · simp only [if_pos short, advance]
  · simp only [if_neg short, fail]

/-- A halt ends the run. -/
theorem step_halt (there : code.At address .halt none) (ip : m.ip = address) :
    m.step code = .stop { m with steps := m.steps + 1 } .halted := by
  -- A halt stops with the state as it is.
  obtain ⟨comment, stepped⟩ := step_at there ip
  exact stepped

end Step

/-- What an instruction does if the run goes on: it takes operands and puts others in their place,
it leads to the next instruction or to its target, and only a store touches the slots. -/
structure Carries (op : Opcode) (operand : Option Int) (m m' : Machine) : Prop where
  enough : op.pops ≤ m.stack.length
  stack : ∃ added : List Value, added.length = op.pushes ∧
    m'.stack = added ++ m.stack.drop op.pops
  ip : m'.ip = m.ip + 1 ∨ (op = .jump ∨ op = .jumpIfFalse) ∧ operand = some m'.ip
  slots : m'.slots = m.slots ∨ op = .store ∧
    ∃ capacity slot value, operand = some slot ∧
      store? capacity m.slots slot value = some m'.slots

section Carries

variable {m m' : Machine}

/-- An operation that has a result puts it in the place of two operands. -/
theorem carries_operate {operator : Operator} {operand : Option Int}
    (operated : m.operate operator = .next m') :
    Carries (.binary operator) operand m m' := by
  -- All other ways through an operation end the run.
  unfold operate at operated
  split at operated
  · cases operated
  · cases operated
  · rename_i b a rest operands
    split at operated
    · cases operated
    · split at operated
      · cases operated
      · rename_i value joined
        cases operated
        refine ⟨by simp [operands, Opcode.pops], ⟨[some value], rfl, ?_⟩, .inl rfl, .inl rfl⟩
        simp [operands, Opcode.pops]

/-- An instruction carries out what its opcode says if the run goes on. -/
theorem carries_execute {capacity : Nat} {i : Instruction}
    (executed : m.execute capacity i = .next m') :
    Carries i.op i.operand m m' := by
  -- Opcode by opcode, only the way that goes on is left.
  obtain ⟨op, operand, comment⟩ := i
  cases op with
  | push =>
    cases executed
    exact ⟨Nat.zero_le _, ⟨[operand], rfl, rfl⟩, .inl rfl, .inl rfl⟩
  | load =>
    simp only [execute] at executed
    split at executed
    · cases executed
    · split at executed
      · cases executed
      · rename_i value loaded
        cases executed
        exact ⟨Nat.zero_le _, ⟨[value], rfl, rfl⟩, .inl rfl, .inl rfl⟩
  | store =>
    simp only [execute] at executed
    split at executed
    · cases executed
    · rename_i value rest operands
      split at executed
      · cases executed
      · rename_i slot
        split at executed
        · cases executed
        · rename_i slots stored
          cases executed
          exact ⟨by simp [operands, Opcode.pops], ⟨[], rfl, by simp [operands, Opcode.pops]⟩,
            .inl rfl, .inr ⟨rfl, capacity, slot, value, rfl, stored⟩⟩
  | binary operator => exact carries_operate executed
  | jump =>
    simp only [execute, goTo] at executed
    split at executed
    · cases executed
    · cases executed
      exact ⟨Nat.zero_le _, ⟨[], rfl, rfl⟩, .inr ⟨.inl rfl, rfl⟩, .inl rfl⟩
  | jumpIfFalse =>
    simp only [execute] at executed
    split at executed
    · cases executed
    · rename_i value rest operands
      have enough : Opcode.pops .jumpIfFalse ≤ m.stack.length := by simp [operands, Opcode.pops]
      split at executed
      · simp only [goTo] at executed
        split at executed
        · cases executed
        · cases executed
          exact ⟨enough, ⟨[], rfl, by simp [operands, Opcode.pops]⟩, .inr ⟨.inr rfl, rfl⟩, .inl rfl⟩
      · cases executed
        exact ⟨enough, ⟨[], rfl, by simp [operands, Opcode.pops]⟩, .inl rfl, .inl rfl⟩
  | print =>
    simp only [execute] at executed
    split at executed
    · cases executed
    · rename_i value rest operands
      split at executed
      · cases executed
      · cases executed
        exact ⟨by simp [operands, Opcode.pops], ⟨[], rfl, by simp [operands, Opcode.pops]⟩,
          .inl rfl, .inl rfl⟩
  | halt => cases executed

end Carries

end BlockCode.Machine
