import Mathlib.Logic.Function.Basic
import BlockCode.Proofs.Machine.Effect
import BlockCode.Proofs.Machine.Walk

/-! The slots of the machine as a memory without bounds. A machine that has a value for every slot
number takes the same steps, and its slots that were never stored to hold zero. Only a store that
asks for more slots than can be added at once makes a difference. -/

namespace BlockCode

/-- A value for every slot number, with the slots that were stored to, the latest first. -/
structure Memory where
  value : Nat → Value
  stored : List Nat

namespace Memory

/-- The memory that nothing was stored to. -/
def zero : Memory := ⟨fun _ => some 0, []⟩

/-- Stores a value to one slot; all others stay as they are. -/
def store (memory : Memory) (slot : Nat) (value : Value) : Memory :=
  ⟨Function.update memory.value slot value, slot :: memory.stored⟩

/-- Only the slot that is stored to has another value behind a store. -/
theorem value_store (memory : Memory) (slot other : Nat) (value : Value) :
    (memory.store slot value).value other = if other = slot then value else memory.value other :=
  Function.update_apply _ _ _ _

/-- How many slots there are up to the largest one that was stored to. -/
def reach (memory : Memory) : Nat := memory.stored.max?.elim 0 (1 + ·)

/-- A store reaches at least its own slot. -/
theorem reach_store (memory : Memory) (slot : Nat) (value : Value) :
    (memory.store slot value).reach = max memory.reach (slot + 1) := by
  -- The largest slot stored to is the new one or the largest so far.
  simp only [reach, store, List.max?_cons]
  cases memory.stored.max? with
  | none => simp [Nat.add_comm]
  | some largest =>
    simp only [Option.elim_some]
    omega

end Memory

/-- The state of a machine with a memory in the place of its slots. -/
structure MemoryMachine where
  ip : Int
  stack : List Value
  memory : Memory
  output : Array String
  steps : Nat

namespace MemoryMachine

open Machine (fetch? leastIndex combine? show?)

/-- What one step leads to. -/
inductive Progress where
  | next (m : MemoryMachine)
  | stop (m : MemoryMachine) (ending : Ending)

/-- A run: the last state and how it came to it. -/
structure Run where
  final : MemoryMachine
  ending : Ending

/-- The machine before its first step. -/
def initial : MemoryMachine := ⟨0, [], .zero, #[], 0⟩

/-- Goes on to the following instruction. -/
def onward (m : MemoryMachine) : Progress :=
  .next { m with ip := m.ip + 1 }

/-- Goes on at a target, if there is one. -/
def leap (m : MemoryMachine) : Option Int → Progress
  | none => .stop m (.fault .noTarget)
  | some target => .next { m with ip := target }

/-- Stops at an instruction that cannot be carried out. -/
def fail (m : MemoryMachine) (fault : Fault) : Progress :=
  .stop m (.fault fault)

/-- Puts a value on top of the others and goes on. -/
def push (m : MemoryMachine) (value : Value) : Progress :=
  { m with stack := value :: m.stack }.onward

/-- Takes the latest operand, if there is one, and goes on with it. -/
def taking (m : MemoryMachine) (use : Value → MemoryMachine → Progress) : Progress :=
  match m.stack with
  -- The stack is not asked how deep it is: code that is not compiled may take too much.
  | [] => m.fail .emptyStack
  | value :: rest => use value { m with stack := rest }

/-- Carries out an instruction. A load reads the memory, and a store changes it at one slot. -/
def execute (m : MemoryMachine) (i : Instruction) : Progress :=
  match i.op with
  | .halt => .stop m .halted
  | .push => m.push i.operand
  -- The slot is any number that is not negative, and there is a value in each.
  | .load =>
    match i.operand.bind Int.toNat? with
    | none => m.fail .noNumber
    | some slot => m.push (m.memory.value slot)
  | .store => m.taking fun value m =>
    match i.operand.bind Int.toNat? with
    | none => m.fail .noNumber
    -- A store to a far slot costs no more than one to a near slot.
    | some slot => { m with memory := m.memory.store slot value }.onward
  | .jump => m.leap i.operand
  | .jumpIfFalse => m.taking fun value m =>
    -- Every number but zero counts as true.
    if value = some 0 then m.leap i.operand else m.onward
  | .print => m.taking fun value m =>
    match show? value with
    | .error e => m.fail (.numeral e)
    | .ok text => { m with output := m.output.push text }.onward
  | .binary operator => m.taking fun b m => m.taking fun a m =>
    -- The operands are gone by now, and the line about the division is the last one.
    if operator.divides ∧ b = some 0 then
      .stop { m with output := m.output.push Machine.divisionLine } .divisionByZero
    else
      match combine? operator a b with
      | none => m.fail .noNumber
      | some value => m.push (some value)

/-- Fetches an instruction, which counts as a step, and carries it out. -/
def step (code : Code) (m : MemoryMachine) : Progress :=
  let m := { m with steps := m.steps + 1 }
  match fetch? code m.ip with
  -- An index below zero counts from the end, if it is not too far below.
  | none => m.fail (if m.ip < leastIndex then .farBelow else .noInstruction)
  | some i => m.execute i

/-- Runs code for at most a number of further steps. -/
def runFrom (code : Code) : (room : Nat) → MemoryMachine → Run
  -- The limit is told in the output, where the other lines are.
  | 0, m => ⟨{ m with output := m.output.push Machine.limitLine }, .limit⟩
  | room + 1, m =>
    -- Control that leaves the code at its end stops there without a word.
    if m.ip < code.size then
      match m.step code with
      | .next m => runFrom code room m
      | .stop m ending => ⟨m, ending⟩
    else ⟨m, .leftCode⟩

/-- Runs code from its start under a cap that has to be positive. -/
def run? (code : Code) (cap : Int) : Option Run :=
  if 0 < cap then some (runFrom code cap.toNat initial) else none

/-- A number of steps leads from one state to another, and none of them ends the run. -/
inductive Walks (code : Code) : Nat → MemoryMachine → MemoryMachine → Prop where
  | here (m : MemoryMachine) : Walks code 0 m m
  | step {k : Nat} {m m₁ m' : MemoryMachine} (inside : m.ip < code.size)
      (stepped : m.step code = .next m₁) (further : Walks code k m₁ m') : Walks code (k + 1) m m'

end MemoryMachine

/-- The slots are the part of a memory up to the largest slot that was stored to; behind it the
memory holds zeros. -/
structure Implements (slots : Array Value) (memory : Memory) : Prop where
  size : slots.size = memory.reach
  inside : ∀ i < slots.size, slots[i]? = some (memory.value i)
  outside : ∀ i, slots.size ≤ i → memory.value i = some 0

namespace Implements

variable {slots : Array Value} {memory : Memory}

/-- Slots that hold what the memory holds implement it. -/
theorem of_content (size : slots.size = memory.reach)
    (same : ∀ i, Machine.content slots i = memory.value i) : Implements slots memory := by
  -- An index inside the slots has an entry, and one beyond them holds zero.
  refine ⟨size, ?_, ?_⟩
  · intro i inside
    rw [← same i, Machine.content, Array.getElem?_eq_getElem inside, Option.getD_some]
  · intro i outside
    rw [← same i, Machine.content, Array.getElem?_eq_none outside, Option.getD_none]

/-- Every slot holds what the memory holds, whether it was reached or not. -/
theorem content_eq (implements : Implements slots memory) (i : Nat) :
    Machine.content slots i = memory.value i := by
  -- Beyond the slots both sides hold zero, for reasons of their own.
  by_cases inside : i < slots.size
  · rw [Machine.content, implements.inside i inside, Option.getD_some]
  · rw [Machine.content, Array.getElem?_eq_none (by omega), Option.getD_none,
      implements.outside i (by omega)]

/-- No slots are the memory that nothing was stored to. -/
theorem zero : Implements #[] .zero := by
  -- Without slots every index is beyond them.
  apply of_content
  · rfl
  · intro i
    simp [Machine.content, Memory.zero]

/-- Storing to the slots is storing to the memory. -/
theorem store {capacity slot : Nat} {value : Value} {slots' : Array Value}
    (implements : Implements slots memory)
    (stored : Machine.store? capacity slots slot value = some slots') :
    Implements slots' (memory.store slot value) := by
  apply of_content
  · -- Both reach as far as the slot, if they did not before.
    rw [Machine.size_store? stored, implements.size, memory.reach_store]
  · intro i
    rw [Machine.content_store? stored, implements.content_eq, memory.value_store]

end Implements

/-- An instruction that loads or stores names a slot that is not below zero. -/
def Instruction.NaturalSlot (i : Instruction) : Prop :=
  i.op = .load ∨ i.op = .store → ∃ slot ∈ i.operand, 0 ≤ slot

instance (i : Instruction) : Decidable i.NaturalSlot :=
  inferInstanceAs (Decidable (_ → _))

/-- An instruction that stores names a slot that there is in a longest row. -/
def Instruction.NearSlot (i : Instruction) : Prop :=
  i.op = .store → ∀ slot ∈ i.operand, slot < Machine.longestRow

instance (i : Instruction) : Decidable i.NearSlot :=
  inferInstanceAs (Decidable (_ → _))

/-- The number of the slot that an instruction names. -/
theorem Instruction.NaturalSlot.exists_slot {i : Instruction} (natural : i.NaturalSlot)
    (names : i.op = .load ∨ i.op = .store) : ∃ slot : Nat, i.operand = some (slot : Int) := by
  -- A slot that is not negative is the number that it is the integer of.
  obtain ⟨slot, operand, nonnegative⟩ := natural names
  exact ⟨slot.toNat, by rw [Int.toNat_of_nonneg nonnegative]; exact operand⟩

/-- The machine is in the state of one with a memory, which its slots implement. -/
structure Machine.Realizes (m : Machine) (ideal : MemoryMachine) : Prop where
  ip : m.ip = ideal.ip
  stack : m.stack = ideal.stack
  output : m.output = ideal.output
  steps : m.steps = ideal.steps
  slots : Implements m.slots ideal.memory

/-- Two steps go on together or end in the same way. -/
inductive Progress.Realizes : Progress → MemoryMachine.Progress → Prop where
  | next {m : Machine} {ideal : MemoryMachine} (same : m.Realizes ideal) :
      Realizes (.next m) (.next ideal)
  | stop {m : Machine} {ideal : MemoryMachine} (same : m.Realizes ideal) (ending : Ending) :
      Realizes (.stop m ending) (.stop ideal ending)

/-- The machine comes to a store that asks for more slots than can be added at once. The value is
taken from the stack, the slots stay as they are, and the run ends. -/
inductive Machine.Refuses (code : Code) (m : Machine) : Run → Prop where
  | store {i : Instruction} {slot : Nat} {value : Value} {rest : List Value}
      (fetched : fetch? code m.ip = some i) (op : i.op = .store)
      (names : i.operand = some (slot : Int)) (operands : m.stack = value :: rest)
      (far : m.slots.size + capacity code ≤ slot) :
      Refuses code m ⟨{ m with stack := rest, steps := m.steps + 1 },
        -- A number that is too large to count with is found before the room is looked for.
        .fault (if greatestIndex < slot + 1 - m.slots.size then .farAbove else .noRoom)⟩

/-- Two runs end in the same state and in the same way. -/
structure Run.Realizes (r : Run) (ideal : MemoryMachine.Run) : Prop where
  final : r.final.Realizes ideal.final
  ending : r.ending = ideal.ending

/-- A run under a cap ends as the one with a memory does, or it comes to a store that is refused. -/
def Run.RealizesOrRefuses (code : Code) (cap : Int) (r : Run) (ideal : MemoryMachine.Run) : Prop :=
  r.Realizes ideal ∨ ∃ (k : Nat) (m : Machine),
    -- The store is reached before the cap is.
    k < cap ∧ Machine.Walks code k .initial m ∧ Machine.Refuses code m r

namespace Machine.Realizes

variable {code : Code} {m : Machine} {ideal : MemoryMachine} {i : Instruction}

/-- Before the first step nothing was stored. -/
theorem initial : Machine.initial.Realizes .initial :=
  ⟨rfl, rfl, rfl, rfl, .zero⟩

/-- Operands are replaced on both sides. -/
theorem withStack (same : m.Realizes ideal) (stack : List Value) :
    { m with stack := stack }.Realizes { ideal with stack := stack } :=
  ⟨same.ip, rfl, same.output, same.steps, same.slots⟩

/-- A line is printed on both sides. -/
theorem withLine (same : m.Realizes ideal) (text : String) :
    { m with output := m.output.push text }.Realizes
      { ideal with output := ideal.output.push text } := by
  -- Only the output differs, and it gains the same line on both sides.
  refine ⟨same.ip, same.stack, ?_, same.steps, same.slots⟩
  simp only [same.output]

/-- Both go on behind the instruction. -/
theorem onward (same : m.Realizes ideal) : m.advance.Realizes ideal.onward := by
  -- Only the address differs, and it grows by one on both sides.
  refine .next ⟨?_, same.stack, same.output, same.steps, same.slots⟩
  simp only [same.ip]

/-- Both put the value on top. -/
theorem push (same : m.Realizes ideal) (value : Value) :
    { m with stack := value :: m.stack }.advance.Realizes (ideal.push value) := by
  -- The stacks are the same before, so they are the same with one value more.
  rw [same.stack]
  exact (same.withStack _).onward

/-- Both go on at the target, or stop where there is none. -/
theorem leap (same : m.Realizes ideal) (target : Option Int) :
    (m.goTo target).Realizes (ideal.leap target) := by
  -- An instruction without a target is a fault on both sides.
  cases target with
  | none => exact .stop same _
  | some target => exact .next ⟨rfl, same.stack, same.output, same.steps, same.slots⟩

/-- Both take the latest operand, or stop where there is none. -/
theorem taking {progress : Progress} {use : Value → MemoryMachine → MemoryMachine.Progress}
    (same : m.Realizes ideal) (empty : m.stack = [] → progress = m.fail .emptyStack)
    (taken : ∀ value rest, m.stack = value :: rest →
      progress.Realizes (use value { ideal with stack := rest })) :
    progress.Realizes (ideal.taking use) := by
  -- The stacks agree, so both find an operand or neither does.
  have stack := same.stack
  cases operands : m.stack with
  | nil =>
    rw [MemoryMachine.taking, ← stack, operands, empty operands]
    exact .stop same _
  | cons value rest =>
    rw [MemoryMachine.taking, ← stack, operands]
    exact taken value rest operands

/-- An instruction does the same on both sides if a store finds room: a load finds the value of the
memory in the slots, and a store changes both alike. -/
theorem execute {capacity : Nat} (same : m.Realizes ideal) (natural : i.NaturalSlot)
    (roomy : ∀ slot : Nat, i.op = .store → i.operand = some (slot : Int) → m.stack ≠ [] →
      slot < m.slots.size + capacity) :
    (m.execute capacity i).Realizes (ideal.execute i) := by
  -- Opcode by opcode, both sides take the same operands and come to the same end.
  obtain ⟨op, operand, comment⟩ := i
  cases op with
  | halt => exact .stop same _
  | push => exact same.push operand
  | load =>
    obtain ⟨slot, rfl⟩ := natural.exists_slot (.inl rfl)
    simp only [Machine.execute, load?_natCast, same.slots.content_eq]
    exact same.push _
  | store =>
    obtain ⟨slot, rfl⟩ := natural.exists_slot (.inr rfl)
    rw [MemoryMachine.execute]
    apply same.taking
    · exact fun empty => by simp only [Machine.execute, empty]
    · intro value rest operands
      -- The slots grow as far as the memory is stored to.
      have room := roomy slot rfl rfl (by simp [operands])
      obtain ⟨slots', stored⟩ :=
        Option.isSome_iff_exists.mp ((isSome_store? m.slots slot value).mpr room)
      simp only [Machine.execute, operands, stored]
      exact onward ⟨same.ip, rfl, same.output, same.steps, same.slots.store stored⟩
  | jump => exact same.leap operand
  | jumpIfFalse =>
    rw [MemoryMachine.execute]
    apply same.taking
    · exact fun empty => by simp only [Machine.execute, empty]
    · intro value rest operands
      simp only [Machine.execute, operands]
      split
      · exact (same.withStack rest).leap operand
      · exact (same.withStack rest).onward
  | print =>
    rw [MemoryMachine.execute]
    apply same.taking
    · exact fun empty => by simp only [Machine.execute, empty]
    · intro value rest operands
      simp only [Machine.execute, operands]
      cases show? value with
      | error e => exact .stop (same.withStack rest) _
      | ok text => exact ((same.withStack rest).withLine text).onward
  | binary operator =>
    rw [MemoryMachine.execute]
    apply same.taking
    · exact fun empty => by simp only [Machine.execute, Machine.operate, empty]
    · intro b rest operands
      apply (same.withStack rest).taking
      · intro empty
        obtain rfl : rest = [] := empty
        simp only [Machine.execute, Machine.operate, operands]
      · intro a others further
        obtain rfl : rest = a :: others := further
        simp only [Machine.execute, Machine.operate, operands]
        split
        · exact .stop ((same.withStack others).withLine _) _
        · cases combine? operator a b with
          | none => exact .stop (same.withStack others) _
          | some value => exact (same.withStack others).push _

/-- A step does the same on both sides, or it is a store that is refused. -/
theorem step (natural : ∀ i ∈ code, i.NaturalSlot) (same : m.Realizes ideal) :
    (m.step code).Realizes (ideal.step code) ∨
      ∃ r, Refuses code m r ∧ m.step code = .stop r.final r.ending := by
  obtain ⟨ip, stack, memory, output, steps⟩ := ideal
  obtain rfl : m.ip = ip := same.ip
  have counted : { m with steps := m.steps + 1 }.Realizes
      ⟨m.ip, stack, memory, output, steps + 1⟩ :=
    ⟨rfl, same.stack, same.output, congrArg (· + 1) same.steps, same.slots⟩
  cases fetched : fetch? code m.ip with
  | none =>
    simp only [Machine.step, MemoryMachine.step, fetched]
    exact .inl (.stop counted _)
  | some i =>
    -- What is fetched is one of the instructions of the code.
    obtain ⟨index, _, found⟩ := Option.bind_eq_some_iff.mp fetched
    have natural := natural i (Array.mem_of_getElem? found)
    by_cases roomy : ∀ slot : Nat, i.op = .store → i.operand = some (slot : Int) →
        m.stack ≠ [] → slot < m.slots.size + capacity code
    · simp only [Machine.step, MemoryMachine.step, fetched]
      exact .inl (counted.execute natural roomy)
    · simp only [not_forall, Nat.not_lt] at roomy
      obtain ⟨slot, op, names, nonempty, far⟩ := roomy
      obtain ⟨value, rest, operands⟩ := List.exists_cons_of_ne_nil nonempty
      have refused : store? (capacity code) m.slots slot value = none := by
        rw [← Option.not_isSome_iff_eq_none, isSome_store?]
        omega
      have outside : ¬ (slot : Int) < m.slots.size := by omega
      refine .inr ⟨_, .store fetched op names operands far, ?_⟩
      simp only [Machine.step, fetched, Machine.execute, op, operands, names, refused, storeFault,
        if_neg outside, Machine.fail]

/-- A run from one state does the same on both sides, or it comes to a store that is refused. -/
theorem runFrom (natural : ∀ i ∈ code, i.NaturalSlot) (same : m.Realizes ideal) (room : Nat) :
    (Machine.runFrom code room m).Realizes (MemoryMachine.runFrom code room ideal) ∨
      ∃ k m', k < room ∧ Machine.Walks code k m m' ∧
        Refuses code m' (Machine.runFrom code room m) := by
  -- Both use up the room step by step.
  induction room generalizing m ideal with
  | zero => exact .inl ⟨same.withLine _, rfl⟩
  | succ room ih =>
    rw [Machine.runFrom, MemoryMachine.runFrom, ← same.ip]
    split
    · rename_i inside
      rcases same.step natural with stepped | ⟨r, refused, stopped⟩
      · generalize stepped₁ : m.step code = progress at stepped
        generalize ideal.step code = progress' at stepped
        cases stepped with
        | next same' =>
          rcases ih same' with same'' | ⟨k, m', within, walks, refused⟩
          · exact .inl same''
          · -- The step comes before the walk to the store.
            exact .inr ⟨k + 1, m', by omega, .step inside stepped₁ walks, refused⟩
        | stop same' ending => exact .inl ⟨same', rfl⟩
      · rw [stopped]
        exact .inr ⟨0, m, by omega, .here m, refused⟩
    · exact .inl ⟨same, rfl⟩

/-- As long as the one machine goes on, so does the other. -/
theorem walks {k : Nat} {m' : Machine} (natural : ∀ i ∈ code, i.NaturalSlot)
    (same : m.Realizes ideal) (walk : Machine.Walks code k m m') :
    ∃ ideal', MemoryMachine.Walks code k ideal ideal' ∧ m'.Realizes ideal' := by
  -- A step of a walk is not refused, so both sides take it.
  induction walk generalizing ideal with
  | here m => exact ⟨ideal, .here ideal, same⟩
  | step inside stepped further ih =>
    rcases same.step natural with both | ⟨r, _, stopped⟩
    · rw [stepped] at both
      generalize stepped' : ideal.step code = progress at both
      cases both with
      | next same' =>
        obtain ⟨ideal', walk', last⟩ := ih same'
        exact ⟨ideal', .step (same.ip ▸ inside) stepped' walk', last⟩
    · cases stepped.symm.trans stopped

end Machine.Realizes

namespace Machine

/-- No store is refused if all of them name slots that there are in a longest row. -/
theorem Refuses.not_near {code : Code} {m : Machine} {r : Run} (refused : Refuses code m r) :
    ¬ ∀ i ∈ code, i.NearSlot := by
  -- A longest row has room for every near slot, and the capacity is no less.
  intro near
  cases refused with
  | @store i slot value rest fetched op names operands far =>
    obtain ⟨index, _, found⟩ := Option.bind_eq_some_iff.mp fetched
    have low := near i (Array.mem_of_getElem? found) op slot names
    have room : longestRow ≤ capacity code := Nat.le_max_left _ _
    omega

/-- Code that stores to the fourth slot, and then to the second one seven less what a slot holds
that was never reached. -/
def gapCode : Code :=
  -- The first store leaves a gap below its slot, and the second one goes into it.
  #[⟨.push, some 9, none⟩, ⟨.store, some 3, none⟩, ⟨.push, some 7, none⟩, ⟨.load, some 5, none⟩,
    ⟨.binary .sub, none, none⟩, ⟨.store, some 1, none⟩, ⟨.halt, none, none⟩]

/-- Code that stores to a slot far above all others, and prints a number then. -/
def farCode : Code :=
  -- A list of slots up to that one could not be held.
  #[⟨.push, some 0, none⟩, ⟨.store, some 9223372036854775808, none⟩, ⟨.push, some 5, none⟩,
    ⟨.print, none, none⟩, ⟨.halt, none, none⟩]

end Machine

end BlockCode
