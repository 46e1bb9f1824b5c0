import BlockCode.Instruction
import BlockCode.Machine.Arithmetic
import BlockCode.Text.Numeral

/-! The stack machine. It runs any code under a cap on its steps, and tells how the run ended and
in which state. -/

namespace BlockCode

/-- A value on the stack or in a slot; an instruction without an operand pushes none. -/
abbrev Value := Option Int

/-- Why an instruction cannot be carried out. -/
inductive Fault where
  /-- The stack holds too little. -/
  | emptyStack
  /-- There is no instruction at the address. -/
  | noInstruction
  /-- There is no slot to load from. -/
  | noSlot
  /-- There is no slot to store to. -/
  | noPlace
  /-- An index lies too far below zero for any row. -/
  | farBelow
  /-- More slots are asked for than can be counted. -/
  | farAbove
  /-- More slots are asked for than there is room for. -/
  | noRoom
  /-- A number is needed and there is none. -/
  | noNumber
  /-- A jump has no target. -/
  | noTarget
  /-- A number has too many digits to be printed. -/
  | numeral (error : NumeralError)
deriving DecidableEq, Repr

/-- What a fault says, if it says anything. -/
def Fault.message? : Fault → Option String
  | emptyStack => some "pop from empty list"
  | noInstruction | noSlot => some "list index out of range"
  | noPlace => some "list assignment index out of range"
  -- An index and a number of slots have to be small enough to be counted with.
  | farBelow | farAbove => some "cannot fit 'int' into an index-sized integer"
  | noRoom => some ""
  | noNumber | noTarget => none
  | numeral error => some error.message

/-- How a run ends. -/
inductive Ending where
  /-- At a halt. -/
  | halted
  /-- Past the end of the code. -/
  | leftCode
  /-- At a division by zero. -/
  | divisionByZero
  /-- At the cap on its steps. -/
  | limit
  /-- At an instruction that cannot be carried out. -/
  | fault (fault : Fault)
deriving DecidableEq, Repr

/-- The state of the machine. -/
structure Machine where
  /-- The address of the next instruction. -/
  ip : Int
  /-- The operands, the latest first. -/
  stack : List Value
  /-- The variables. -/
  slots : Array Value
  /-- The lines printed so far. -/
  output : Array String
  /-- How many instructions have been fetched. -/
  steps : Nat
deriving DecidableEq, Repr

/-- What one step leads to. -/
inductive Progress where
  | next (m : Machine)
  | stop (m : Machine) (ending : Ending)
deriving DecidableEq, Repr

/-- A run: the last state and how it came to it. -/
structure Run where
  final : Machine
  ending : Ending
deriving DecidableEq, Repr

namespace Machine

/-- The cap when none is given. -/
def defaultCap : Nat := 100000

/-- The line printed at the cap. -/
def limitLine : String := "Runtime Error: Exceeded execution limit (possible infinite loop)"

/-- The line printed at a division by zero. -/
def divisionLine : String := "Runtime Error: Division by zero"

/-- The machine before its first step. -/
def initial : Machine := ⟨0, [], #[], #[], 0⟩

/-- The place an index means in a row of some length; a negative one counts from the end. -/
def place? (length : Nat) (index : Int) : Option Nat :=
  -- An index beyond either end names no place.
  if 0 ≤ index then
    if index.toNat < length then some index.toNat else none
  else if index.natAbs ≤ length then some (length - index.natAbs) else none

/-- The instruction at an address. -/
def fetch? (code : Code) (address : Int) : Option Instruction :=
  (place? code.size address).bind (code[·]?)

/-- The value of a slot; a slot that was never reached holds zero. -/
def load? (slots : Array Value) (slot : Int) : Option Value :=
  if slot < slots.size then (place? slots.size slot).bind (slots[·]?) else some (some 0)

/-- No index below this one is looked up at all. -/
def leastIndex : Int := -9223372036854775808

/-- No number above this one counts places. -/
def greatestIndex : Int := 9223372036854775807

/-- No row has more places than this. -/
def longestRow : Nat := 1152921504606846975

/-- How many slots can be added at once while some code runs. The code is a row itself, so this is
the length of the longest row for all code that there can be. -/
def capacity (code : Code) : Nat := max longestRow code.size

/-- Puts a value into a slot; the slots grow with zeros up to the one asked for, if so many can be
added at once. -/
def store? (capacity : Nat) (slots : Array Value) (slot : Int) (value : Value) :
    Option (Array Value) :=
  -- A slot that is there is overwritten, also if it is named from the end.
  if slot < slots.size then
    (place? slots.size slot).map fun index => slots.setIfInBounds index value
  -- The row is made longer by all slots up to the one that is asked for.
  else if slot + 1 - slots.size ≤ capacity then
    some ((slots ++ Array.replicate (slot.toNat - slots.size) (some 0)).push value)
  else none

/-- Why nothing can be put into a slot. -/
def storeFault (slots : Array Value) (slot : Int) : Fault :=
  if slot < slots.size then if slot < leastIndex then .farBelow else .noPlace
  -- The slots that are missing are counted before room for them is looked for.
  else if greatestIndex < slot + 1 - slots.size then .farAbove else .noRoom

/-- The text that a value prints as. -/
def show? : Value → Except NumeralError String
  -- The word is printed for what an instruction without an operand has pushed.
  | none => .ok "None"
  | some n => Numeral.write n

/-- The result of an operation on two values. Without a number there is only equality. -/
def combine? (operator : Operator) : Value → Value → Option Int
  | some a, some b => some (Arithmetic.apply operator a b)
  | a, b =>
    -- Equality asks whether both are the same, which needs no number.
    match operator with
    | .eq => some (Arithmetic.ofBool (a = b))
    | .ne => some (Arithmetic.ofBool (a ≠ b))
    | _ => none

/-- Goes on to the following instruction. -/
def advance (m : Machine) : Progress :=
  .next { m with ip := m.ip + 1 }

/-- Goes on at the target of a jump. -/
def goTo (m : Machine) : Option Int → Progress
  | none => .stop m (.fault .noTarget)
  | some target => .next { m with ip := target }

/-- Stops at an instruction that cannot be carried out. -/
def fail (m : Machine) (fault : Fault) : Progress :=
  .stop m (.fault fault)

/-- Stops at an index that means no place. -/
def failAt (m : Machine) (index : Int) (fault : Fault) : Progress :=
  m.fail (if index < leastIndex then .farBelow else fault)

/-- Carries out an operation on the two latest operands. -/
def operate (m : Machine) (operator : Operator) : Progress :=
  match m.stack with
  | [] => m.fail .emptyStack
  | [_] => { m with stack := [] }.fail .emptyStack
  | b :: a :: rest =>
    let m := { m with stack := rest }
    -- The divisor is looked at before anything is computed.
    if operator.divides ∧ b = some 0 then
      .stop { m with output := m.output.push divisionLine } .divisionByZero
    else
      match combine? operator a b with
      | none => m.fail .noNumber
      | some value => { m with stack := some value :: m.stack }.advance

/-- Carries out an instruction. Operands that a failing instruction has taken are gone. -/
def execute (capacity : Nat) (m : Machine) (i : Instruction) : Progress :=
  -- Each instruction takes its operands first, then does its work, and goes on if it did not fail.
  match i.op with
  | .halt => .stop m .halted
  | .push => { m with stack := i.operand :: m.stack }.advance
  | .load =>
    match i.operand with
    | none => m.fail .noNumber
    | some slot =>
      match load? m.slots slot with
      | none => m.failAt slot .noSlot
      | some value => { m with stack := value :: m.stack }.advance
  | .store =>
    match m.stack with
    | [] => m.fail .emptyStack
    | value :: rest =>
      let m := { m with stack := rest }
      match i.operand with
      | none => m.fail .noNumber
      | some slot =>
        match store? capacity m.slots slot value with
        | none => m.fail (storeFault m.slots slot)
        | some slots => { m with slots := slots }.advance
  | .jump => m.goTo i.operand
  | .jumpIfFalse =>
    match m.stack with
    | [] => m.fail .emptyStack
    | value :: rest =>
      let m := { m with stack := rest }
      if value = some 0 then m.goTo i.operand else m.advance
  | .print =>
    match m.stack with
    | [] => m.fail .emptyStack
    | value :: rest =>
      let m := { m with stack := rest }
      match show? value with
      | .error e => m.fail (.numeral e)
      | .ok text => { m with output := m.output.push text }.advance
  | .binary operator => m.operate operator

/-- Fetches an instruction, which counts as a step, and carries it out. -/
def step (code : Code) (m : Machine) : Progress :=
  -- The step is counted before anything can go wrong with it.
  let m := { m with steps := m.steps + 1 }
  match fetch? code m.ip with
  | none => m.failAt m.ip .noInstruction
  | some i => m.execute (capacity code) i

/-- Runs code for at most a number of further steps. -/
def runFrom (code : Code) : (room : Nat) → Machine → Run
  | 0, m => ⟨{ m with output := m.output.push limitLine }, .limit⟩
  | room + 1, m =>
    -- Behind the last instruction a run is over, with nothing printed about it.
    if m.ip < code.size then
      match m.step code with
      | .next m => runFrom code room m
      | .stop m ending => ⟨m, ending⟩
    else ⟨m, .leftCode⟩

/-- Runs code from its start under a cap. -/
def run (code : Code) (cap : Nat) : Run :=
  runFrom code cap initial

/-- Runs code under a cap that has to be positive. -/
def run? (code : Code) (cap : Int) : Option Run :=
  if 0 < cap then some (run code cap.toNat) else none

end Machine

namespace Run

/-- Tells whether the cap ended the run. -/
def limitExceeded (r : Run) : Bool :=
  r.ending = .limit

/-- The fault that ended the run, if one did. -/
def fault? (r : Run) : Option Fault :=
  -- A halt, a report and the cap are no faults.
  match r.ending with
  | .fault fault => some fault
  | _ => none

/-- The address the run ended at; a jump without a target leads nowhere. -/
def address? (r : Run) : Option Int :=
  if r.ending = .fault .noTarget then none else some r.final.ip

end Run

end BlockCode
