import BlockCode.Proofs.Instruction.Layout

/-! Heights of the operand stack. The height at an address is what the instructions in front of it
add up to; in the code of a tree it is the height that every way to the address leads to. -/

namespace BlockCode

namespace Opcode

/-- How many operands an instruction takes from the stack. -/
def pops : Opcode → Nat
  -- A jump leaves the stack alone.
  | push | load | jump | halt => 0
  | store | jumpIfFalse | print => 1
  | binary _ => 2

/-- How many operands an instruction puts on the stack. -/
def pushes : Opcode → Nat
  -- Only these leave a value behind.
  | push | load | binary _ => 1
  | store | jump | jumpIfFalse | print | halt => 0

end Opcode

namespace Code

/-- The height of the stack at an address, counted over the instructions in front of it. -/
def height (code : Code) (address : Nat) : Int :=
  ((code.toList.take address).map fun i => (i.op.pushes : Int) - i.op.pops).sum

variable {code : Code} {slotCount address start stop : Nat}

/-- The stack is empty at the start. -/
@[simp] theorem height_zero : code.height 0 = 0 := rfl

/-- An instruction changes the height by what it puts on the stack and takes from it. -/
theorem At.height_succ {op : Opcode} {operand : Option Int} (there : code.At address op operand) :
    code.height (address + 1) = code.height address + op.pushes - op.pops := by
  -- The sum has one more term.
  obtain ⟨comment, found⟩ := there
  have listed : code.toList[address]? = some ⟨op, operand, comment⟩ := by simpa using found
  rw [height, List.take_add_one, listed]
  simp [height]
  omega

/-- The instruction at an address can be carried out at the height of the stack there. What it
leads to lies in the code, jumps and halts are made with no operand left, and slots are among those
that have been given out. -/
inductive FitsAt (code : Code) (slotCount address : Nat) : Prop where
  | push {value : Int} (there : code.At address .push (some value))
      (next : address + 1 < code.size)
  | load {slot : Nat} (there : code.At address .load (some (slot : Int)))
      (known : slot < slotCount) (next : address + 1 < code.size)
  | store {slot : Nat} (there : code.At address .store (some (slot : Int)))
      (known : slot < slotCount) (enough : 1 ≤ code.height address)
      (next : address + 1 < code.size)
  | binary {op : Operator} (there : code.At address (.binary op) none)
      (enough : 2 ≤ code.height address) (next : address + 1 < code.size)
  | print (there : code.At address .print none) (enough : 1 ≤ code.height address)
      (next : address + 1 < code.size)
  | jump {target : Nat} (there : code.At address .jump (some (target : Int)))
      (empty : code.height address = 0) (inside : target < code.size)
      (level : code.height target = 0)
  | jumpIfFalse {target : Nat} (there : code.At address .jumpIfFalse (some (target : Int)))
      (single : code.height address = 1) (inside : target < code.size)
      (level : code.height target = 0) (next : address + 1 < code.size)
  | halt (there : code.At address .halt none) (empty : code.height address = 0)

/-- There is one instruction at an address. -/
theorem At.unique {op op' : Opcode} {operand operand' : Option Int}
    (there : code.At address op operand) (there' : code.At address op' operand') :
    op = op' ∧ operand = operand' := by
  -- The code is a function of the address.
  obtain ⟨comment, found⟩ := there
  obtain ⟨comment', found'⟩ := there'
  rw [found] at found'
  cases found'
  exact ⟨rfl, rfl⟩

namespace FitsAt

variable {op : Opcode} {operand : Option Int}

/-- The stack holds what the instruction takes. -/
theorem pops_le (fits : code.FitsAt slotCount address) (there : code.At address op operand)
    (low : 0 ≤ code.height address) : op.pops ≤ code.height address := by
  -- Only the way of fitting for this instruction is possible.
  cases fits with
  | push found | load found | jump found | halt found =>
    obtain ⟨rfl, _⟩ := there.unique found
    exact low
  | store found _ enough | print found enough | binary found enough =>
    obtain ⟨rfl, _⟩ := there.unique found
    exact enough
  | jumpIfFalse found single =>
    obtain ⟨rfl, _⟩ := there.unique found
    exact Int.le_of_eq single.symm

/-- A slot that is loaded or stored to has been given out. -/
theorem slot (fits : code.FitsAt slotCount address) (there : code.At address op operand)
    (touches : op = .load ∨ op = .store) :
    ∃ slot : Nat, operand = some (slot : Int) ∧ slot < slotCount := by
  -- Only loads and stores have slots.
  cases fits with
  | load found known | store found known =>
    obtain ⟨_, rfl⟩ := there.unique found
    exact ⟨_, rfl, known⟩
  | push found | binary found | print found | jump found | jumpIfFalse found | halt found =>
    obtain ⟨rfl, _⟩ := there.unique found
    simp at touches

/-- A jump leads to an address of the code where the stack is empty. -/
theorem target (fits : code.FitsAt slotCount address) (there : code.At address op operand)
    (jumps : op = .jump ∨ op = .jumpIfFalse) :
    ∃ target : Nat, operand = some (target : Int) ∧ target < code.size ∧
      code.height target = 0 := by
  -- Only jumps have targets.
  cases fits with
  | jump found _ inside level | jumpIfFalse found _ inside level =>
    obtain ⟨_, rfl⟩ := there.unique found
    exact ⟨_, rfl, inside, level⟩
  | push found | load found | store found | binary found | print found | halt found =>
    obtain ⟨rfl, _⟩ := there.unique found
    simp at jumps

/-- The stack is empty at a halt. -/
theorem height_halt (fits : code.FitsAt slotCount address)
    (there : code.At address .halt operand) : code.height address = 0 := by
  -- There is one instruction at an address, and of the ways in which it fits only one is a halt.
  cases fits with
  | halt _ empty => exact empty
  | push found | load found | store found | binary found | print found | jump found
  | jumpIfFalse found => cases (there.unique found).1

/-- A jump leaves no operand behind. -/
theorem height_jump (fits : code.FitsAt slotCount address) (there : code.At address op operand)
    (jumps : op = .jump ∨ op = .jumpIfFalse) :
    code.height address + op.pushes - op.pops = 0 := by
  -- A conditional jump takes the only operand there is.
  cases fits with
  | jump found empty =>
    obtain ⟨rfl, _⟩ := there.unique found
    simpa [Opcode.pushes, Opcode.pops] using empty
  | jumpIfFalse found single =>
    obtain ⟨rfl, _⟩ := there.unique found
    simp [Opcode.pushes, Opcode.pops, single]
  | push found | load found | store found | binary found | print found | halt found =>
    obtain ⟨rfl, _⟩ := there.unique found
    simp at jumps

end FitsAt

/-- All instructions fit, and no more slots have been given out than there are instructions. -/
structure Fits (code : Code) (slotCount : Nat) : Prop where
  each : ∀ address < code.size, code.FitsAt slotCount address
  few : slotCount ≤ code.size

/-- The instructions between two addresses fit. -/
def FitsIn (code : Code) (slotCount start stop : Nat) : Prop :=
  ∀ address, start ≤ address → address < stop → code.FitsAt slotCount address

namespace FitsIn

/-- No instruction, no condition. -/
theorem none : FitsIn code slotCount start start := by
  -- There is no address in an empty range.
  intro address above below
  omega

/-- One instruction behind others. -/
theorem snoc (front : FitsIn code slotCount start stop) (last : code.FitsAt slotCount stop) :
    FitsIn code slotCount start (stop + 1) := by
  -- An address in the longer range is in the shorter one or is the new one.
  intro address above below
  rcases Nat.lt_or_eq_of_le (Nat.le_of_lt_succ below) with inside | rfl
  · exact front address above inside
  · exact last

/-- Instructions behind others. -/
theorem append {middle : Nat} (front : FitsIn code slotCount start middle)
    (back : FitsIn code slotCount middle stop) : FitsIn code slotCount start stop := by
  -- An address is on one side of the middle or on the other.
  intro address above below
  rcases Nat.lt_or_ge address middle with before | behind
  · exact front address above before
  · exact back address behind below

end FitsIn

section Tree

variable {resolution : Resolution}
  (bounded : ∀ id slot : Int, resolution[id]? = some slot → 0 ≤ slot ∧ slot < slotCount)

include bounded

/-- A slot that is known is one of those that have been given out. -/
theorem exists_slot {id slot : Int} (known : resolution[id]? = some slot) :
    ∃ index : Nat, slot = index ∧ index < slotCount := by
  -- The bounds on slots leave a natural number.
  obtain ⟨below, above⟩ := bounded id slot known
  exact ⟨slot.toNat, by omega, by omega⟩

/-- The code of an expression fits and leaves one operand more. -/
theorem Computes.fits {n : Node} (computes : code.Computes resolution n start stop)
    (low : 0 ≤ code.height start) (room : stop < code.size) :
    code.height stop = code.height start + 1 ∧ FitsIn code slotCount start stop := by
  -- The height rises by one for each operand and falls by one for each operator.
  induction computes with
  | literal push =>
    refine ⟨by simpa [Opcode.pushes, Opcode.pops] using push.height_succ, ?_⟩
    exact FitsIn.none.snoc (.push push room)
  | use known load =>
    obtain ⟨index, rfl, below⟩ := exists_slot bounded known
    refine ⟨by simpa [Opcode.pushes, Opcode.pops] using load.height_succ, ?_⟩
    exact FitsIn.none.snoc (.load load below room)
  | binary known first second joined firstIh secondIh =>
    have before := first.lt
    have behind := second.lt
    obtain ⟨left, leftFits⟩ := firstIh low (by omega)
    obtain ⟨right, rightFits⟩ := secondIh (by omega) (by omega)
    have height := joined.height_succ
    simp only [Opcode.pushes, Opcode.pops] at height
    refine ⟨by omega, (leftFits.append rightFits).snoc (.binary joined (by omega) room)⟩

/-- The code of statements fits and leaves the stack as empty as it was. -/
theorem Performs.fits {ns : List Node} (performs : code.Performs resolution ns start stop)
    (empty : code.height start = 0) (room : stop < code.size) :
    code.height stop = 0 ∧ FitsIn code slotCount start stop := by
  -- Every statement takes from the stack what it has put there, whatever way is taken.
  induction performs with
  | nothing => exact ⟨empty, .none⟩
  | also first others firstIh othersIh =>
    have behind := others.le
    obtain ⟨middle, firstFits⟩ := firstIh empty (by omega)
    obtain ⟨last, othersFit⟩ := othersIh middle room
    exact ⟨last, firstFits.append othersFit⟩
  | @declare mark name slot start known zero store =>
    obtain ⟨index, rfl, below⟩ := exists_slot bounded known
    have pushed := zero.height_succ
    have stored : code.height (start + 2) = _ := store.height_succ
    simp only [Opcode.pushes, Opcode.pops] at pushed stored
    refine ⟨by omega, (FitsIn.none.snoc (.push zero (by omega))).snoc ?_⟩
    exact .store store below (by omega) room
  | assign known computed store =>
    obtain ⟨index, rfl, below⟩ := exists_slot bounded known
    obtain ⟨value, fits⟩ := computed.fits bounded (by omega) (by omega)
    have stored := store.height_succ
    simp only [Opcode.pushes, Opcode.pops] at stored
    exact ⟨by omega, fits.snoc (.store store below (by omega) room)⟩
  | print computed shown =>
    obtain ⟨value, fits⟩ := computed.fits bounded (by omega) (by omega)
    have printed := shown.height_succ
    simp only [Opcode.pushes, Opcode.pops] at printed
    exact ⟨by omega, fits.snoc (.print shown (by omega) room)⟩
  | choose tested skip taken ih =>
    have branch := taken.le
    obtain ⟨condition, fits⟩ := tested.fits bounded (by omega) (by omega)
    have skipped := skip.height_succ
    simp only [Opcode.pushes, Opcode.pops] at skipped
    -- Both ways to the end of the branch have an empty stack.
    obtain ⟨last, takenFits⟩ := ih (by omega) room
    refine ⟨last, (fits.snoc ?_).append takenFits⟩
    exact .jumpIfFalse skip (by omega) room last (by omega)
  | chooseElse tested skip taken hop other yesIh noIh =>
    have branch := taken.le
    have alternative := other.le
    obtain ⟨condition, fits⟩ := tested.fits bounded (by omega) (by omega)
    have skipped := skip.height_succ
    have passed := hop.height_succ
    simp only [Opcode.pushes, Opcode.pops] at skipped passed
    obtain ⟨leave, takenFits⟩ := yesIh (by omega) (by omega)
    obtain ⟨last, otherFits⟩ := noIh (by omega) room
    refine ⟨last, (((fits.snoc ?_).append takenFits).snoc ?_).append otherFits⟩
    · exact .jumpIfFalse skip (by omega) (by omega) (by omega) (by omega)
    · exact .jump hop leave room last
  | loop tested leave repeated back ih =>
    have before := tested.lt
    have body := repeated.le
    obtain ⟨condition, fits⟩ := tested.fits bounded (by omega) (by omega)
    have left := leave.height_succ
    have returned := back.height_succ
    simp only [Opcode.pushes, Opcode.pops] at left returned
    obtain ⟨last, repeatedFits⟩ := ih (by omega) (by omega)
    refine ⟨by omega, ((fits.snoc ?_).append repeatedFits).snoc ?_⟩
    · exact .jumpIfFalse leave (by omega) room (by omega) (by omega)
    · exact .jump back last (by omega) empty
  | block inside ih => exact ih empty room

end Tree

end Code

end BlockCode
