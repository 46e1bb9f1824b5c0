import BlockCode.Instruction
import BlockCode.Text.Numeral

/-! Code listed as text, one instruction a line. -/

namespace BlockCode.Instruction

/-- How wide the index, the mnemonic and everything before a comment are set at least. -/
structure Columns where
  index : Nat
  mnemonic : Nat
  comment : Nat

/-- Four digits of index, thirteen places of mnemonic, and comments from the same column on. -/
def columns : Columns := ⟨4, 13, 26⟩

/-- The decimal digits of an index, with zeros in front to a given width. -/
def paddedIndex (width index : Nat) : Except NumeralError String := do
  let digits ← Numeral.write index
  -- A longer index is shown in full, and the columns move to the right.
  return String.ofList (List.replicate (width - digits.length) '0') ++ digits

/-- The line of an instruction at an index. -/
def line (index : Nat) (i : Instruction) : Except NumeralError String := do
  let number ← paddedIndex columns.index index
  let head := number ++ "  " ++ Text.padRight columns.mnemonic i.op.mnemonic
  let text ← match i.operand with
    | none => pure head
    | some operand => do
      let digits ← Numeral.write operand
      pure (head ++ " " ++ digits)
  -- An empty comment counts as none.
  let shown := match i.comment with
    | none | some "" => text
    | some comment => Text.padRight columns.comment text ++ " ; " ++ comment
  return Text.trimEnd shown

/-- The lines of instructions that stand from an index on. -/
def linesFrom (index : Nat) : List Instruction → Except NumeralError (List String)
  | [] => .ok []
  | i :: rest => do
    -- A line that cannot be written ends the listing.
    let first ← line index i
    let others ← linesFrom (index + 1) rest
    return first :: others

/-- The lines of some code. -/
def listing (code : Code) : Except NumeralError (List String) :=
  linesFrom 0 code.toList

end BlockCode.Instruction
