import BlockCode.Token

/-! The instructions of the stack machine. -/

namespace BlockCode

/-- The operations on two integers. -/
inductive Operator where
  | add | sub | mul | div | mod
  | eq | ne | lt | gt | le | ge
deriving DecidableEq, Repr

namespace Operator

/-- The mnemonic of an operation. -/
def mnemonic : Operator → String
  -- Those that compare share a prefix.
  | add => "ADD"
  | sub => "SUB"
  | mul => "MUL"
  | div => "DIV"
  | mod => "MOD"
  | eq => "CMP_EQ"
  | ne => "CMP_NE"
  | lt => "CMP_LT"
  | gt => "CMP_GT"
  | le => "CMP_LE"
  | ge => "CMP_GE"

/-- The operation that a token stands for. -/
def ofKind? : Kind → Option Operator
  -- Every operator of the language has its own operation.
  | .plus => some add
  | .minus => some sub
  | .star => some mul
  | .slash => some div
  | .percent => some mod
  | .equal => some eq
  | .notEqual => some ne
  | .less => some lt
  | .greater => some gt
  | .lessEqual => some le
  | .greaterEqual => some ge
  | _ => none

/-- The operations that a zero on the right has no result for. -/
def divides : Operator → Bool
  -- Only these two look for a zero on the right.
  | div | mod => true
  | _ => false

end Operator

/-- What an instruction does. -/
inductive Opcode where
  | push | load | store
  | binary (operator : Operator)
  | jump | jumpIfFalse
  | print | halt
deriving DecidableEq, Repr

namespace Opcode

/-- Every opcode, in order. -/
def all : List Opcode :=
  -- The order is that of the declaration, with the operations in place of their opcode.
  [push, load, store, binary .add, binary .sub, binary .mul, binary .div, binary .mod, binary .eq,
    binary .ne, binary .lt, binary .gt, binary .le, binary .ge, jump, jumpIfFalse, print, halt]

/-- The mnemonic of an opcode. -/
def mnemonic : Opcode → String
  -- The operations are told apart by their own names.
  | push => "PUSH_INT"
  | load => "LOAD"
  | store => "STORE"
  | binary operator => operator.mnemonic
  | jump => "JMP"
  | jumpIfFalse => "JMP_IF_FALSE"
  | print => "PRINT"
  | halt => "HALT"

/-- The opcode with a given mnemonic. -/
def ofMnemonic? (s : String) : Option Opcode :=
  all.find? fun op => op.mnemonic == s

end Opcode

/-- One instruction. The comment is for listings only, no machine reads it. -/
structure Instruction where
  op : Opcode
  operand : Option Int := none
  comment : Option String := none
deriving DecidableEq, Repr

/-- A row of instructions, addressed from zero. -/
abbrev Code := Array Instruction

end BlockCode
