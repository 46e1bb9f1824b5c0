import BlockCode.Instruction.Emit
import BlockCode.Machine
import BlockCode.Node.Parse
import BlockCode.Token.Scan

/-! The way from a source text to code and to a run, once with nothing but the result and once with
all that was made on the way. -/

namespace BlockCode

/-- The resolved variables of a tree. -/
def resolve (tree : Node) : Except Failure Resolution :=
  -- What was known when the walk failed is dropped.
  match Analysis.empty.program tree with
  | .ok analysis => .ok analysis.resolution
  | .error (failure, _) => .error failure

/-- The code of a tree with resolved variables. -/
def generate (resolution : Resolution) (tree : Node) : Except Failure Code :=
  -- What had been emitted when it failed is dropped.
  match Code.program resolution #[] tree with
  | .ok code => .ok code
  | .error (defect, _) => .error (.defect defect)

/-- The tokens of a source text. -/
def tokenize (source : String) : Except Failure (List Token) :=
  (Token.scan source).mapError .rejected

/-- The code of a source text. -/
def compile (source : String) : Except Failure Code := do
  -- Each pass needs what the one before it gives, and the first failure ends all.
  let tokens ← tokenize source
  let tree ← Node.parse tokens
  let resolution ← resolve tree
  generate resolution tree

/-- Why a run is not reported. -/
inductive RunFailure where
  /-- There is no code to run. -/
  | failure (failure : Failure)
  /-- The cap leaves no step. -/
  | cap
  /-- The code went wrong. -/
  | fault (fault : Fault)
deriving DecidableEq, Repr

/-- What a refused cap is told. -/
def capMessage : String := "max_steps must be positive."

/-- Runs code under a cap, without a report if something goes wrong. -/
def runCode (code : Code) (cap : Int) : Except RunFailure Run :=
  -- A cap that is not positive is refused, and so is a run that ended by a fault.
  match Machine.run? code cap with
  | none => .error .cap
  | some run =>
    match run.fault? with
    | some fault => .error (.fault fault)
    | none => .ok run

/-- Compiles and runs a source text; the program is looked at before the cap. -/
def runSource (source : String) (cap : Int) : Except RunFailure Run := do
  -- A program with an error in it is never run, whatever the cap is.
  let code ← (compile source).mapError .failure
  runCode code cap

/-- Everything made from a source text up to its first error. -/
structure Compilation where
  tokens : List Token := []
  tree : Option Node := none
  resolution : Resolution := ∅
  symbols : Array Symbol := #[]
  code : Code := #[]
  diagnostics : List Diagnostic := []

namespace Compilation

/-- Tells whether the source text is a program. -/
def ok (c : Compilation) : Bool := c.diagnostics.isEmpty

/-- Ends with a rejection as the only diagnostic; any other failure is not for the author. -/
def reject (c : Compilation) : Failure → Except Failure Compilation
  | .rejected rejection => .ok { c with diagnostics := [rejection.diagnostic] }
  | failure => .error failure

/-- Compiles a source text and keeps what was made before the first error. -/
def ofSource (source : String) : Except Failure Compilation :=
  match tokenize source with
  | .error failure => reject {} failure
  | .ok tokens =>
    match Node.parse tokens with
    | .error failure => reject { tokens := tokens } failure
    | .ok tree =>
      let made : Compilation := { tokens := tokens, tree := some tree }
      match Analysis.empty.program tree with
      | .error (failure, analysis) =>
        -- The variables declared before the error stay known, their uses do not.
        reject { made with symbols := analysis.symbols } failure
      | .ok analysis =>
        let made :=
          { made with symbols := analysis.symbols, resolution := analysis.resolution }
        match generate analysis.resolution tree with
        | .error failure => reject made failure
        | .ok code => .ok { made with code := code }

/-- Runs what was compiled, if it is a program. -/
def run? (c : Compilation) (cap : Int) : Option (Except RunFailure Run) :=
  if c.ok then some (runCode c.code cap) else none

end Compilation

end BlockCode
