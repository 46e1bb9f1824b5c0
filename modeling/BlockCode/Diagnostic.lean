/-! Positions in a source text, the reasons to reject a program, and their wording. -/

namespace BlockCode

/-- A place in a source text; lines and columns of a scanned text count from one. -/
structure Position where
  line : Int
  column : Int
deriving DecidableEq, Repr

namespace Position

/-- Where a source text begins. -/
def start : Position := ⟨1, 1⟩

/-- The place some columns farther on the same line. -/
def right (p : Position) (columns : Nat) : Position :=
  { p with column := p.column + columns }

/-- The first place of the next line. -/
def nextLine (p : Position) : Position :=
  ⟨p.line + 1, 1⟩

/-- How messages name a place. -/
def text (p : Position) : String :=
  s!"line {p.line}, col {p.column}"

end Position

/-- How serious a diagnostic is. -/
inductive Severity where
  | error
deriving DecidableEq, Repr

/-- The label of a severity. -/
def Severity.label : Severity → String
  | error => "ERROR"

/-- Every severity, in order. -/
def Severity.all : List Severity := [.error]

/-- A message about a program, as shown to its author. -/
structure Diagnostic where
  severity : Severity
  message : String
  position : Option Position
  hint : Option String
deriving DecidableEq, Repr

/-- Puts the place behind a message, if there is one. -/
def located (message : String) : Option Position → String
  -- A message without a place is told as it is.
  | none => message
  | some p => s!"{message} at {p.text}"

/-- The line that reports a diagnostic. -/
def Diagnostic.line (d : Diagnostic) : String :=
  "Error: " ++ located d.message d.position

/-- Why a program is rejected. -/
inductive Cause where
  /-- A character that starts no token. -/
  | stray (character : String)
  /-- A token where the grammar asks for something else. -/
  | unexpected (expected found : String)
  /-- A second declaration of a name in one block. -/
  | redeclared (name : String)
  /-- A name without a visible declaration. -/
  | undeclared (name : String)
  /-- More levels inside each other than allowed. -/
  | tooDeep (limit : Int)
  /-- Any other reason, in its own words. -/
  | other (message : String)
deriving DecidableEq, Repr

namespace Cause

/-- What went wrong. -/
def message : Cause → String
  -- Names and texts are quoted as they stand in the source.
  | stray character => s!"Unexpected character '{character}'"
  | unexpected expected found => s!"Expected {expected}, found {found}"
  | redeclared name => s!"Redeclaration of '{name}'"
  | undeclared name => s!"Use of undeclared variable '{name}'"
  | tooDeep _ => "Program nested too deeply"
  | other message => message

/-- What the author could do about it. -/
def hint : Cause → Option String
  -- Only a few causes have a hint, and one of them only for one sign.
  | stray character =>
    if character = "!" then some "There is no logical-not operator; only '!=' is valid." else none
  | unexpected _ _ => none
  | redeclared _ =>
    some "Names must be unique within one block; declare it in a nested block to shadow it."
  | undeclared _ => some "Declare the variable with 'int <name>;' before using it."
  | tooDeep limit =>
    some s!"Blocks, if/while bodies and parentheses may nest at most {limit} levels."
  | other _ => none

end Cause

/-- A cause together with the place it was met. -/
structure Rejection where
  cause : Cause
  position : Option Position
deriving DecidableEq, Repr

namespace Rejection

/-- What went wrong and where, in one line. -/
def text (r : Rejection) : String :=
  located r.cause.message r.position

/-- The diagnostic shown for a rejected program. -/
def diagnostic (r : Rejection) : Diagnostic :=
  ⟨.error, r.cause.message, r.position, r.cause.hint⟩

end Rejection

end BlockCode
