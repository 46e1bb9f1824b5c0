import BlockCode.Json.Read
import BlockCode.Machine
import BlockCode.Service.Binary64
import BlockCode.Service.LooseInteger
import BlockCode.Text.Layout

/-! The bodies of requests: what they have to hold, and what is reported if they do not. -/

namespace BlockCode

/-- Something wrong with a body: its kind, where it is, and what was found there. -/
structure Problem where
  kind : String
  path : List String
  found : Json

/-- Why a body is refused. -/
inductive BodyError where
  /-- The body says something wrong. -/
  | invalid (problems : List Problem)
  /-- The body cannot be taken in at all. -/
  | unreadable

/-- A request to run a source text. -/
structure RunRequest where
  source : Spelling
  maxSteps : Int
deriving DecidableEq, Repr

namespace Body

/-- The largest cap that a request may ask for. -/
def largestCap : Nat := 1000000

/-- Values in a body may stand inside each other this often. -/
def maxDepth : Nat := 940

/-- The value of a body. -/
def value (body : List UInt8) : Except BodyError Json :=
  -- An empty body is missing, not malformed.
  if body.isEmpty then .error (.invalid [⟨"missing", ["body"], .null⟩])
  else
    match Text.decode? body with
    | none => .error .unreadable
    | some points =>
      match Json.read maxDepth points with
      | .ok value => .ok value
      | .error .malformed => .error (.invalid [⟨"json_invalid", ["body"], .object []⟩])
      -- Numbers that are too long and values that are too deep are not told apart.
      | .error .overlong | .error .tooDeep => .error .unreadable

/-- The fields of a body, which has to be an object. -/
def fields (body : List UInt8) : Except BodyError (List (Spelling × Json)) :=
  -- Arrays, texts and numbers are values, but have no fields.
  match value body with
  | .error error => .error error
  | .ok (.object fields) => .ok fields
  | .ok other => .error (.invalid [⟨"model_attributes_type", ["body"], other⟩])

/-- The source text in a body. -/
def source (fields : List (Spelling × Json)) : Except Problem Spelling :=
  match Json.field? "source" fields with
  | some (.text source) => .ok source
  -- What was found instead is repeated in the answer.
  | some other => .error ⟨"string_type", ["body", "source"], other⟩
  | none => .error ⟨"missing", ["body", "source"], .object fields⟩

/-- The integer that a text writes. -/
def integerOfText : Spelling → Except String Int
  -- Only a well-formed text is read as a number.
  | .illFormed _ => .error "string_unicode"
  | .text value =>
    match LooseInteger.read value with
    | .ok n => .ok n
    | .error .malformed => .error "int_parsing"
    | .error .overlong => .error "int_parsing_size"

/-- The integer that a number with fraction or exponent stands for. -/
def integerOfDecimal (mantissa exponent : Int) : Except String Int :=
  -- The number is rounded first, as it would be stored, and judged after that.
  match Binary64.ofDecimal mantissa.natAbs exponent with
  | .infinite => .error "finite_number"
  | .fractional => .error "int_from_float"
  | .whole value =>
    if value ≥ Nat.pow 2 63 then .error "int_parsing_size"
    else .ok (if mantissa < 0 then -(value : Int) else value)

/-- The integer that a value stands for. -/
def integer : Json → Except String Int
  -- Booleans count as numbers, and texts are read as such.
  | .int value => .ok value
  | .bool value => .ok (if value then 1 else 0)
  | .decimal mantissa exponent => integerOfDecimal mantissa exponent
  | .text value => integerOfText value
  | .null | .array _ | .object _ => .error "int_type"

/-- The cap in a body. -/
def maxSteps (fields : List (Spelling × Json)) : Except Problem Int :=
  match Json.field? "max_steps" fields with
  -- The cap may be left out, but if it is there it has to be right.
  | none => .ok Machine.defaultCap
  | some found =>
    let problem (kind : String) : Problem := ⟨kind, ["body", "max_steps"], found⟩
    match integer found with
    | .error kind => .error (problem kind)
    | .ok cap =>
      if cap < 1 then .error (problem "greater_than_equal")
      else if cap > largestCap then .error (problem "less_than_equal")
      else .ok cap

/-- The source text that a body asks to compile. -/
def compileRequest (body : List UInt8) : Except BodyError Spelling := do
  -- There is only one field to be wrong about.
  let fields ← fields body
  (source fields).mapError fun problem => .invalid [problem]

/-- The run that a body asks for; all that is wrong with it is told. -/
def runRequest (body : List UInt8) : Except BodyError RunRequest := do
  let fields ← fields body
  -- Both fields are looked at, also if the first one is wrong already.
  match source fields, maxSteps fields with
  | .ok source, .ok cap => .ok ⟨source, cap⟩
  | .error problem, .ok _ | .ok _, .error problem => .error (.invalid [problem])
  | .error first, .error second => .error (.invalid [first, second])

end Body

end BlockCode
