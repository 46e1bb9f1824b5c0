import BlockCode.Service.Body
import BlockCode.Service.Payload
import BlockCode.Service.Report

/-! The web service: two pages, an endpoint that compiles and one that also runs. -/

namespace BlockCode

/-- A request to the service. -/
structure Request where
  method : String
  path : String
  /-- The bytes sent along, none if there is no body. -/
  body : List UInt8

/-- What a response holds. -/
inductive Content where
  | json (value : Json)
  | text (value : String)
  | problems (problems : List Problem)

/-- A line in the log of the service: its level and its text. -/
structure LogLine where
  level : String
  text : String
deriving DecidableEq, Repr

/-- A response of the service, with the lines that the request left in the log. -/
structure Response where
  status : Nat
  content : Content
  log : List LogLine

namespace Service

/-- The first page. -/
def indexPage : String :=
  -- A brace that is shown is written by its number.
  "<h2>MiniC Bytecode Compiler API</h2>" ++
  "<p>POST <code>/api/compile</code> with JSON: <code>\x7b\"source\": \"...\"\x7d</code></p>" ++
  "<p>POST <code>/api/run</code> with JSON: " ++
  "<code>\x7b\"source\": \"...\", \"max_steps\": 100000\x7d</code></p>"

/-- A response with one remark and nothing in the log. -/
def remark (status : Nat) (detail : String) : Response :=
  ⟨status, .json (.object [("detail", .text detail)]), []⟩

/-- The response when something breaks inside the service. -/
def broken (log : List LogLine) : Response :=
  ⟨500, .text "Internal Server Error", log⟩

/-- The response to a refused body. What was found is repeated with each problem. -/
def refuse : BodyError → Response
  | .invalid problems =>
    -- A value that cannot be sent breaks the answer about it.
    if problems.all fun p => Report.isSendable p.found then ⟨422, .problems problems, []⟩
    else broken []
  | .unreadable => remark 400 "There was an error parsing the body"

/-- How the log writes a truth value. -/
def boolText (b : Bool) : String := if b then "True" else "False"

/-- What a compilation leaves in the log. The time it took is not told. -/
def compilationLog (endpoint : String) (c : Compilation) : List LogLine :=
  -- Each diagnostic comes before the summary, with its place if it has one.
  let warnings := c.diagnostics.map fun d =>
    let place := (d.position.map (·.text)).getD "no position"
    LogLine.mk "WARNING" s!"{endpoint}: {d.message} ({place})"
  warnings ++ [⟨"INFO",
    s!"{endpoint}: {c.tokens.length} tokens, {c.code.size} instructions in T ms"⟩]

/-- What a run leaves in the log. -/
def runLog (r : Run) : LogLine :=
  -- How the run ended is told apart from how long it took.
  let exceeded := boolText r.limitExceeded
  ⟨"INFO", s!"run: {r.final.steps} steps, {r.final.output.size} output lines, " ++
    s!"limit_exceeded={exceeded}"⟩

/-- The code point at a place of a text that begins at another place. -/
def pointAt? (place : Position) : (here : Position) → List Text.Point → Option Text.Point
  | _, [] => none
  | here, p :: rest =>
    if here = place then some p
    -- A line feed leads to the next line, and any other code point one column on.
    else pointAt? place (if p = .char '\n' then here.nextLine else here.right 1) rest

/-- Tells whether a diagnostic quotes a lone surrogate of a source text. -/
def quotesLone (source : Spelling) (d : Diagnostic) : Bool :=
  match source, d.position with
  -- Only an ill-formed source has code points that are no characters.
  | .illFormed points, some place => (pointAt? place .start points).any (!·.is fun _ => true)
  | _, _ => false

/-- The response about a compilation. Diagnostics are part of it, so it breaks when one of them is
no text. -/
def answer (source : Spelling) (c : Compilation) (more : List (Spelling × Json))
    (log : List LogLine) : Response :=
  -- What is quoted is part of the message, so it would have to be written out.
  if c.diagnostics.any (quotesLone source) then broken log
  else ⟨200, .json (.object (Payload.ofCompilation c ++ more)), log⟩

/-- Compiles a source text. -/
def compile (source : Spelling) : Response :=
  match Compilation.ofSource source.shown with
  -- A program that breaks the compiler gives no answer but an error, and leaves no log.
  | .error _ => broken []
  | .ok c => answer source c [] (compilationLog "compile" c)

/-- Compiles and runs a source text. -/
def run (request : RunRequest) : Response :=
  match Compilation.ofSource request.source.shown with
  | .error _ => broken []
  | .ok c =>
    let log := compilationLog "run" c
    match c.run? request.maxSteps with
    -- A text that was not compiled has no run, and the answer says so.
    | none => answer request.source c [("run", .null)] log
    | some (.error _) => broken log
    | some (.ok r) => answer request.source c [("run", Payload.ofRun r)] (log ++ [runLog r])

/-- Answers a request on a path that takes one method. -/
def only (method : String) (request : Request) (answer : Response) : Response :=
  if request.method = method then answer else remark 405 "Method Not Allowed"

/-- The path of a request without the query behind it. -/
def route (request : Request) : String :=
  String.ofList (request.path.toList.takeWhile fun c => c != '?' && c != '#')

/-- Answers a request. -/
def handle (request : Request) : Response :=
  -- The route decides first, then the method, and the body comes last.
  match route request with
  | "/" => only "GET" request ⟨200, .text indexPage, []⟩
  | "/health" => only "GET" request ⟨200, .json (.object [("status", .text "ok")]), []⟩
  | "/api/compile" =>
    only "POST" request <|
      match Body.compileRequest request.body with
      | .ok source => compile source
      | .error error => refuse error
  | "/api/run" =>
    only "POST" request <|
      match Body.runRequest request.body with
      | .ok order => run order
      | .error error => refuse error
  | _ => remark 404 "Not Found"

end Service

end BlockCode
