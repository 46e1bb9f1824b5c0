import BlockCode.Service
import Mathlib.Data.List.Forall2
import Mathlib.Data.List.TakeWhile

/-! What the service tells about a source text. The answers are described field by field, as the
reader of an answer finds them, and compared with what was made of the text and with its run. -/

namespace BlockCode

/-- What is written for a field of a table row. -/
inductive Field.Written : Field → Json → Prop where
  | ref (id : Int) : Written (.ref id) (.int id)
  | absent : Written .absent .null
  | refs (ids : List Int) : Written (.refs ids) (.array (ids.map .int))
  | text (value : String) : Written (.text value) (.text value)
  | number (value : Int) : Written (.number value) (.int value)

/-- What is written for a table row: where the node is, and then its fields in their order. -/
inductive Row.Written (r : Row) : Json → Prop where
  | intro {written : List (Spelling × Json)}
      (each : List.Forall₂ (fun field entry => entry.1 = .text field.1 ∧ field.2.Written entry.2)
        r.fields written) :
      Written r (.object (("id", .int r.id) :: ("_type", .text r.variant) ::
        ("line", .int r.position.line) :: ("column", .int r.position.column) :: written))

/-- What is written for a syntax tree. -/
inductive Node.Written : Option Node → Json → Prop where
  | none : Written none .null
  | some {tree : Node} {rows : List Json}
      (each : List.Forall₂ Row.Written (Table.ofNode tree).rows rows) :
      Written (some tree) (.object [("root", .int tree.id), ("nodes", .array rows)])

namespace Response

/-- An answer holds a value in a field. -/
def Holds (answer : Response) (name : String) (value : Json) : Prop :=
  ∃ fields, answer.content = .json (.object fields) ∧ Json.field? name fields = some value

/-- An answer tells all about a compilation: its tokens up to the end mark, its tree, its variables,
its code and its diagnostics. -/
structure Tells (answer : Response) (c : Compilation) : Prop where
  status : answer.status = 200
  tokens : answer.Holds "tokens" <| .array <| (c.tokens.filter (·.kind ≠ .finish)).map fun t =>
    .object [("kind", .text t.kind.label), ("lexeme", .text t.lexeme),
      ("line", .int t.position.line), ("column", .int t.position.column)]
  tree : ∃ written, Node.Written c.tree written ∧ answer.Holds "ast" written
  symbols : answer.Holds "symbols" <| .array <| c.symbols.toList.map fun s =>
    .object [("name", .text s.name), ("slot", .nat s.slot), ("depth", .nat s.depth),
      ("line", .int s.position.line)]
  code : answer.Holds "instructions" <| .array <| c.code.toList.mapIdx fun index i =>
    .object [("index", .nat index), ("op", .text i.op.mnemonic),
      ("operand", Json.ofInt? i.operand), ("comment", Json.ofText? i.comment)]
  diagnostics : answer.Holds "diagnostics" <| .array <| c.diagnostics.map fun d =>
    .object [("severity", .text d.severity.label), ("message", .text d.message),
      ("hint", Json.ofText? d.hint), ("line", Json.ofInt? (d.position.map (·.line))),
      ("column", Json.ofInt? (d.position.map (·.column)))]

/-- An answer tells all about a compilation and its run: no run if there is a diagnostic, what was
printed in how many steps if the run came to an end, and nothing at all if it broke. -/
structure TellsRun (answer : Response) (c : Compilation) (cap : Int) : Prop where
  wrong : c.diagnostics ≠ [] → answer.Tells c ∧ answer.Holds "run" .null
  ended : c.diagnostics = [] → ∀ r, Machine.run? c.code cap = some r → r.fault? = none →
    answer.Tells c ∧ answer.Holds "run" (.object [("output", .texts r.final.output.toList),
      ("steps", .nat r.final.steps), ("limit_exceeded", .bool r.limitExceeded)])
  broke : c.diagnostics = [] → ∀ r fault, Machine.run? c.code cap = some r →
    r.fault? = some fault → answer.status = 500

end Response

/-- Each kind of field has its own form. -/
theorem Field.written_ofField (field : Field) : field.Written (Payload.ofField field) := by
  -- The kinds of fields and their forms are listed in the same order.
  cases field with
  | ref id => exact .ref id
  | absent => exact .absent
  | refs ids => exact .refs ids
  | text value => exact .text value
  | number value => exact .number value

/-- A row is written with its fields in their order. -/
theorem Row.written_ofRow (r : Row) : r.Written (Payload.ofRow r) := by
  -- The names are kept.
  exact .intro (List.forall₂_map_right_iff.mpr (List.forall₂_same.mpr fun entry _ =>
    ⟨rfl, entry.2.written_ofField⟩))

/-- A tree is written as the table it is laid out in. -/
theorem Node.written_ofTable (tree : Option Node) :
    Node.Written tree ((tree.map fun tree => Payload.ofTable (Table.ofNode tree)).getD .null) := by
  cases tree with
  | none => exact .none
  | some tree =>
    -- The rows are written in their order.
    exact .some (List.forall₂_map_right_iff.mpr (List.forall₂_same.mpr fun r _ => r.written_ofRow))

/-- Of two groups of fields, the second one is looked at first. -/
theorem Json.field?_append (name : String) (front back : List (Spelling × Json)) :
    Json.field? name (front ++ back) = (Json.field? name back).or (Json.field? name front) := by
  -- The last field with a name counts, so each field of the first group gives way.
  induction front with
  | nil => simp [Json.field?]
  | cons entry front ih => rw [List.cons_append, Json.field?, Json.field?, ih, Option.or_assoc]

namespace Service

variable {source : String} {c : Compilation} {cap : Int} {more : List (Spelling × Json)}
  {log : List LogLine}

/-- A text has no lone surrogate to be quoted, so an answer about it does not break. -/
theorem answer_text (source : String) (c : Compilation) (more : List (Spelling × Json))
    (log : List LogLine) :
    answer (.text source) c more log =
      ⟨200, .json (.object (Payload.ofCompilation c ++ more)), log⟩ := by
  -- Only a source that is not a text could have a lone surrogate to quote.
  have quiet : c.diagnostics.any (quotesLone (.text source)) = false := by
    simp [quotesLone]
  rw [answer, if_neg (by simp [quiet])]

/-- The fields about a compilation tell about it, if nothing behind them has one of their names. -/
theorem tells_answer (fresh : ∀ name ∈ ["tokens", "ast", "symbols", "instructions", "diagnostics"],
      Json.field? name more = none) :
    (answer (.text source) c more log).Tells c := by
  rw [answer_text]
  -- What is found among the fields is found in the answer.
  have holds {name : String} {value : Json} (apart : Json.field? name more = none)
      (found : Json.field? name (Payload.ofCompilation c) = some value) :
      Response.Holds ⟨200, .json (.object (Payload.ofCompilation c ++ more)), log⟩ name value := by
    refine ⟨_, rfl, ?_⟩
    rw [Json.field?_append, apart, Option.none_or, found]
  simp only [List.forall_mem_cons, List.not_mem_nil, false_imp_iff, implies_true, and_true] at fresh
  obtain ⟨tokens, tree, symbols, code, diagnostics⟩ := fresh
  refine ⟨rfl, holds tokens rfl, ⟨_, Node.written_ofTable c.tree, holds tree rfl⟩,
    holds symbols rfl, holds code ?_, holds diagnostics rfl⟩
  rw [List.mapIdx_eq_zipIdx_map]
  rfl

/-- A field behind those about a compilation is held as well. -/
theorem holds_run (value : Json) :
    (answer (.text source) c [("run", value)] log).Holds "run" value := by
  -- The fields about the compilation have other names, so the search passes over them.
  rw [answer_text]
  refine ⟨_, rfl, ?_⟩
  rw [Json.field?_append]
  rfl

/-- What was compiled is told. -/
theorem tells_compile (made : Compilation.ofSource source = .ok c) :
    (compile (.text source)).Tells c := by
  -- The compilation was made, so the answer is the one about it.
  rw [compile, Spelling.shown, made]
  exact tells_answer (by simp [Json.field?])

/-- What was compiled is told together with its run. -/
theorem tellsRun_run (made : Compilation.ofSource source = .ok c) :
    (run ⟨.text source, cap⟩).TellsRun c cap := by
  -- The name of the run is none of the names about the compilation.
  have fresh (value : Json) : ∀ name ∈ ["tokens", "ast", "symbols", "instructions", "diagnostics"],
      Json.field? name [("run", value)] = none := by
    simp [Json.field?]
  refine ⟨fun wrong => ?_, fun right r ran sound => ?_, fun right r fault ran broken => ?_⟩
  · have none : c.run? cap = none := by simp [Compilation.run?, Compilation.ok, wrong]
    simp only [run, Spelling.shown, made, none]
    exact ⟨tells_answer (fresh _), holds_run _⟩
  · have ended : c.run? cap = some (.ok r) := by
      simp [Compilation.run?, Compilation.ok, right, runCode, ran, sound]
    simp only [run, Spelling.shown, made, ended]
    exact ⟨tells_answer (fresh _), holds_run _⟩
  · have failed : c.run? cap = some (.error (.fault fault)) := by
      simp [Compilation.run?, Compilation.ok, right, runCode, ran, broken]
    simp only [run, Spelling.shown, made, failed]
    rfl

/-- If nothing was made of a source text, nothing is told. -/
theorem status_of_failure {failure : Failure}
    (failed : Compilation.ofSource source = .error failure) :
    (compile (.text source)).status = 500 ∧ (run ⟨.text source, cap⟩).status = 500 := by
  -- A failure is answered by the same status in both.
  simp only [compile, run, Spelling.shown, failed]
  exact ⟨rfl, rfl⟩

/-- A path without a query is its own route. -/
theorem route_plain {path : String} (plain : path.toList.all (fun c => c != '?' && c != '#') = true)
    (method : String) (body : List UInt8) : route ⟨method, path, body⟩ = path := by
  -- The path is cut at the first of the two signs, and there is none.
  rw [route, List.takeWhile_eq_self_iff.mpr (List.all_eq_true.mp plain), String.ofList_toList]

/-- A request to compile is answered for the source text in its body. -/
theorem handle_compile {body : List UInt8} {source : Spelling}
    (asked : Body.compileRequest body = .ok source) :
    handle ⟨"POST", "/api/compile", body⟩ = compile source := by
  -- The path names the route, and the method is the one that the route is for.
  rw [handle, route_plain (by decide) _ _]
  simp only [only, asked, if_true]

/-- A request to run is answered for the source text and the cap in its body. -/
theorem handle_run {body : List UInt8} {order : RunRequest}
    (asked : Body.runRequest body = .ok order) :
    handle ⟨"POST", "/api/run", body⟩ = run order := by
  -- As for a request to compile, with the cap read from the same body.
  rw [handle, route_plain (by decide) _ _]
  simp only [only, asked, if_true]

end Service

end BlockCode
