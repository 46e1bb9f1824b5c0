import BlockCode.Compilation
import BlockCode.Json
import BlockCode.Node.Table

/-! What the service tells about a compilation and a run. -/

namespace BlockCode.Payload

/-- A field of a table row. -/
def ofField : Field → Json
  -- References are written as numbers, and a branch that is missing as null.
  | .ref id => .int id
  | .absent => .null
  | .refs ids => .array (ids.map .int)
  | .text value => .text value
  | .number value => .int value

/-- A row of a table. -/
def ofRow (r : Row) : Json :=
  -- Every row says these first, and then the fields of its kind.
  let common : List (Spelling × Json) := [
    ("id", .int r.id),
    ("_type", .text r.variant),
    ("line", .int r.position.line),
    ("column", .int r.position.column)]
  .object (common ++ r.fields.map fun (name, field) => (.text name, ofField field))

/-- A tree laid out in rows. -/
def ofTable (t : Table) : Json :=
  .object [("root", .int t.root), ("nodes", .array (t.rows.map ofRow))]

/-- A diagnostic. -/
def ofDiagnostic (d : Diagnostic) : Json :=
  -- What is unknown is written as null and never left out.
  .object [
    ("severity", .text d.severity.label),
    ("message", .text d.message),
    ("hint", Json.ofText? d.hint),
    ("line", Json.ofInt? (d.position.map (·.line))),
    ("column", Json.ofInt? (d.position.map (·.column)))]

/-- A token. -/
def ofToken (t : Token) : Json :=
  -- A token is told by the label of its kind and not by its sign alone.
  .object [
    ("kind", .text t.kind.label),
    ("lexeme", .text t.lexeme),
    ("line", .int t.position.line),
    ("column", .int t.position.column)]

/-- A declared variable. -/
def ofSymbol (s : Symbol) : Json :=
  -- The column of a declaration is not told.
  .object [
    ("name", .text s.name),
    ("slot", .nat s.slot),
    ("depth", .nat s.depth),
    ("line", .int s.position.line)]

/-- An instruction at its address. -/
def ofInstruction (index : Nat) (i : Instruction) : Json :=
  -- The index is told, since a jump names one.
  .object [
    ("index", .nat index),
    ("op", .text i.op.mnemonic),
    ("operand", Json.ofInt? i.operand),
    ("comment", Json.ofText? i.comment)]

/-- The fields about a compilation; the end mark counts as a token but is not shown. -/
def ofCompilation (c : Compilation) : List (Spelling × Json) := [
  -- The counts come first, so that they are seen before the lists.
  ("token_count", .nat c.tokens.length),
  ("diagnostic_count", .nat c.diagnostics.length),
  ("has_ast", .bool c.tree.isSome),
  ("diagnostics", .array (c.diagnostics.map ofDiagnostic)),
  ("tokens", .array ((c.tokens.filter (·.kind ≠ .finish)).map ofToken)),
  ("ast", (c.tree.map fun tree => ofTable (Table.ofNode tree)).getD .null),
  ("symbols", .array (c.symbols.toList.map ofSymbol)),
  ("instructions", .array (c.code.toList.zipIdx.map fun (i, index) => ofInstruction index i))]

/-- A run. -/
def ofRun (r : Run) : Json :=
  -- The lines are those of the output, with the report of how it ended among them.
  .object [
    ("output", .texts r.final.output.toList),
    ("steps", .nat r.final.steps),
    ("limit_exceeded", .bool r.limitExceeded)]

end BlockCode.Payload
