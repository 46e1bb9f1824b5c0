import BlockCode.Compilation
import BlockCode.Proofs.Attempt
import BlockCode.Proofs.Instruction.Emission
import BlockCode.Proofs.Parse.Moved

/-! Compiling does not look at places: sources with the same tokens at different places have the
same code, or are refused for the same reason. -/

namespace BlockCode

section

variable (r : Relocation)

/-- A symbol at its other place. -/
def Symbol.moved (s : Symbol) : Symbol := { s with position := r.place s.position }

/-- What is known about variables, with their other places. -/
def Analysis.moved (a : Analysis) : Analysis := { a with symbols := a.symbols.map (Symbol.moved r) }

end

namespace Analysis

variable {r : Relocation} {a : Analysis}

/-- Of two steps the second is the first one, moved. -/
inductive Moved (r : Relocation) : Step → Step → Prop where
  | done (a : Analysis) : Moved r (.ok a) (.ok (a.moved r))
  | failed (e : Failure) (a : Analysis) : Moved r (.error (e, a)) (.error (e.moved r, a.moved r))

/-- If both of two steps are moved, so are they together. -/
theorem Moved.bind {x y : Step} {next next' : Analysis → Step} (first : Moved r x y)
    (following : ∀ a, Moved r (next a) (next' (a.moved r))) :
    Moved r (x >>= next) (y >>= next') := by
  -- A failure is moved to its other place and passed on.
  cases first with
  | done a => exact following a
  | failed e a => exact .failed e a

/-- A mark that keeps its number only gets another place. -/
theorem id_moved (still : r.gap = 0) (mark : Mark) : (mark.moved r).id = mark.id := by
  simp [Mark.moved, still]

/-- A declaration takes the same slot at another place. -/
theorem moved_declare (still : r.gap = 0) (a : Analysis) (mark : Mark) (name : Token) :
    Moved r (a.declare mark name) ((a.moved r).declare (mark.moved r) (name.moved r)) := by
  -- The table is asked for the name alone.
  simp only [declare, Analysis.moved, Token.moved, record, id_moved still]
  cases a.table.declare? name.lexeme with
  | none => exact .failed (.rejected ⟨.redeclared name.lexeme, some name.position⟩) a
  | some pair =>
    -- The new symbol is moved with the others.
    have known := Moved.done (r := r) { a.record mark pair.1 with
      table := pair.2,
      symbols := a.symbols.push ⟨name.lexeme, pair.1, pair.2.depth, name.position⟩ }
    simpa only [Analysis.moved, record, Array.map_push, Symbol.moved] using known

/-- A reference finds the same slot at another place. -/
theorem moved_refer (still : r.gap = 0) (a : Analysis) (mark : Mark) (name : Token) :
    Moved r (a.refer mark name) ((a.moved r).refer (mark.moved r) (name.moved r)) := by
  -- The name is looked up by its text, and the slot is recorded by the number of the node.
  simp only [refer, Analysis.moved, Token.moved, record, id_moved still]
  cases a.table.lookup? name.lexeme with
  | none => exact .failed (.rejected ⟨.undeclared name.lexeme, some name.position⟩) a
  | some slot => exact .done (a.record mark slot)

/-- A block is closed alike. -/
theorem moved_leave (a : Analysis) : Moved r a.leave (a.moved r).leave := by
  -- The scopes have no places in them.
  simp only [leave, Analysis.moved]
  cases a.table.leave? with
  | none => exact .failed (.defect .outermostScope) a
  | some table => exact .done { a with table := table }

mutual

/-- A tree at other places is gone through alike. -/
theorem moved_visit (still : r.gap = 0) (a : Analysis) :
    (n : Node) → Moved r (a.visit n) ((a.moved r).visit (n.moved r))
  -- Each kind of tree takes the steps it takes, so the steps are compared one by one.
  | .declare mark name => moved_declare still a mark name
  | .assign mark name value =>
    .bind (moved_visit still a value) fun a => moved_refer still a mark name
  | .print _ value => moved_visit still a value
  | .block _ body => .bind (moved_visitAll still a.enter body) moved_leave
  | .choose _ condition yes =>
    .bind (moved_visit still a condition) fun a => moved_visit still a yes
  | .chooseElse _ condition yes no =>
    .bind (moved_visit still a condition) fun a =>
      .bind (moved_visit still a yes) fun a => moved_visit still a no
  | .loop _ condition body =>
    .bind (moved_visit still a condition) fun a => moved_visit still a body
  | .binary _ left _ right =>
    .bind (moved_visit still a left) fun a => moved_visit still a right
  | .use mark name => moved_refer still a mark name
  | .literal .. => .done a
  | .program .. => .failed _ a
  | .unknown .. => .failed _ a

/-- Trees at other places are gone through alike. -/
theorem moved_visitAll (still : r.gap = 0) (a : Analysis) :
    (ns : List Node) → Moved r (a.visitAll ns) ((a.moved r).visitAll (Node.movedAll r ns))
  -- The walk over the first tree leaves an analysis that differs in places only.
  | [] => .done a
  | n :: ns => .bind (moved_visit still a n) fun a => moved_visitAll still a ns

end

end Analysis

namespace Node

variable {r : Relocation}

/-- The statements of a tree are moved with it. -/
theorem body_moved (n : Node) : (n.moved r).body = movedAll r n.body := by
  cases n <;> rfl

/-- A tree stays of its variant. -/
theorem variant_moved (n : Node) : (n.moved r).variant = n.variant := by
  cases n <;> rfl

end Node

/-- Variables have the same slots at other places, or the same one is refused there. -/
theorem resolve_moved {r : Relocation} (still : r.gap = 0) (tree : Node) :
    resolve (tree.moved r) = (resolve tree).mapError (Failure.moved r) := by
  -- Nothing is known at first, so there is nothing to move.
  have nothing : Analysis.empty.moved r = .empty := by simp [Analysis.moved, Analysis.empty]
  have gone : Analysis.Moved r (Analysis.empty.program tree)
      (Analysis.empty.program (tree.moved r)) := by
    have all := Analysis.moved_visitAll still .empty tree.body
    rwa [nothing, ← Node.body_moved] at all
  unfold resolve
  generalize Analysis.empty.program tree = x at gone
  generalize Analysis.empty.program (tree.moved r) = y at gone
  cases gone <;> rfl

namespace Code

variable {r : Relocation} {resolution : Resolution}

/-- The slot of a node is found by its number. -/
theorem emitSlot_moved (still : r.gap = 0) (code : Code) (op : Opcode) (n : Node)
    (comment : Option String) :
    emitSlot resolution code op (n.moved r) comment = emitSlot resolution code op n comment := by
  -- Without a gap between the numbers, moving keeps the number of a node.
  have same : (n.moved r).id = n.id := by
    rw [Node.id, Node.mark_moved]
    exact Analysis.id_moved still _
  simp only [emitSlot, Emission.emitSlot, same, Node.variant_moved]

mutual

/-- The code of a tree does not depend on its places. -/
theorem ofNode_moved (still : r.gap = 0) (code : Code) :
    (n : Node) → ofNode resolution code (n.moved r) = ofNode resolution code n
  -- Only the slots of nodes are asked for, and the comments name no places.
  | .declare mark name => emitSlot_moved still _ .store (.declare mark name) _
  | .assign mark name value => by
    simp only [ofNode_assign, Node.moved, ofNode_moved still code value]
    exact bind_congr fun code => emitSlot_moved still code .store (.assign mark name value) _
  | .print _ value => by
    simp only [ofNode_print, Node.moved, ofNode_moved still code value]
  | .block _ body => ofNodes_moved still code body
  | .choose _ condition yes => by
    simp only [ofNode_choose, Node.moved, ofNode_moved still _ condition, ofNode_moved still _ yes]
  | .chooseElse _ condition yes no => by
    simp only [ofNode_chooseElse, Node.moved, ofNode_moved still _ condition,
      ofNode_moved still _ yes, ofNode_moved still _ no]
  | .loop _ condition body => by
    simp only [ofNode_loop, Node.moved, ofNode_moved still _ condition, ofNode_moved still _ body]
  | .binary _ left operator right => by
    simp only [ofNode_binary, Node.moved, ofNode_moved still _ left, ofNode_moved still _ right]
    rfl
  | .literal .. => rfl
  | .use mark name => emitSlot_moved still code .load (.use mark name) _
  | .program .. => rfl
  | .unknown .. => rfl

/-- The code of some trees does not depend on their places. -/
theorem ofNodes_moved (still : r.gap = 0) (code : Code) :
    (ns : List Node) → ofNodes resolution code (Node.movedAll r ns) = ofNodes resolution code ns
  -- The codes are the same in front of each tree, not only alike.
  | [] => rfl
  | n :: ns => by
    simp only [ofNodes_cons, Node.movedAll, ofNode_moved still code n, ofNodes_moved still _ ns]

end

end Code

/-- The code of a program does not depend on its places. -/
theorem generate_moved {r : Relocation} (still : r.gap = 0) (resolution : Resolution)
    (tree : Node) : generate resolution (tree.moved r) = generate resolution tree := by
  simp only [generate, Code.program_eq, Node.body_moved, Code.ofNodes_moved still]

/-- A tree at other places has the same code, or the failure is at another place. -/
theorem resolve_generate_moved {r : Relocation} (still : r.gap = 0) (tree : Node) :
    (resolve (tree.moved r) >>= fun resolution => generate resolution (tree.moved r)) =
      (resolve tree >>= fun resolution => generate resolution tree).mapError (Failure.moved r) := by
  simp only [resolve_moved still, generate_moved still]
  cases resolve tree with
  | error e => rfl
  | ok resolution =>
    -- A failure to generate code is a defect, and has no place.
    show generate resolution tree = (generate resolution tree).mapError (Failure.moved r)
    unfold generate
    cases Code.program resolution #[] tree <;> rfl

/-- The code of a row of tokens. -/
def translate (tokens : List Token) : Except Failure Code := do
  -- The stages behind the tokens, which read no places.
  let tree ← Node.parse tokens
  let resolution ← resolve tree
  generate resolution tree

/-- Compiling is translating the tokens of the source. -/
theorem compile_eq (source : String) : compile source = tokenize source >>= translate := rfl

/-- Tokens at other places have the same code, or the failure is at another place. -/
theorem translate_moved {r : Relocation} (still : r.gap = 0) (tokens : List Token) :
    translate (tokens.map (Token.moved r)) = (translate tokens).mapError (Failure.moved r) := by
  -- Reading keeps or moves the failure, and so does each pass behind it.
  simp only [translate, Node.parse_moved still]
  cases Node.parse tokens with
  | error e => rfl
  | ok tree => exact resolve_generate_moved still tree

/-- A failure without its place: the cause of a rejection, or all there is. -/
def Failure.unplaced : Failure → Failure
  -- What is said about the text stays, though not where.
  | rejected rejection => rejected ⟨rejection.cause, none⟩
  | failure => failure

/-- A failure at another place is the same without it. -/
theorem Failure.unplaced_moved (r : Relocation) (e : Failure) :
    (e.moved r).unplaced = e.unplaced := by
  cases e <;> rfl

/-- What a failure says does not depend on its place. -/
theorem Failure.message_unplaced (e : Failure) : e.unplaced.message = e.message := by
  cases e <;> rfl

/-- All tokens at the start. -/
def gathered : Relocation := ⟨fun _ => .start, 0⟩

/-- Tokens that agree in kinds and texts are the same when their places are. -/
theorem gathered_eq {tokens tokens' : List Token}
    (alike : tokens.map (fun t => (t.kind, t.lexeme)) = tokens'.map (fun t => (t.kind, t.lexeme))) :
    tokens.map (Token.moved gathered) = tokens'.map (Token.moved gathered) := by
  -- A token at the start of the text is made from its kind and its text alone.
  have built := congrArg (List.map fun p : Kind × String => Token.mk p.1 p.2 .start) alike
  rw [List.map_map, List.map_map] at built
  exact built

/-- Where the tokens of two sources agree in kinds and texts, wherever they stand, the sources have
the same code and every run of one is a run of the other, or both are refused and the failures
differ in nothing but their places. -/
theorem compile_layout {source source' : String} {tokens tokens' : List Token}
    (scanned : tokenize source = .ok tokens) (scanned' : tokenize source' = .ok tokens')
    (alike : tokens.map (fun t => (t.kind, t.lexeme)) = tokens'.map (fun t => (t.kind, t.lexeme))) :
    (∃ code, compile source = .ok code ∧ compile source' = .ok code ∧
      ∀ cap, runSource source cap = runSource source' cap) ∨
    ∃ e e', compile source = .error e ∧ compile source' = .error e' ∧
      e.unplaced = e'.unplaced ∧ e.message = e'.message := by
  -- With all tokens in one place, the sources cannot be told apart.
  have same : (translate tokens).mapError (Failure.moved gathered) =
      (translate tokens').mapError (Failure.moved gathered) := by
    rw [← translate_moved rfl, ← translate_moved rfl, gathered_eq alike]
  have compiled : compile source = translate tokens := by rw [compile_eq, scanned]; rfl
  have compiled' : compile source' = translate tokens' := by rw [compile_eq, scanned']; rfl
  simp only [runSource, compiled, compiled']
  generalize translate tokens = x at same
  generalize translate tokens' = y at same
  cases x with
  | ok code =>
    cases y with
    | ok code' =>
      obtain rfl : code = code' := by simpa using same
      exact .inl ⟨code, rfl, rfl, fun _ => rfl⟩
    | error e' => simp at same
  | error e =>
    cases y with
    | ok code' => simp at same
    | error e' =>
      have moved : e.moved gathered = e'.moved gathered := by simpa using same
      have unplaced : e.unplaced = e'.unplaced := by
        rw [← e.unplaced_moved gathered, moved, e'.unplaced_moved]
      refine .inr ⟨e, e', rfl, rfl, unplaced, ?_⟩
      rw [← e.message_unplaced, unplaced, e'.message_unplaced]

/-- A short program on one line. -/
def closeSource : String := "int n;n=2;if(n)\x7bprint(n);\x7d"

/-- The same program on several lines, with a comment. -/
def spreadSource : String := "int n;\n\n  n = 2; // two\nif (n) \x7b\n\tprint( n );\r\n\x7d\n"

/-- The two have the same code, although their tokens stand at different places. -/
theorem compile_layout_spread : tokenize closeSource ≠ tokenize spreadSource ∧
    ∃ code, compile closeSource = .ok code ∧ compile spreadSource = .ok code ∧
      ∀ cap, runSource closeSource cap = runSource spreadSource cap := by
  -- The tokens differ in their places, and agree in all the rest.
  have apart : (tokenize closeSource).toOption ≠ (tokenize spreadSource).toOption := by
    decide +kernel
  have alike : (tokenize closeSource).toOption.map (List.map fun t => (t.kind, t.lexeme)) =
      (tokenize spreadSource).toOption.map (List.map fun t => (t.kind, t.lexeme)) := by
    decide +kernel
  have compiles : (compile closeSource).toOption.isSome = true := by decide +kernel
  refine ⟨fun same => apart (congrArg Except.toOption same), ?_⟩
  cases scanned : tokenize closeSource with
  | error e => simp [compile_eq, scanned, Except.toOption, Bind.bind, Except.bind] at compiles
  | ok tokens =>
    cases scanned' : tokenize spreadSource with
    | error e => simp [scanned, scanned', Except.toOption] at alike
    | ok tokens' =>
      rw [scanned, scanned'] at alike
      rcases compile_layout scanned scanned' (Option.some.inj alike) with same | ⟨e, _, failed, _⟩
      · exact same
      · simp [failed, Except.toOption] at compiles

end BlockCode
