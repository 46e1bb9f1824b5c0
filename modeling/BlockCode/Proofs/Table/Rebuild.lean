import BlockCode.Proofs.Parse.Numbering
import BlockCode.Proofs.Table
import BlockCode.Proofs.Totality
import BlockCode.Service.Payload

/-! The way back from a table to the tree that it was made from. A table is read as the service
tells it, row by row along the references. -/

namespace BlockCode

namespace Json

/-- The value in a field of an object. -/
@[simp] def at? (name : String) : Json → Option Json
  | object fields => field? name fields
  | _ => none

/-- An integer. -/
@[simp] def int? : Json → Option Int
  | int value => some value
  | _ => none

/-- A text. -/
@[simp] def text? : Json → Option String
  | text (.text value) => some value
  | _ => none

/-- The items of an array. -/
@[simp] def items? : Json → Option (List Json)
  | array items => some items
  | _ => none

/-- The integer in a field of an object. -/
@[simp] def intAt? (name : String) (j : Json) : Option Int := (j.at? name).bind int?

/-- The text in a field of an object. -/
@[simp] def textAt? (name : String) (j : Json) : Option String := (j.at? name).bind text?

end Json

namespace Token

/-- A token without its place. -/
def unplaced (t : Token) : Token := { t with position := ⟨0, 0⟩ }

/-- The operator with a given spelling, or else the name, without a place. -/
def ofSpelling (spelling : String) : Token :=
  ⟨(Kind.ofSymbol? spelling.toList).getD .name, spelling, ⟨0, 0⟩⟩

/-- What the spelling of a token tells about it. -/
def respelled (t : Token) : Token := ofSpelling t.lexeme

end Token

namespace Payload

/-- The nodes that an array of numbers refers to, in its order. -/
def readAll (follow : Int → Option Node) : List Json → Option (List Node)
  | [] => some []
  -- One reference that leads nowhere spoils the whole list.
  | item :: items => do return (← item.int?.bind follow) :: (← readAll follow items)

/-- The node that a row tells about. The nodes below it are looked up by their numbers. -/
def readRow (follow : Int → Option Node) (r : Json) : Option Node := do
  let mark : Mark := ⟨← r.intAt? "id", ⟨← r.intAt? "line", ← r.intAt? "column"⟩⟩
  -- These are looked at only for the variants that have the field.
  let below (name : String) : Option Node := (r.intAt? name).bind follow
  let token (name : String) : Option Token := (r.textAt? name).map .ofSpelling
  let statements : Option (List Node) :=
    ((r.at? "statements").bind Json.items?).bind (readAll follow)
  match ← r.textAt? "_type" with
  | "ProgramNode" => return .program mark (← statements)
  | "BlockStatement" => return .block mark (← statements)
  | "VarDecl" => return .declare mark (← token "name")
  | "AssignmentStatement" => return .assign mark (← token "name") (← below "value")
  | "PrintStatement" => return .print mark (← below "value")
  | "IfStatement" =>
    -- A choice says by a null that it has no alternative.
    match ← r.at? "else_branch" with
    | .null => return .choose mark (← below "condition") (← below "then_branch")
    | _ =>
      return .chooseElse mark (← below "condition") (← below "then_branch") (← below "else_branch")
  | "WhileStatement" => return .loop mark (← below "condition") (← below "body")
  | "BinaryExpression" =>
    return .binary mark (← below "left") (← token "operator") (← below "right")
  | "LiteralExpression" => return .literal mark (← r.intAt? "value")
  | "IdentifierExpression" => return .use mark (← token "name")
  | _ => none

/-- The tree under the node with a given number. The depth bounds how far references are
followed. -/
def rebuild (rows : List Json) : (depth : Nat) → (id : Int) → Option Node
  | 0, _ => none
  | depth + 1, id => do
    -- The first row with the number counts, as there is only one in a table of a tree.
    readRow (rebuild rows depth) (← rows.find? fun r => decide (r.intAt? "id" = some id))

/-- The tree that a table tells about. -/
def tree? (table : Json) : Option Node := do
  let rows ← (table.at? "nodes").bind Json.items?
  -- Without cycles no reference chain is longer than the table.
  rebuild rows rows.length (← table.intAt? "root")

end Payload

namespace Node

mutual

/-- A tree with other tokens for its names and operators. -/
def mapTokens (f : Token → Token) : Node → Node
  -- The marks stay, so the table has its rows in the same order.
  | program mark body => program mark (mapTokensAll f body)
  | block mark body => block mark (mapTokensAll f body)
  | declare mark name => declare mark (f name)
  | assign mark name value => assign mark (f name) (value.mapTokens f)
  | print mark value => print mark (value.mapTokens f)
  | choose mark condition yes => choose mark (condition.mapTokens f) (yes.mapTokens f)
  | chooseElse mark condition yes no =>
    chooseElse mark (condition.mapTokens f) (yes.mapTokens f) (no.mapTokens f)
  | loop mark condition body => loop mark (condition.mapTokens f) (body.mapTokens f)
  | binary mark left operator right =>
    binary mark (left.mapTokens f) (f operator) (right.mapTokens f)
  | literal mark value => literal mark value
  | use mark name => use mark (f name)
  | unknown mark variant => unknown mark variant

/-- Some trees with other tokens for their names and operators. -/
def mapTokensAll (f : Token → Token) : List Node → List Node
  | [] => []
  | n :: ns => n.mapTokens f :: mapTokensAll f ns

end

/-- Trees are changed one by one. -/
theorem mapTokensAll_eq_map (f : Token → Token) (ns : List Node) :
    mapTokensAll f ns = ns.map (mapTokens f) := by
  -- The function on rows is written out for the sake of its recursion, and is a plain map.
  induction ns with
  | nil => rfl
  | cons n ns ih => rw [mapTokensAll, ih, List.map_cons]

/-- Only the tokens that the nodes keep decide what becomes of a tree. -/
theorem mapTokens_congr {f g : Token → Token} {n : Node}
    (agree : ∀ m : Node, m.Within n → ∀ t ∈ m.kept, f t = g t) : n.mapTokens f = n.mapTokens g := by
  induction n using below_induction with
  | each n ih =>
    have below : ∀ child ∈ n.children, child.mapTokens f = child.mapTokens g := by
      intro child member
      apply ih child member
      intro m within
      exact agree m (.inside member within)
    -- The tokens of the root are its own, all others stand below.
    have own := agree n .root
    clear ih agree
    cases n <;> simp_all [mapTokens, mapTokensAll_eq_map, children, kept]

end Node

namespace Token

/-- A token that is cut out of a source and stays in the tree is known by its spelling. -/
theorem Longest.respelled {source : List Char} {t : Token} {start : Nat}
    (longest : Longest source t start) (kept : t.kind.isKept = true) :
    t.respelled = t.unplaced := by
  cases longest with
  | number kind =>
    rw [kind] at kept
    cases kept
  | @word first others spelled starts parts behind kind =>
    rcases kind with keyword | ⟨name, _⟩
    · -- No keyword stays in the tree.
      have gone : (Kind.keywords.all fun entry => !entry.2.isKept) = true := by decide
      have entry := List.all_eq_true.mp gone _ keyword
      rw [kept] at entry
      cases entry
    · -- A word starts with no sign, so it is not found among the symbols.
      have absent : Kind.ofSymbol? t.lexeme.toList = none := by
        cases found : Kind.ofSymbol? t.lexeme.toList with
        | none => rfl
        | some kind =>
          have signs : (Kind.symbols.all fun entry =>
              entry.1.all fun c => !isWordStart c) = true := by decide
          have entry := List.all_eq_true.mp signs _ (mem_symbols found)
          simp [spelled, starts] at entry
      simp [Token.respelled, ofSpelling, unplaced, absent, name]
  | symbol known =>
    simp [Token.respelled, ofSpelling, unplaced, ofSymbol?_entry _ known]

end Token

namespace Payload

open Node

variable {follow : Int → Option Node} {tree : Node}

/-- A row tells the number of its node. -/
theorem intAt?_id (n : Node) : (ofRow (Table.row n)).intAt? "id" = some n.id := by
  cases n <;> simp [ofRow, Table.row, Table.fields, Json.field?]

/-- A row is found by the number of its node. -/
theorem find_row (distinct : tree.ids.Nodup) {n : Node} (within : n.Within tree) :
    ((Table.ofNode tree).rows.map ofRow).find? (fun r => decide (r.intAt? "id" = some n.id)) =
      some (ofRow (Table.row n)) := by
  have unique : ((Table.ofNode tree).rows.map Row.id).Nodup :=
    (Table.ids_perm tree).nodup_iff.mpr distinct
  rw [List.find?_map, Option.map_eq_some_iff]
  refine ⟨Table.row n, ?_, rfl⟩
  cases found : (Table.ofNode tree).rows.find?
      ((fun r => decide (r.intAt? "id" = some n.id)) ∘ ofRow) with
  | none =>
    -- The row of the node itself is one with this number.
    have missed := List.find?_eq_none.mp found _ (Table.row_mem within)
    simp only [Function.comp, intAt?_id, decide_true, not_true_eq_false] at missed
  | some r =>
    -- Any row with this number is the row of the node, since no other row has it.
    obtain ⟨m, rfl⟩ := Table.exists_row (List.mem_of_find?_eq_some found)
    have same := List.find?_some found
    simp only [Function.comp, intAt?_id, decide_eq_true_eq, Option.some.injEq] at same
    have member := List.mem_of_find?_eq_some found
    rw [List.inj_on_of_nodup_map unique member (Table.row_mem within) same]

/-- Statements are found by their numbers. -/
theorem readAll_refs {ns : List Node}
    (found : ∀ n ∈ ns, follow n.id = some (n.mapTokens Token.respelled)) :
    readAll follow ((ns.map Node.id).map .int) = some (mapTokensAll Token.respelled ns) := by
  -- Each number leads to its own tree, in the order of the row.
  induction ns with
  | nil => rfl
  | cons n ns ih =>
    rw [List.forall_mem_cons] at found
    simp [readAll, mapTokensAll, found.1, ih found.2, -List.map_map]

/-- A row is read as its node if what is below is found by number. -/
theorem readRow_row {n : Node} (known : n.isKnown = true)
    (below : ∀ child ∈ n.children, follow child.id = some (child.mapTokens Token.respelled)) :
    readRow follow (ofRow (Table.row n)) = some (n.mapTokens Token.respelled) := by
  have own : (⟨n.id, ⟨n.position.line, n.position.column⟩⟩ : Mark) = n.mark := rfl
  cases n with simp only [children, List.forall_mem_cons] at below
  | unknown => cases known
  | program mark body | block mark body =>
    -- The statements are found one after the other.
    have statements := readAll_refs below
    simp [readRow, ofRow, ofField, Table.row, Table.fields, Json.field?, variant, mapTokens, own,
      Node.mark, statements, -List.map_map]
  | declare | assign | print | choose | chooseElse | loop | binary | literal | use =>
    simp [readRow, ofRow, ofField, Table.row, Table.fields, Json.field?, variant, mapTokens, own,
      Node.mark, Token.respelled, below]

/-- References lead to the tree under a node, if they are followed far enough. -/
theorem rebuild_within (distinct : tree.ids.Nodup)
    (known : ∀ n : Node, n.Within tree → n.isKnown = true) {depth : Nat} {n : Node}
    (within : n.Within tree) (enough : n.size ≤ depth) :
    rebuild ((Table.ofNode tree).rows.map ofRow) depth n.id =
      some (n.mapTokens Token.respelled) := by
  -- The induction is on the depth, which the nodes below have one less of.
  induction depth generalizing n with
  | zero =>
    rw [size_eq] at enough
    omega
  | succ depth ih =>
    have below : ∀ child ∈ n.children,
        rebuild ((Table.ofNode tree).rows.map ofRow) depth child.id =
          some (child.mapTokens Token.respelled) := by
      intro child member
      have smaller := size_le_sizes member
      rw [size_eq] at enough
      exact ih (within.child member) (by omega)
    rw [rebuild, find_row distinct within]
    exact readRow_row (known n within) below

/-- The table of a tree is read as the tree, as far as spellings tell. -/
theorem tree?_ofTable (dense : tree.ids.Perm ((List.range tree.size).map Int.ofNat))
    (known : ∀ n : Node, n.Within tree → n.isKnown = true) :
    tree? (ofTable (Table.ofNode tree)) = some (tree.mapTokens Token.respelled) := by
  have distinct : tree.ids.Nodup :=
    dense.nodup_iff.mpr (List.nodup_range.map Int.ofNat_injective)
  have count : (Table.ofNode tree).rows.length = tree.size := by
    simpa using congrArg List.length (Table.ids_eq_range dense)
  -- No path of references is longer than there are rows.
  have rebuilt := rebuild_within distinct known .root count.ge
  have root : (Table.ofNode tree).root = tree.id := rfl
  simpa [tree?, ofTable, Json.field?, root] using rebuilt

end Payload

namespace Node

open Payload

/-- The table of a parsed tree is read as the tree, as far as spellings tell. -/
theorem tree?_parse {tokens : List Token} {tree : Node} (read : parse tokens = .ok tree) :
    tree? (ofTable (Table.ofNode tree)) = some (tree.mapTokens Token.respelled) :=
  tree?_ofTable (parse_dense read) fun _ within => (parse_sourced read within).known

/-- A token of a source that stays in the tree is the longest one at its place. -/
theorem exists_longest {source : String} {tokens : List Token} {tree n : Node} {t : Token}
    (scanned : tokenize source = .ok tokens) (read : parse tokens = .ok tree)
    (within : n.Within tree) (member : t ∈ n.kept) :
    t.kind.isKept = true ∧ ∃ start, Token.Longest source.toList t start := by
  have cover := Token.cover_scan (tokenize_eq_ok.mp scanned)
  obtain ⟨there, kept⟩ := (parse_sourced read within).kept t member
  -- The end mark does not stay in the tree.
  have other : t.kind ≠ .finish := by
    intro finish
    rw [finish] at kept
    cases kept
  obtain ⟨start, _, _, longest⟩ := cover.stands there
  exact ⟨kept, start, longest other⟩

/-- Tokens of a source that stay in the tree are known by their spellings. -/
theorem respelled_eq_unplaced {source : String} {tokens : List Token} {tree : Node}
    (scanned : tokenize source = .ok tokens) (read : parse tokens = .ok tree) :
    tree.mapTokens Token.respelled = tree.mapTokens Token.unplaced := by
  -- Only the tokens that stay in the tree have to be looked at.
  apply mapTokens_congr
  intro n within t member
  obtain ⟨kept, start, longest⟩ := exists_longest scanned read within member
  exact longest.respelled kept

/-- A table loses nothing of a parsed tree. There is one row for each node, in the order of the
numbers. The root and the references name every row once. The tree that is found along the
references is the parsed one, but for the tokens of names and operators, of which only the
spellings are left. For the tokens of a source text this leaves out nothing but their places. So
source texts with the same table have the same tree but for these places. -/
theorem parse_table_lossless {tokens : List Token} {tree : Node} (read : parse tokens = .ok tree) :
    (Table.ofNode tree).rows.map Row.id = (List.range tree.size).map Int.ofNat ∧
    ((Table.ofNode tree).root :: (Table.ofNode tree).rows.flatMap Row.references).Perm
      ((Table.ofNode tree).rows.map Row.id) ∧
    tree? (ofTable (Table.ofNode tree)) = some (tree.mapTokens Token.respelled) ∧
    ∀ source, tokenize source = .ok tokens →
      tree? (ofTable (Table.ofNode tree)) = some (tree.mapTokens Token.unplaced) ∧
      ∀ source' tokens' tree', tokenize source' = .ok tokens' → parse tokens' = .ok tree' →
        ofTable (Table.ofNode tree') = ofTable (Table.ofNode tree) →
        tree'.mapTokens Token.unplaced = tree.mapTokens Token.unplaced := by
  refine ⟨Table.ids_eq_range (parse_dense read), Table.references_perm tree, tree?_parse read, ?_⟩
  intro source scanned
  rw [← respelled_eq_unplaced scanned read]
  refine ⟨tree?_parse read, ?_⟩
  intro source' tokens' tree' scanned' read' same
  rw [← respelled_eq_unplaced scanned' read']
  -- Both trees are what is read from the one table.
  have other := tree?_parse read'
  rw [same, tree?_parse read] at other
  exact (Option.some.inj other).symm

/-- The tokens of a sum that is printed, with the operator in a given column. -/
def sumTokens (column : Int) : List Token :=
  -- The column of the operator is the one thing that the tree does not say.
  [⟨.kwPrint, "print", ⟨1, 1⟩⟩, ⟨.openParen, "(", ⟨1, 6⟩⟩, ⟨.number, "1", ⟨1, 7⟩⟩,
    ⟨.plus, "+", ⟨1, column⟩⟩, ⟨.number, "2", ⟨1, 10⟩⟩, ⟨.closeParen, ")", ⟨1, 11⟩⟩,
    ⟨.semicolon, ";", ⟨1, 12⟩⟩, ⟨.finish, "", ⟨1, 13⟩⟩]

/-- The tree of these tokens. -/
def sumTree (column : Int) : Node :=
  -- The sum takes its place from its left operand.
  .program ⟨0, ⟨1, 1⟩⟩ [.print ⟨1, ⟨1, 1⟩⟩ (.binary ⟨4, ⟨1, 7⟩⟩ (.literal ⟨2, ⟨1, 7⟩⟩ 1)
    ⟨.plus, "+", ⟨1, column⟩⟩ (.literal ⟨3, ⟨1, 10⟩⟩ 2))]

/-- A blank before the operator or behind it makes no difference for the table, nor for the tree but
for the place of the operator. -/
theorem parse_table_lossless_blank :
    (Table.ofNode (sumTree 8)).rows.map Row.id = [0, 1, 2, 3, 4] ∧
    tree? (ofTable (Table.ofNode (sumTree 8))) = some ((sumTree 8).mapTokens Token.unplaced) ∧
    ofTable (Table.ofNode (sumTree 9)) = ofTable (Table.ofNode (sumTree 8)) ∧
    (sumTree 9).mapTokens Token.unplaced = (sumTree 8).mapTokens Token.unplaced := by
  have scanned : tokenize "print(1+ 2);" = .ok (sumTokens 8) := by decide +kernel
  have scanned' : tokenize "print(1 +2);" = .ok (sumTokens 9) := by decide +kernel
  have read : parse (sumTokens 8) = .ok (sumTree 8) := rfl
  have read' : parse (sumTokens 9) = .ok (sumTree 9) := rfl
  -- No row tells the column of the operator.
  have rows : Table.collect [sumTree 9] = Table.collect [sumTree 8] := by
    simp [Table.collect, Table.row, Table.fields, sumTree, children, variant, id, position, mark]
  obtain ⟨numbers, _, _, back⟩ := parse_table_lossless read
  obtain ⟨rebuilt, alike⟩ := back _ scanned
  have tables : ofTable (Table.ofNode (sumTree 9)) = ofTable (Table.ofNode (sumTree 8)) := by
    rw [Table.ofNode, rows]
    rfl
  exact ⟨numbers, rebuilt, tables, alike _ _ _ scanned' read' tables⟩

end Node

end BlockCode
