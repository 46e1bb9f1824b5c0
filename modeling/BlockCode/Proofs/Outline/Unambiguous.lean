import BlockCode.Proofs.Outline
import BlockCode.Proofs.Parse.Numbering
import BlockCode.Proofs.Placement
import BlockCode.Proofs.Table.Rebuild

/-! The way back from an outline to the tree. The depths of the lines tell which lines are below
which, and the words in them tell what the nodes are. -/

namespace BlockCode

/-- A line of an outline together with the lines below it. -/
inductive Entry where
  | mk (text : String) (below : List Entry)

namespace Entry

/-- The entries below a line. -/
def inner : Entry → List Entry
  | mk _ below => below

mutual

/-- The lines of an entry with their depths. -/
def lines (depth : Nat) : Entry → List (Nat × String)
  | mk text below => (depth, text) :: linesAll (depth + 1) below

/-- The lines of some entries in turn with their depths. -/
def linesAll (depth : Nat) : List Entry → List (Nat × String)
  -- Entries next to each other stand at one depth.
  | [] => []
  | e :: es => e.lines depth ++ linesAll depth es

end

/-- Lines of entries at one depth, and no deeper line behind them, start at that depth at most. -/
theorem head?_linesAll {depth : Nat} {rest : List (Nat × String)} (es : List Entry)
    (behind : ∀ p ∈ rest.head?, p.1 < depth) :
    ∀ p ∈ (linesAll depth es ++ rest).head?, p.1 ≤ depth := by
  -- The first entry is at the depth itself, and without one what follows is less deep.
  cases es with
  | nil => exact fun p member => Nat.le_of_lt (behind p member)
  | cons e es =>
    cases e with
    | mk text below => simp [linesAll, lines]

mutual

/-- An entry is told by its lines, if none that follows is deeper than its first one. -/
theorem lines_inj (depth : Nat) {rest rest' : List (Nat × String)}
    (behind : ∀ p ∈ rest.head?, p.1 ≤ depth) (behind' : ∀ p ∈ rest'.head?, p.1 ≤ depth) :
    ∀ e e' : Entry, e.lines depth ++ rest = e'.lines depth ++ rest' → e = e' ∧ rest = rest'
  | mk text below, mk text' below', same => by
    simp only [lines, List.cons_append, List.cons.injEq, Prod.mk.injEq, true_and] at same
    obtain ⟨rfl, others⟩ := same
    -- What is below is one step deeper.
    obtain ⟨rfl, rfl⟩ := linesAll_inj (depth + 1)
      (fun p member => Nat.lt_succ_of_le (behind p member))
      (fun p member => Nat.lt_succ_of_le (behind' p member)) below below' others
    exact ⟨rfl, rfl⟩

/-- Entries in turn are told by their lines, if what follows is not as deep. -/
theorem linesAll_inj (depth : Nat) {rest rest' : List (Nat × String)}
    (behind : ∀ p ∈ rest.head?, p.1 < depth) (behind' : ∀ p ∈ rest'.head?, p.1 < depth) :
    ∀ es es' : List Entry, linesAll depth es ++ rest = linesAll depth es' ++ rest' →
      es = es' ∧ rest = rest'
  | [], [], same => ⟨rfl, same⟩
  | [], mk text below :: es, same => by
    -- A line at the depth would have to be among what follows.
    have first : rest.head? = some (depth, text) := by
      rw [linesAll, List.nil_append] at same
      rw [same]
      rfl
    exact absurd (behind _ first) (Nat.lt_irrefl _)
  | mk text below :: es, [], same => by
    have first : rest'.head? = some (depth, text) := by
      rw [linesAll, linesAll, List.nil_append] at same
      rw [← same]
      rfl
    exact absurd (behind' _ first) (Nat.lt_irrefl _)
  | e :: es, e' :: es', same => by
    rw [linesAll, linesAll, List.append_assoc, List.append_assoc] at same
    obtain ⟨rfl, others⟩ := lines_inj depth (head?_linesAll es behind) (head?_linesAll es' behind')
      e e' same
    obtain ⟨rfl, rfl⟩ := linesAll_inj depth behind behind' es es' others
    exact ⟨rfl, rfl⟩

end

end Entry

/-- The depth of a line and its text. -/
def unindented (line : String) : Nat × String :=
  ((line.toList.takeWhile (· = ' ')).length / 2, String.ofList (line.toList.dropWhile (· = ' ')))

/-- Depth and text are read from a line, unless the text itself starts with a blank. -/
theorem unindented_indented {text : String} (solid : text.toList.head? ≠ some ' ') (depth : Nat) :
    unindented (indented depth text) = (depth, text) := by
  -- There are two blanks for each step.
  have blanks : ∀ c ∈ List.replicate (2 * depth) ' ', decide (c = ' ') = true := by
    intro c member
    exact decide_eq_true (List.eq_of_mem_replicate member)
  -- The text is where the blanks end.
  have stops : text.toList.takeWhile (· = ' ') = [] ∧
      text.toList.dropWhile (· = ' ') = text.toList := by
    cases spelled : text.toList with
    | nil => simp
    | cons c cs =>
      have other : c ≠ ' ' := by simpa [spelled] using solid
      simp [other]
  rw [unindented, indented, String.toList_append, String.toList_ofList,
    List.takeWhile_append_of_pos blanks, List.dropWhile_append_of_pos blanks, stops.1, stops.2]
  simp

namespace Node

mutual

/-- The line of a tree with what is below it. -/
def entry (n : Node) : Entry :=
  .mk n.title <| match n with
  | program _ body | block _ body => entries body
  | assign _ _ value | print _ value => [value.entry]
  -- A branch is below a heading.
  | choose _ condition yes => [condition.entry, .mk "Then" [yes.entry]]
  | chooseElse _ condition yes no =>
    [condition.entry, .mk "Then" [yes.entry], .mk "Else" [no.entry]]
  | loop _ condition body => [condition.entry, .mk "Do" [body.entry]]
  | binary _ left _ right => [left.entry, right.entry]
  | declare .. | literal .. | use .. | unknown .. => []

/-- The lines of some trees in turn with what is below them. -/
def entries : List Node → List Entry
  -- The order of the trees is that of their lines.
  | [] => []
  | n :: ns => n.entry :: entries ns

end

variable {n : Node}

/-- The title of a node with a meaning does not start with a blank. -/
theorem head?_title (known : n.isKnown = true) : n.title.toList.head? ≠ some ' ' := by
  -- Every title of a known kind of node is a fixed word in front.
  cases n with
  | unknown => cases known
  | _ => simp [title]

/-- The lines of trees in turn are read if those of each tree are. -/
theorem unindented_renderings {depth : Nat} {ns : List Node}
    (each : ∀ n ∈ ns, (n.rendering depth).map unindented = n.entry.lines depth) :
    (renderings depth ns).map unindented = Entry.linesAll depth (entries ns) := by
  -- The lines of the trees are put behind each other on both sides.
  induction ns with
  | nil => rfl
  | cons n ns ih =>
    rw [List.forall_mem_cons] at each
    rw [renderings, List.map_append, each.1, ih each.2]
    rfl

/-- The lines of a tree are read as those of its entry, if all its nodes have a meaning. -/
theorem unindented_rendering (known : ∀ m : Node, m.Within n → m.isKnown = true) (depth : Nat) :
    (n.rendering depth).map unindented = n.entry.lines depth := by
  -- The lines below a node are read as they are on their own, only deeper.
  induction n using below_induction generalizing depth with
  | each n ih =>
    have below : ∀ child ∈ n.children, ∀ depth,
        (child.rendering depth).map unindented = child.entry.lines depth := by
      intro child member
      exact ih child member fun m within => known m (.inside member within)
    have own := unindented_indented (head?_title (known n .root))
    have headings : ∀ text ∈ ["Then", "Else", "Do"], ∀ depth,
        unindented (indented depth text) = (depth, text) := by
      intro text member
      apply unindented_indented
      simp only [List.mem_cons, List.not_mem_nil, or_false] at member
      rcases member with rfl | rfl | rfl <;> simp
    cases n with
    | program mark body | block mark body =>
      have statements : (renderings (depth + 1) body).map unindented = _ :=
        unindented_renderings fun n member => below n member (depth + 1)
      rw [rendering, List.map_cons, own, statements]
      rfl
    | _ => simp_all [rendering, entry, children, Entry.lines, Entry.linesAll]

end Node

namespace Entry

/-- The first word of a line. -/
def word (text : String) : String := String.ofList (text.toList.takeWhile (· ≠ ' '))

/-- What follows the first word of a line. -/
def detail (text : String) : String := String.ofList ((text.toList.dropWhile (· ≠ ' ')).drop 1)

/-- The token that a line tells the spelling of, at the start. -/
def token (text : String) : Token := (Token.ofSpelling (detail text)).moved gathered

/-- The node that a line tells about, with the nodes that are told below it. -/
def node (mark : Mark) (text : String) (below : List Node) : Node :=
  match word text with
  | "Program" => .program mark below
  | "Block" => .block mark below
  | "VarDecl" => .declare mark (token text)
  | "Literal" => .literal mark ((Numeral.read (detail text)).toOption.getD 0)
  | "Identifier" => .use mark (token text)
  | name =>
    -- The number of parts leaves a few words to choose from.
    match below with
    | [value] => if name = "Assign" then .assign mark (token text) value else .print mark value
    | [first, second] =>
      if name = "If" then .choose mark first second
      else if name = "While" then .loop mark first second
      else .binary mark first (token text) second
    | [condition, yes, no] => .chooseElse mark condition yes no
    | _ => .unknown mark text

mutual

/-- The trees that an entry tells about, numbered from some number on, and the first number that is
left. A heading tells about what is below it only. -/
def nodes (k : Nat) : Entry → List Node × Nat
  | mk text below =>
    if word text ∈ ["Then", "Else", "Do"] then nodesAll k below
    else if word text = "Binary" then
      -- A binary expression takes its number behind its operands.
      let (parts, last) := nodesAll k below
      ([node ⟨last, .start⟩ text parts], last + 1)
    else
      let (parts, last) := nodesAll (k + 1) below
      ([node ⟨k, .start⟩ text parts], last)

/-- The trees that some entries in turn tell about. -/
def nodesAll (k : Nat) : List Entry → List Node × Nat
  | [] => ([], k)
  | e :: es =>
    -- The numbers go on where the first entry left off.
    let (first, middle) := e.nodes k
    let (others, last) := nodesAll middle es
    (first ++ others, last)

end

end Entry

namespace Node

variable {n : Node}

/-- What an outline tells about a tree: its nodes with their numbers, and the spellings of names and
operators. -/
def retold (n : Node) : Node := (n.mapTokens Token.respelled).moved gathered

/-- A line is read as its node if what is below it is. -/
theorem node_title (known : n.isKnown = true) (short : n.Short) :
    Entry.node ⟨n.id, .start⟩ n.title (n.children.map retold) = n.retold := by
  -- The place is given up, and the number is kept by the line.
  have own : (⟨n.id, .start⟩ : Mark) = n.mark.moved gathered := by
    simp [Mark.moved, gathered, id]
  rw [own]
  cases n with
  | unknown => cases known
  | literal mark value =>
    have read : Numeral.read value.repr = .ok value := Numeral.read_toString short
    simp [Entry.node, title, Entry.word, Entry.detail, retold, mapTokens, moved, read,
      Except.toOption, Node.mark]
  | program mark body | block mark body =>
    simp [Entry.node, title, Entry.word, retold, mapTokens, moved, Node.mark, children,
      mapTokensAll_eq_map, movedAll_eq_map]
  | _ =>
    simp [Entry.node, title, Entry.word, Entry.detail, Entry.token, retold, mapTokens, moved,
      Node.mark, children, Token.respelled]

/-- Headings are passed over. -/
theorem nodesAll_inner (n : Node) (k : Nat) :
    Entry.nodesAll k n.entry.inner = Entry.nodesAll k (entries n.children) := by
  cases n <;> simp [entry, Entry.inner, children, entries, Entry.nodesAll, Entry.nodes, Entry.word]

/-- An entry tells about its node, whose number comes before or behind those below. -/
theorem nodes_entry (known : n.isKnown = true) (k : Nat) : n.entry.nodes k =
    if n.isBinary then
      let (parts, last) := Entry.nodesAll k (entries n.children)
      ([Entry.node ⟨last, .start⟩ n.title parts], last + 1)
    else
      let (parts, last) := Entry.nodesAll (k + 1) (entries n.children)
      ([Entry.node ⟨k, .start⟩ n.title parts], last) := by
  have whole : n.entry = .mk n.title n.entry.inner := by cases n <;> simp [entry, Entry.inner]
  rw [whole, Entry.nodes, nodesAll_inner, nodesAll_inner]
  -- The first word of a title is no heading, and it tells binary expressions.
  cases n with
  | unknown => cases known
  | _ => simp [title, Entry.word, isBinary]

variable {ns : List Node} {first last : Nat}

/-- Trees that are numbered in order are told by their entries. -/
theorem nodesAll_entries (numbering : Numbering ns first last)
    (known : ∀ m ∈ ns, ∀ n : Node, n.Within m → n.isKnown = true)
    (writable : ∀ m ∈ ns, m.Writable) :
    Entry.nodesAll first (entries ns) = (ns.map retold, last) := by
  -- The induction goes along the numbers, so each node is told with the number that it has.
  induction numbering with
  | nothing k => rfl
  | @before n k last other number below ih =>
    have own := known n (.head _)
    have short := writable n (.head _)
    have parts := ih (fun m member n' within => own n' (.inside member within))
      (writable_iff.mp short).2
    have root := node_title (own n .root) (short n .root)
    rw [number] at root
    simp [entries, Entry.nodesAll, nodes_entry (own n .root), other, parts, root]
  | @behind mark left right operator first last number below ih =>
    have own := known _ (.head _)
    have short := writable _ (.head _)
    have parts := ih (fun m member n' within => own n' (.inside member within))
      (writable_iff.mp short).2
    have number : (binary mark left operator right).id = last := number
    have root := node_title (own _ .root) (short _ .root)
    rw [number] at root
    have parts : Entry.nodesAll first (entries (binary mark left operator right).children) =
        ((binary mark left operator right).children.map retold, last) := parts
    have binary : (binary mark left operator right).isBinary = true := rfl
    simp [entries, Entry.nodesAll, nodes_entry (own _ .root), binary, parts, root]
  | @also n m ns first middle last one others oneIh othersIh =>
    rw [List.forall_mem_cons] at known writable
    have front := oneIh (List.forall_mem_singleton.mpr known.1)
      (List.forall_mem_singleton.mpr writable.1)
    have back := othersIh known.2 writable.2
    -- The others are numbered from where the first tree ends.
    have alone : n.entry.nodes first = ([n.retold], middle) := by
      simpa [entries, Entry.nodesAll] using front
    rw [entries, Entry.nodesAll, alone]
    simp only [back, List.map_cons, List.singleton_append]

/-- A parsed tree is told by its entry. -/
theorem nodes_parse {tokens : List Token} {tree : Node} (read : parse tokens = .ok tree) :
    (Entry.nodesAll 0 [tree.entry]).1 = [tree.retold] := by
  -- The reader is started at zero, which is the number of the root.
  obtain ⟨last, numbering⟩ := parse_numbering read
  have told := nodesAll_entries numbering
    (List.forall_mem_singleton.mpr fun n within => (parse_sourced read within).known)
    (List.forall_mem_singleton.mpr (parse_writable read))
  rw [entries, entries] at told
  rw [told]
  rfl

/-- Parsed trees with the same outline are the same, as far as an outline tells about them. -/
theorem retold_eq {tokens tokens' : List Token} {tree tree' : Node} {depth : Nat}
    (read : parse tokens = .ok tree) (read' : parse tokens' = .ok tree')
    (same : tree.outline depth = tree'.outline depth) : tree.retold = tree'.retold := by
  -- The lines tell their depths and texts, these the entries, and these the trees.
  rw [outline_writable (parse_writable read), outline_writable (parse_writable read'),
    Except.ok.injEq] at same
  have lines := congrArg (List.map unindented) same
  rw [unindented_rendering fun n within => (parse_sourced read within).known,
    unindented_rendering fun n within => (parse_sourced read' within).known] at lines
  have none : ∀ p ∈ ([] : List (Nat × String)).head?, p.1 ≤ depth := by simp
  obtain ⟨entries, _⟩ := Entry.lines_inj depth none none _ _ (congrArg (· ++ []) lines)
  have told := nodes_parse read
  rw [entries, nodes_parse read'] at told
  exact (List.singleton_inj.mp told).symm

/-- Where only the places of the tokens are changed, all that matters is where they are moved to. -/
theorem moved_mapTokens {r : Relocation} {f : Token → Token}
    (alike : ∀ t, (f t).moved r = t.moved r) (n : Node) : (n.mapTokens f).moved r = n.moved r := by
  -- The tokens occur in a node only through where they are moved to.
  induction n using below_induction with
  | each n ih =>
    cases n <;> simp_all [mapTokens, moved, children, mapTokensAll_eq_map, movedAll_eq_map]

/-- The outline of a source text tells its tree but for the places. -/
theorem retold_eq_moved {source : String} {tokens : List Token} {tree : Node}
    (scanned : tokenize source = .ok tokens) (read : parse tokens = .ok tree) :
    tree.retold = tree.moved gathered := by
  -- A token without its place is moved to the same place as the token.
  rw [retold, respelled_eq_unplaced scanned read]
  have alike : ∀ t : Token, t.unplaced.moved gathered = t.moved gathered := fun _ => rfl
  exact moved_mapTokens alike tree

end Node

/-- What a failure says does not depend on where it is moved. -/
theorem mapError_message_moved (r : Relocation) (x : Except Failure Code) :
    (x.mapError (Failure.moved r)).mapError Failure.message = x.mapError Failure.message := by
  -- Moving changes positions, which no message mentions.
  cases x with
  | ok code => rfl
  | error e =>
    show Except.error (e.moved r).message = Except.error e.message
    rw [← Failure.message_unplaced, Failure.unplaced_moved, Failure.message_unplaced]

/-- Source texts with the same tree but for the places have the same code, or they fail with the
same message. -/
theorem compile_gathered {source source' : String} {tokens tokens' : List Token} {tree tree' : Node}
    (scanned : tokenize source = .ok tokens) (scanned' : tokenize source' = .ok tokens')
    (read : Node.parse tokens = .ok tree) (read' : Node.parse tokens' = .ok tree')
    (same : tree.moved gathered = tree'.moved gathered) :
    (compile source).mapError Failure.message = (compile source').mapError Failure.message := by
  have compiled : compile source = resolve tree >>= fun resolution => generate resolution tree := by
    simp [compile, scanned, read, Bind.bind, Except.bind]
  have compiled' :
      compile source' = resolve tree' >>= fun resolution => generate resolution tree' := by
    simp [compile, scanned', read', Bind.bind, Except.bind]
  -- With all places at the start, the trees cannot be told apart.
  have moved := resolve_generate_moved (r := gathered) rfl tree
  rw [same, resolve_generate_moved (r := gathered) rfl tree'] at moved
  rw [compiled, compiled', ← mapError_message_moved gathered, ← moved, mapError_message_moved]

open Node

/-- The outline of a tree is the one that is written by recursion, and it is unambiguous. It fails
exactly if a literal has too many digits, which none has in a parsed tree. Two parsed trees with the
same outline have the same nodes and numbers, and the same spellings of names and operators. For the
tokens of source texts this leaves out nothing but places, so the texts have the same code, or they
fail with the same message. -/
theorem outline_faithful :
    (∀ (n : Node) (depth : Nat),
      (∀ lines, n.outline depth = .ok lines ↔
        (∀ mark value, (literal mark value).Within n → Numeral.Short value) ∧
          lines = n.rendering depth) ∧
      ∀ e, n.outline depth = .error e ↔
        (∃ mark value, (literal mark value).Within n ∧ ¬ Numeral.Short value) ∧
          e = .unprintable) ∧
    (∀ tokens tree, parse tokens = .ok tree → ∀ depth : Nat, ∃ lines,
      tree.outline depth = .ok lines) ∧
    ∀ tokens tokens' tree tree', parse tokens = .ok tree → parse tokens' = .ok tree' →
      tree.outline 0 = tree'.outline 0 →
      (tree.mapTokens Token.respelled).moved gathered =
        (tree'.mapTokens Token.respelled).moved gathered ∧
      ∀ source source', tokenize source = .ok tokens → tokenize source' = .ok tokens' →
        tree.moved gathered = tree'.moved gathered ∧
        (compile source).mapError Failure.message = (compile source').mapError Failure.message := by
  refine ⟨?_, ?_, ?_⟩
  · intro n depth
    rw [← writable_iff_literal]
    have literals : (∃ mark value, (literal mark value).Within n ∧ ¬ Numeral.Short value) ↔
        ¬ n.Writable := by
      simp [writable_iff_literal]
    rw [literals]
    by_cases writable : n.Writable
    · simp [outline_writable writable, writable, eq_comm]
    · simp [outline_unwritable writable, writable, eq_comm]
  · intro tokens tree read depth
    exact ⟨_, outline_writable (parse_writable read) depth⟩
  · intro tokens tokens' tree tree' read read' same
    have told := @retold_eq _ _ _ _ 0 read read' same
    refine ⟨told, ?_⟩
    intro source source' scanned scanned'
    -- Spellings tell everything about the tokens of a source but their places.
    rw [retold_eq_moved scanned read, retold_eq_moved scanned' read'] at told
    exact ⟨told, compile_gathered scanned scanned' read read' told⟩

/-- The tokens of a choice, with some blanks before the alternative. -/
def choiceTokens (blanks : Int) : List Token :=
  -- The blanks move what follows, and no line of the outline tells columns.
  [⟨.kwIf, "if", ⟨1, 1⟩⟩, ⟨.openParen, "(", ⟨1, 3⟩⟩, ⟨.number, "1", ⟨1, 4⟩⟩,
    ⟨.closeParen, ")", ⟨1, 5⟩⟩, ⟨.kwPrint, "print", ⟨1, 6⟩⟩, ⟨.openParen, "(", ⟨1, 11⟩⟩,
    ⟨.number, "2", ⟨1, 12⟩⟩, ⟨.closeParen, ")", ⟨1, 13⟩⟩, ⟨.semicolon, ";", ⟨1, 14⟩⟩,
    ⟨.kwElse, "else", ⟨1, 15 + blanks⟩⟩, ⟨.openBrace, "\x7b", ⟨1, 19 + blanks⟩⟩,
    ⟨.closeBrace, "\x7d", ⟨1, 20 + blanks⟩⟩, ⟨.finish, "", ⟨1, 21 + blanks⟩⟩]

/-- The tree of these tokens. -/
def choiceTree (blanks : Int) : Node :=
  -- Only the place of the block is moved by the blanks.
  .program ⟨0, ⟨1, 1⟩⟩ [.chooseElse ⟨1, ⟨1, 1⟩⟩ (.literal ⟨2, ⟨1, 4⟩⟩ 1)
    (.print ⟨3, ⟨1, 6⟩⟩ (.literal ⟨4, ⟨1, 12⟩⟩ 2)) (.block ⟨5, ⟨1, 19 + blanks⟩⟩ [])]

/-- The branches stand below their headings, and a blank before the alternative makes no difference.
A number that is too long has no outline. -/
theorem outline_faithful_choice :
    (choiceTree 0).outline 0 = .ok ["Program", "  If", "    Literal 1", "    Then", "      Print",
      "        Literal 2", "    Else", "      Block"] ∧
    (choiceTree 0).moved gathered = (choiceTree 1).moved gathered ∧
    (compile "if(1)print(2);else\x7b\x7d").mapError Failure.message =
      (compile "if(1)print(2); else\x7b\x7d").mapError Failure.message ∧
    (literal ⟨0, ⟨1, 1⟩⟩ (10 ^ Numeral.maxDigits)).outline 0 = .error .unprintable := by
  have scanned : tokenize "if(1)print(2);else\x7b\x7d" = .ok (choiceTokens 0) := by decide +kernel
  have scanned' : tokenize "if(1)print(2); else\x7b\x7d" = .ok (choiceTokens 1) := by
    decide +kernel
  have read : parse (choiceTokens 0) = .ok (choiceTree 0) := rfl
  have read' : parse (choiceTokens 1) = .ok (choiceTree 1) := rfl
  obtain ⟨walk, total, unambiguous⟩ := outline_faithful
  -- Both trees have an outline, and it is the rendering.
  obtain ⟨lines, shown⟩ := total _ _ read 0
  obtain ⟨lines', shown'⟩ := total _ _ read' 0
  obtain ⟨_, rfl⟩ := ((walk _ 0).1 lines).mp shown
  obtain ⟨_, rfl⟩ := ((walk _ 0).1 lines').mp shown'
  have same : (choiceTree 0).rendering 0 = (choiceTree 1).rendering 0 := rfl
  obtain ⟨_, sources⟩ := unambiguous _ _ _ _ read read'
    (shown.trans ((congrArg _ same).trans shown'.symm))
  obtain ⟨moved, compiled⟩ := sources _ _ scanned scanned'
  have long : ¬ Numeral.Short (10 ^ Numeral.maxDigits) := by
    rw [Numeral.short_iff, Int.natAbs_pow]
    generalize Numeral.maxDigits = digits
    exact Nat.lt_irrefl _
  have overlong := ((walk (literal ⟨0, ⟨1, 1⟩⟩ (10 ^ Numeral.maxDigits)) 0).2 .unprintable).mpr
    ⟨⟨_, _, .root, long⟩, rfl⟩
  exact ⟨shown, moved, compiled, overlong⟩

end BlockCode
