import BlockCode.Proofs.Parse.Numbering
import BlockCode.Proofs.Token.Cover
import BlockCode.Proofs.Totality

/-! The tokens that each node of a tree is read from, and the one of them that gives the node its
place: the first one that is no opening parenthesis. -/

namespace BlockCode

namespace Grammar

/-- What is noted for a category when its nodes are numbered from some number on: the nodes, each
with the tokens that it is read from. A tail is given the operand on its left, the tokens up to its
own, and what was noted for them. -/
def Category.Noted : Category → Type
  | .expression _ | .statement | .body => Nat → List (Node × List Token)
  -- The span of an operator needs the tokens of its left operand.
  | .tail _ => Node → List Token → List (Node × List Token) → Nat → List (Node × List Token)

namespace Derivation

/-- The nodes of a derivation, each with the tokens that it is read from. A node in parentheses does
not take them for its own; they go to the expression around it. -/
def origins : {category : Category} → Derivation category → category.Noted
  | _, d@(number _) | _, d@(use _) => fun k => [((d.build k).1, d.tokens)]
  -- The parentheses are not in the span of what they hold.
  | _, group _ inside _ => inside.origins
  | _, chain _ first others => fun k =>
    others.origins (first.build k).1 first.tokens (first.origins k) (first.build k).2
  | _, done => fun _ _ noted _ => noted
  | _, more operator right others => fun left before noted k =>
    -- The span of an operator goes from its first operand to its last one.
    let mark : Mark := ⟨(right.build k).2, left.position⟩
    let joined := Node.binary mark left operator (right.build k).1
    let span := before ++ operator.val :: right.tokens
    others.origins joined span ((joined, span) :: (noted ++ right.origins k))
      ((right.build k).2 + 1)
  | _, d@(declare ..) => fun k => [((d.build k).1, d.tokens)]
  -- The node of a statement comes first, and those below it follow in the order of their tokens.
  | _, d@(assign _ _ value _) | _, d@(print _ _ value _ _) => fun k =>
    ((d.build k).1, d.tokens) :: value.origins (k + 1)
  | _, d@(choose _ _ condition _ yes) => fun k =>
    ((d.build k).1, d.tokens) ::
      (condition.origins (k + 1) ++ yes.origins (condition.build (k + 1)).2)
  | _, d@(chooseElse _ _ condition _ yes _ no) => fun k =>
    ((d.build k).1, d.tokens) ::
      -- Each part is numbered from where the part before it left off.
      (condition.origins (k + 1) ++ (yes.origins (condition.build (k + 1)).2 ++
        no.origins (yes.build (condition.build (k + 1)).2).2))
  | _, d@(loop _ _ condition _ repeated) => fun k =>
    ((d.build k).1, d.tokens) ::
      (condition.origins (k + 1) ++ repeated.origins (condition.build (k + 1)).2)
  | _, d@(block _ inside _) => fun k => ((d.build k).1, d.tokens) :: inside.origins (k + 1)
  | _, nothing => fun _ => []
  | _, also first others => fun k => first.origins k ++ others.origins (first.build k).2

end Derivation

end Grammar

namespace Node

/-- A node stands in a tree if it is the root or stands in what is below. -/
theorem within_iff {m n : Node} : m.Within n ↔ m = n ∨ ∃ child ∈ n.children, m.Within child := by
  -- A way down to a node is empty or starts with a child.
  constructor
  · intro within
    cases within with
    | root => exact .inl rfl
    | inside member within => exact .inr ⟨_, member, within⟩
  · rintro (rfl | ⟨child, member, within⟩)
    · exact .root
    · exact .inside member within

/-- A node has the place of the first token in a row that is no opening parenthesis. -/
def LedBy (n : Node) (row : List Token) : Prop :=
  ∃ t, row.find? (·.kind ≠ .openParen) = some t ∧ n.position = t.position

/-- Tokens that follow do not change which one is the first. -/
theorem LedBy.append {n : Node} {row : List Token} (led : n.LedBy row) (more : List Token) :
    n.LedBy (row ++ more) := by
  -- The first token that is no parenthesis is found before those that follow.
  obtain ⟨t, found, place⟩ := led
  exact ⟨t, by rw [List.find?_append, found, Option.some_or], place⟩

/-- The place of a node among the tokens that it is read from. Only those of an operator can begin
with a parenthesis. -/
structure Anchored (n : Node) (span : List Token) : Prop where
  led : n.LedBy span
  bare : n.isBinary = false → ∀ t ∈ span.head?, t.kind ≠ .openParen

/-- A node with the place of the first token is anchored there, if that is no parenthesis. -/
theorem Anchored.first {n : Node} {t : Token} (place : n.position = t.position)
    (other : t.kind ≠ .openParen) (rest : List Token) : n.Anchored (t :: rest) := by
  -- The first token is the one that is found, since it is no parenthesis.
  refine ⟨⟨t, by simp [other], place⟩, fun _ t' head => ?_⟩
  obtain rfl := Option.some.inj head
  exact other

/-- Trees in turn are read from a row of tokens: each of their nodes is noted with a part of the
row, and has its place there. -/
structure Spanning (row : List Token) (ns : List Node) (noted : List (Node × List Token)) :
    Prop where
  nodes : ∀ n, (∃ span, (n, span) ∈ noted) ↔ ∃ m ∈ ns, n.Within m
  inside : ∀ n span, (n, span) ∈ noted → span <:+: row
  anchored : ∀ n span, (n, span) ∈ noted → n.Anchored span

namespace Spanning

variable {row before after : List Token} {n : Node} {ns ms : List Node}
  {noted noted' : List (Node × List Token)}

/-- More tokens may stand around the others. -/
theorem widen (spanning : Spanning before ns noted) (part : before <:+: row) :
    Spanning row ns noted := by
  -- What was noted stays, and the tokens that it was noted with are still in a row.
  refine ⟨spanning.nodes, ?_, spanning.anchored⟩
  intro n span member
  exact (spanning.inside n span member).trans part

/-- Nothing is read from any tokens. -/
theorem nothing : Spanning row [] [] :=
  ⟨by simp, by simp, by simp⟩

/-- Trees read from some tokens stand before trees read from the tokens that follow. -/
theorem append (left : Spanning before ns noted) (right : Spanning after ms noted') :
    Spanning (before ++ after) (ns ++ ms) (noted ++ noted') := by
  -- The nodes of both rows are noted, each with tokens of its own side.
  refine ⟨?_, ?_, ?_⟩
  · -- Together they note the nodes of all trees.
    intro n
    simp only [List.mem_append, exists_or, or_and_right, left.nodes, right.nodes]
  · intro n span member
    rcases List.mem_append.mp member with first | second
    · exact (left.inside n span first).trans (List.prefix_append _ _).isInfix
    · exact (right.inside n span second).trans (List.suffix_append _ _).isInfix
  · intro n span member
    rcases List.mem_append.mp member with first | second
    · exact left.anchored n span first
    · exact right.anchored n span second

/-- A token may stand between two parts. -/
theorem parted (left : Spanning before ns noted) (t : Token) (right : Spanning after ms noted') :
    Spanning (before ++ t :: after) (ns ++ ms) (noted ++ noted') :=
  left.append (right.widen (List.suffix_cons t after).isInfix)

/-- A tree is read from a row if its root has its place there and what is below is read from parts
of the row. -/
theorem node (root : n.Anchored row) (below : Spanning row n.children noted) :
    Spanning row [n] ((n, row) :: noted) := by
  -- The root is noted with the whole row, and what is below as it was.
  refine ⟨?_, ?_, ?_⟩
  · -- A node is the root or stands below it.
    intro m
    have root : (∃ r ∈ [n], m.Within r) ↔ m = n ∨ ∃ child ∈ n.children, m.Within child := by
      simp only [List.mem_singleton, exists_eq_left]
      exact within_iff
    rw [root, ← below.nodes m]
    simp only [List.mem_cons, Prod.mk.injEq, exists_or, exists_and_left, exists_eq, and_true]
  · intro m span member
    rcases List.mem_cons.mp member with same | lower
    · cases same
      exact List.infix_refl _
    · exact below.inside m span lower
  · intro m span member
    rcases List.mem_cons.mp member with same | lower
    · cases same
      exact root
    · exact below.anchored m span lower

/-- A tree that begins with a token of its own has the place of that token, if what is below is
read from a part of the row. -/
theorem headed {t : Token} (place : n.position = t.position) (other : t.kind ≠ .openParen)
    (below : Spanning before n.children noted) (part : before <:+: t :: after) :
    Spanning (t :: after) [n] ((n, t :: after) :: noted) :=
  .node (.first place other after) (below.widen part)

end Spanning

end Node

namespace Grammar.Derivation

open Node

variable {category : Category}

/-- The nodes of a derivation are read from the tokens that it covers. An expression has the place
of the first of them that is no parenthesis, and keeps it when operands are added behind. -/
def Spans : {category : Category} → Derivation category → Prop
  -- The place of an expression is stated with its span, as a tail needs both of its left operand.
  | .expression _, d => ∀ k, Spanning d.tokens [(d.build k).1] (d.origins k) ∧
    (d.build k).1.LedBy d.tokens
  | .tail _, d => ∀ left before noted k, Spanning before [left] noted → left.LedBy before →
    Spanning (before ++ d.tokens) [(d.build left k).1] (d.origins left before noted k) ∧
      (d.build left k).1.LedBy (before ++ d.tokens)
  | .statement, d => ∀ k, Spanning d.tokens [(d.build k).1] (d.origins k)
  | .body, d => ∀ k, Spanning d.tokens (d.build k).1 (d.origins k)

/-- Every derivation reads its nodes from its tokens. -/
theorem spans (d : Derivation category) : d.Spans := by
  induction d with
  | number numeral =>
    intro k
    have anchored : ((number numeral).build k).1.Anchored [numeral.val] :=
      .first rfl (by simp) []
    exact ⟨.node anchored .nothing, anchored.led⟩
  | use name =>
    intro k
    have anchored : ((use name).build k).1.Anchored [name.val] := .first rfl (by simp) []
    exact ⟨.node anchored .nothing, anchored.led⟩
  | group opening inside closing ih =>
    intro k
    obtain ⟨spanning, led⟩ := ih k
    refine ⟨spanning.widen ⟨[opening.val], [closing.val], by simp [tokens]⟩, ?_⟩
    -- The parenthesis in front is passed over.
    obtain ⟨t, found, place⟩ := led.append [closing.val]
    exact ⟨t, by simpa [tokens] using found, place⟩
  | chain _ first others firstIh othersIh =>
    intro k
    obtain ⟨spanning, led⟩ := firstIh k
    exact othersIh _ _ _ _ spanning led
  | done =>
    intro left before noted k spanning led
    rw [tokens, List.append_nil]
    exact ⟨spanning, led⟩
  | more operator right others rightIh othersIh =>
    intro left before noted k spanning led
    -- The operands stand on both sides of the operator, and the left one gives the place.
    have operands := spanning.parted operator.val (rightIh k).1
    have front := led.append (operator.val :: right.tokens)
    rw [tokens, ← List.cons_append, ← List.append_assoc]
    exact othersIh _ _ _ _ (.node ⟨front, fun plain => by cases plain⟩ operands) front
  | declare keyword name semicolon =>
    exact fun k => .headed rfl (by simp) .nothing (List.infix_refl _)
  | assign name equals value semicolon ih =>
    intro k
    exact .headed rfl (by simp) (ih (k + 1)).1
      ⟨[name.val, equals.val], [semicolon.val], by simp⟩
  | print keyword opening value closing semicolon ih =>
    intro k
    exact .headed rfl (by simp) (ih (k + 1)).1
      ⟨[keyword.val, opening.val], [closing.val, semicolon.val], by simp⟩
  | choose keyword opening condition closing yes conditionIh yesIh =>
    intro k
    have parts := (conditionIh (k + 1)).1.parted closing.val (yesIh (condition.build (k + 1)).2)
    exact .headed rfl (by simp) parts ⟨[keyword.val, opening.val], [], by simp⟩
  | chooseElse keyword opening condition closing yes otherwise no conditionIh yesIh noIh =>
    intro k
    have branches := (yesIh (condition.build (k + 1)).2).parted otherwise.val
      (noIh (yes.build (condition.build (k + 1)).2).2)
    have parts := (conditionIh (k + 1)).1.parted closing.val branches
    exact .headed rfl (by simp) parts ⟨[keyword.val, opening.val], [], by simp⟩
  | loop keyword opening condition closing repeated conditionIh repeatedIh =>
    intro k
    have parts := (conditionIh (k + 1)).1.parted closing.val
      (repeatedIh (condition.build (k + 1)).2)
    exact .headed rfl (by simp) parts ⟨[keyword.val, opening.val], [], by simp⟩
  | block opening inside closing ih =>
    intro k
    exact .headed rfl (by simp) (ih (k + 1)) ⟨[opening.val], [closing.val], by simp⟩
  | nothing => exact fun k => .nothing
  | also first others firstIh othersIh => exact fun k => (firstIh k).append (othersIh _)

/-- A statement does not begin with a parenthesis. -/
theorem head_statement (d : Derivation .statement) :
    ∃ t more, d.tokens = t :: more ∧ t.kind ≠ .openParen := by
  -- Every kind of statement has a keyword, a name or a brace of its own in front.
  cases d <;> exact ⟨_, _, rfl, by simp⟩

/-- A body does not begin with a parenthesis. -/
theorem head_body (d : Derivation .body) : ∀ t ∈ d.tokens.head?, t.kind ≠ .openParen := by
  -- An empty body has no first token, and no statement begins with a parenthesis.
  intro t head
  cases d with
  | nothing => cases head
  | also first others =>
    obtain ⟨t', more, starts, other⟩ := first.head_statement
    rw [tokens, starts] at head
    obtain rfl := Option.some.inj head
    exact other

end Grammar.Derivation

namespace Node

/-- A program has the place of its first token, which is no parenthesis. -/
theorem parse_first {tokens : List Token} {tree : Node} (read : parse tokens = .ok tree) :
    ∃ t rest, tokens = t :: rest ∧ tree.position = t.position ∧ t.kind ≠ .openParen := by
  obtain ⟨d, _, reading, _, _⟩ := parse_sound read
  -- The place is read off the list before its statements are.
  obtain ⟨before, mark, rfl, ended⟩ := Closed.of_parse read
  rw [Closed.parse_eq_statements ⟨before, mark, rfl, ended⟩] at read
  obtain ⟨⟨body, _⟩, _, returned⟩ := bind_eq_ok.mp read
  cases returned
  have covers := reading.covers
  cases before with
  | nil => exact ⟨mark, [], rfl, rfl, by simp [ended]⟩
  | cons t rest =>
    refine ⟨t, rest ++ [mark], rfl, rfl, ?_⟩
    by_cases empty : t.kind = .finish
    · simp [empty]
    · -- The first token of the program is that of its first statement.
      apply d.head_body
      simp [covers, programTokens, empty]

/-- A node has the place of the first of its tokens if that is no parenthesis, and only then. -/
theorem LedBy.first_iff {n : Node} {first : Token} {rest : List Token}
    (led : n.LedBy (first :: rest)) (distinct : ((first :: rest).map Token.position).Nodup) :
    n.position = first.position ↔ first.kind ≠ .openParen := by
  obtain ⟨t, found, place⟩ := led
  by_cases opens : first.kind = .openParen
  · -- The token that gives the place is a later one, so it stands somewhere else.
    have later : t ∈ rest := by
      rw [List.find?_cons_of_neg (by simp [opens])] at found
      exact List.mem_of_find?_eq_some found
    rw [List.map_cons, List.nodup_cons] at distinct
    refine iff_of_false ?_ (by simp [opens])
    rw [place]
    exact fun same => distinct.1 (same ▸ List.mem_map_of_mem later)
  · rw [List.find?_cons_of_pos (by simp [opens])] at found
    obtain rfl := Option.some.inj found
    exact iff_of_true place opens

end Node

/-- The tokens of a source stand at different places. -/
theorem Token.Cover.distinct {source : List Char} {offset : Nat} {tokens : List Token}
    (cover : Cover source offset tokens) : (tokens.map Token.position).Nodup := by
  rw [List.Nodup, List.pairwise_map]
  refine cover.pairwise.imp_of_mem ?_
  intro t u member member' apart same
  -- Tokens at one place would stand at one offset, but the later one stands behind the other.
  obtain ⟨i, _, here, _⟩ := cover.stands member
  obtain ⟨j, _, there, _⟩ := cover.stands member'
  have before := (apart i j here there).1
  have located := here.located
  rw [same, there.located] at located
  obtain rfl := Option.some.inj located
  omega

namespace Node

/-- The place of every node among the tokens that it is read from. The nodes of a tree are those
that the derivation of its program notes, with the program itself, which is read from all tokens.
Each is read from tokens in a row, and has the place of the first of them that is no opening
parenthesis. So it has the place of its first token unless that is a parenthesis, and only where an
operator joins two operands can it be one. -/
theorem parse_places {source : String} {tokens : List Token} {tree : Node}
    (scanned : tokenize source = .ok tokens) (read : parse tokens = .ok tree) :
    ∃ d, ReadBy tokens d ∧
      (∀ n, (∃ span, (n, span) ∈ (tree, tokens) :: d.origins 1) ↔ n.Within tree) ∧
      ∀ n span, (n, span) ∈ (tree, tokens) :: d.origins 1 →
        span <:+: tokens ∧ ∃ first rest t, span = first :: rest ∧
          (n.position = first.position ↔ first.kind ≠ .openParen) ∧
          (first.kind = .openParen → n.isBinary = true) ∧
          span.find? (·.kind ≠ .openParen) = some t ∧ n.position = t.position := by
  have distinct := (Token.cover_scan (tokenize_eq_ok.mp scanned)).distinct
  obtain ⟨t, rest, rfl, place, other⟩ := parse_first read
  obtain ⟨d, first, reading, _, rfl⟩ := parse_sound read
  -- The program is read from all tokens, and its statements from those before the end mark.
  have part : d.tokens <:+: t :: rest := reading.covers ▸ (List.takeWhile_prefix _).isInfix
  have spanning := Spanning.headed place other (d.spans 1) part
  refine ⟨d, reading, fun n => (spanning.nodes n).trans (by simp), ?_⟩
  intro n span member
  obtain ⟨led, bare⟩ := spanning.anchored n span member
  have inside := spanning.inside n span member
  refine ⟨inside, ?_⟩
  obtain ⟨t, found, place⟩ := led
  cases span with
  | nil => cases found
  | cons first rest =>
    have apart := distinct.sublist (inside.sublist.map _)
    refine ⟨first, rest, t, rfl, LedBy.first_iff ⟨t, found, place⟩ apart, ?_, found, place⟩
    intro opens
    by_contra plain
    exact bare (by simpa using plain) first rfl opens

/-- A source that prints a product with a sum in parentheses on its left. -/
def productSource : String := "print((1 + 2) * 3);"

/-- The tokens of that product. -/
def productSpan : List Token := (productTokens.drop 2).take 7

/-- The node of that product. -/
def productNode : Node :=
  -- The product has the place of the first digit, not that of the parenthesis before it.
  .binary ⟨6, ⟨1, 8⟩⟩
    (.binary ⟨4, ⟨1, 8⟩⟩ (.literal ⟨2, ⟨1, 8⟩⟩ 1) ⟨.plus, "+", ⟨1, 10⟩⟩ (.literal ⟨3, ⟨1, 12⟩⟩ 2))
    ⟨.star, "*", ⟨1, 15⟩⟩ (.literal ⟨5, ⟨1, 17⟩⟩ 3)

/-- The product is read from the tokens that begin with the parenthesis. -/
theorem origin_product :
    ∃ d, ReadBy productTokens d ∧ (productNode, productSpan) ∈ d.origins 1 := by
  have composite : Grammar.Level.comparison ≠ .primary ∧ Grammar.Level.additive ≠ .primary ∧
    Grammar.Level.multiplicative ≠ .primary := by decide
  obtain ⟨comparison, additive, multiplicative⟩ := composite
  refine ⟨.also (.print ⟨⟨.kwPrint, "print", ⟨1, 1⟩⟩, rfl⟩ ⟨⟨.openParen, "(", ⟨1, 6⟩⟩, rfl⟩
    (.chain comparison (.chain additive (.chain multiplicative
      (.group ⟨⟨.openParen, "(", ⟨1, 7⟩⟩, rfl⟩
        (.chain comparison (.chain additive
          (.chain multiplicative (.number ⟨⟨.number, "1", ⟨1, 8⟩⟩, rfl⟩) .done)
          (.more ⟨⟨.plus, "+", ⟨1, 10⟩⟩, rfl⟩
            (.chain multiplicative (.number ⟨⟨.number, "2", ⟨1, 12⟩⟩, rfl⟩) .done) .done)) .done)
        ⟨⟨.closeParen, ")", ⟨1, 13⟩⟩, rfl⟩)
      (.more ⟨⟨.star, "*", ⟨1, 15⟩⟩, rfl⟩ (.number ⟨⟨.number, "3", ⟨1, 17⟩⟩, rfl⟩) .done))
      .done) .done)
    ⟨⟨.closeParen, ")", ⟨1, 18⟩⟩, rfl⟩ ⟨⟨.semicolon, ";", ⟨1, 19⟩⟩, rfl⟩) .nothing, ⟨rfl, ?_⟩, ?_⟩
  · simp [Grammar.Derivation.Nearest]
  · -- Behind the print statement the product is the first node that is noted.
    exact .tail _ (.head _)

/-- The tree of the whole source. -/
def productTree : Node := .program ⟨0, ⟨1, 1⟩⟩ [.print ⟨1, ⟨1, 1⟩⟩ productNode]

/-- The source is cut into its tokens. -/
theorem tokenize_product : tokenize productSource = .ok productTokens := by decide +kernel

/-- The tokens are read as the tree. -/
theorem parse_product : parse productTokens = .ok productTree := rfl

/-- The product has the place of the number behind the parenthesis that it begins with. -/
theorem parse_places_product : tokenize productSource = .ok productTokens ∧
    parse productTokens = .ok productTree ∧ ∃ d, ReadBy productTokens d ∧
      (productNode, productSpan) ∈ (productTree, productTokens) :: d.origins 1 ∧
      productNode.Within productTree ∧ productSpan <:+: productTokens ∧
      productNode.isBinary = true ∧ productSpan.head?.map Token.position = some ⟨1, 7⟩ ∧
      productNode.position ≠ ⟨1, 7⟩ ∧
      ∃ t, productSpan.find? (·.kind ≠ .openParen) = some t ∧
        productNode.position = t.position := by
  obtain ⟨d, reading, nodes, places⟩ := parse_places tokenize_product parse_product
  -- There is no other derivation than the one that notes the product.
  obtain ⟨d', reading', noted⟩ := origin_product
  obtain rfl := reading.unique reading'
  have member := List.mem_cons_of_mem (productTree, productTokens) noted
  obtain ⟨part, first, rest, t, split, first_iff, joins, found, place⟩ := places _ _ member
  cases split
  exact ⟨tokenize_product, parse_product, d, reading, member, (nodes _).mp ⟨_, member⟩, part,
    joins rfl, rfl, fun same => first_iff.mp same rfl, t, found, place⟩

/-- Not every node has the place of the first token that it is read from: the product stands one
column behind its parenthesis. -/
theorem place_behind_parenthesis : tokenize productSource = .ok productTokens ∧
    parse productTokens = .ok productTree ∧ ∃ d first rest, ReadBy productTokens d ∧
      (productNode, first :: rest) ∈ (productTree, productTokens) :: d.origins 1 ∧
      first.position = ⟨1, 7⟩ ∧ productNode.position = ⟨1, 8⟩ := by
  -- The reading and what it notes were computed above.
  obtain ⟨d, reading, noted⟩ := origin_product
  exact ⟨tokenize_product, parse_product, d, _, _, reading, .tail _ noted, rfl, rfl⟩

end Node

end BlockCode
