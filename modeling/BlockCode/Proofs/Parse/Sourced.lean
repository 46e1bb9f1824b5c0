import BlockCode.Proofs.Grammar.Within
import BlockCode.Proofs.Parse

/-! What the nodes of a parsed tree take from the tokens: their places, the order of what is below
them, the names and operators that they keep, and the values of the literals. -/

namespace BlockCode

open Grammar

/-- The kinds of the tokens that stay in a tree: names and operators. -/
def Kind.isKept (kind : Kind) : Bool :=
  kind = .name || kind.isComparison || kind.isAdditive || kind.isMultiplicative

/-- A name stays in the tree. -/
theorem Grammar.Terminal.isKept (name : Terminal .name) : name.val.kind.isKept = true := by
  -- Names are among the kinds that are kept.
  rw [name.kind_val]
  rfl

/-- The number that a numeral is read as can be written. -/
theorem Grammar.Terminal.short (numeral : Terminal .number) : Numeral.Short numeral.value := by
  unfold value
  split
  · rename_i read
    exact Numeral.short_of_read read
  · -- Where nothing is read there is a zero.
    exact Nat.zero_le _

/-- An operator of any level stays in the tree. -/
theorem Grammar.Level.isKept {level : Level} {kind : Kind} (joins : level.isOperator kind = true) :
    kind.isKept = true := by
  -- What joins operands on some level is read as such an operator.
  cases level <;> simp_all [isOperator_comparison, isOperator_additive, isOperator_multiplicative,
    isOperator_primary, Kind.isKept]

namespace Node

/-- The tokens that a node keeps itself. -/
def kept : Node → List Token
  -- A literal keeps its value, and its token is gone.
  | declare _ name | assign _ name _ | use _ name => [name]
  | binary _ _ operator _ => [operator]
  | program .. | block .. | print .. | choose .. | chooseElse .. | loop .. | literal ..
  | unknown .. => []

/-- Tells whether a node is of one of the variants with a meaning. -/
def isKnown : Node → Bool
  -- The parser never makes one of these.
  | unknown .. => false
  | _ => true

/-- A literal has few enough digits to be written; other nodes have none. -/
def Short : Node → Prop
  -- Only there the digits of a token become a number.
  | literal _ value => Numeral.Short value
  | _ => True

/-- A node comes from some tokens: it has a meaning, its value can be written, the names and
operators that it keeps are among the tokens, and what is directly below it stands in the order of
the tokens. -/
structure Sourced (tokens : List Token) (n : Node) : Prop where
  known : n.isKnown = true
  short : n.Short
  kept : ∀ t ∈ n.kept, t ∈ tokens ∧ t.kind.isKept = true
  places : (n.children.map position).Sublist (tokens.map Token.position)

/-- More tokens may stand between the others. -/
theorem Sourced.widen {tokens before : List Token} {n : Node} (sourced : n.Sourced before)
    (sub : before.Sublist tokens) : n.Sourced tokens := by
  -- Tokens that were there are still there, and in the same order.
  refine ⟨sourced.known, sourced.short, ?_, sourced.places.trans (sub.map _)⟩
  intro t member
  exact ⟨sub.mem (sourced.kept t member).1, (sourced.kept t member).2⟩

/-- Trees in turn come from some tokens: their places are those of tokens in the same order, and all
their nodes come from the tokens. -/
structure InPlace (tokens : List Token) (ns : List Node) : Prop where
  roots : (ns.map position).Sublist (tokens.map Token.position)
  sourced : ∀ m ∈ ns, ∀ n : Node, n.Within m → n.Sourced tokens

namespace InPlace

variable {tokens before after : List Token} {n : Node} {ns ms : List Node}

/-- More tokens may stand between the others. -/
theorem widen (inPlace : InPlace before ns) (sub : before.Sublist tokens) :
    InPlace tokens ns := by
  -- The roots and all below them are among the tokens that were there.
  refine ⟨inPlace.roots.trans (sub.map _), ?_⟩
  intro m member n within
  exact (inPlace.sourced m member n within).widen sub

/-- Nothing is in its place among any tokens. -/
theorem nothing : InPlace tokens [] := by
  -- There is no root and no node to ask about.
  refine ⟨List.nil_sublist _, ?_⟩
  intro m member
  cases member

/-- Trees in some tokens stand before trees in the tokens that follow. -/
theorem append (left : InPlace before ns) (right : InPlace after ms) :
    InPlace (before ++ after) (ns ++ ms) := by
  -- Each tree is in its place on its own side.
  refine ⟨?_, ?_⟩
  · -- The roots on the left come before those on the right.
    rw [List.map_append, List.map_append]
    exact left.roots.append right.roots
  · intro m member
    rcases List.mem_append.mp member with first | second
    · exact (left.widen (List.sublist_append_left _ _)).sourced m first
    · exact (right.widen (List.sublist_append_right _ _)).sourced m second

/-- A token may stand between two parts. -/
theorem parted (left : InPlace before ns) (t : Token) (right : InPlace after ms) :
    InPlace (before ++ t :: after) (ns ++ ms) :=
  (left.append right).widen (.append (.refl _) (.cons _ (.refl _)))

/-- A tree is in its place if its root is and what is below. -/
theorem node (root : n.position ∈ tokens.map Token.position) (known : n.isKnown = true)
    (short : n.Short) (kept : ∀ t ∈ n.kept, t ∈ tokens ∧ t.kind.isKept = true)
    (below : InPlace tokens n.children) : InPlace tokens [n] := by
  -- A node of the tree is its root or stands in what is below.
  refine ⟨List.singleton_sublist.mpr root, ?_⟩
  intro m member n' within
  obtain rfl := List.mem_singleton.mp member
  cases within with
  | root => exact ⟨known, short, kept, below.roots⟩
  | inside inner within => exact below.sourced _ inner n' within

/-- A node that keeps no token is in its place if what is below is. -/
theorem plain (root : n.position ∈ tokens.map Token.position) (known : n.isKnown = true)
    (short : n.Short) (keeps : n.kept = []) (below : InPlace tokens n.children) :
    InPlace tokens [n] :=
  .node root known short (keeps ▸ List.forall_mem_nil _) below

/-- A node that keeps a name is in its place if what is below is. -/
theorem named {name : Terminal .name} (root : n.position ∈ tokens.map Token.position)
    (known : n.isKnown = true) (short : n.Short) (keeps : n.kept = [name.val])
    (member : name.val ∈ tokens) (below : InPlace tokens n.children) : InPlace tokens [n] :=
  .node root known short (keeps ▸ List.forall_mem_singleton.mpr ⟨member, name.isKept⟩) below

end InPlace

end Node

namespace Grammar.Derivation

open Node

variable {category : Category}

/-- The tree of a derivation comes from the tokens that it covers. -/
def Places : {category : Category} → Derivation category → Prop
  | .expression _, d | .statement, d => ∀ k, InPlace d.tokens [(d.build k).1]
  -- The left operand has its tokens before those of the tail.
  | .tail _, d => ∀ left k before, InPlace before [left] →
    InPlace (before ++ d.tokens) [(d.build left k).1]
  | .body, d => ∀ k, InPlace d.tokens (d.build k).1

/-- Every derivation takes its tree from its tokens. -/
theorem places (d : Derivation category) : d.Places := by
  -- A statement has the place of its first token, an operator that of its left operand.
  induction d with
  | number numeral => exact fun k => .plain (.head _) rfl numeral.short rfl .nothing
  | use name => exact fun k => .named (.head _) rfl trivial rfl (.head _) .nothing
  | group opening inside closing ih =>
    intro k
    exact (ih k).widen (.cons _ (List.sublist_append_left _ _))
  | chain _ first others firstIh othersIh => exact fun k => othersIh _ _ _ (firstIh k)
  | done =>
    intro left k before inPlace
    rw [tokens, List.append_nil]
    exact inPlace
  | more operator right others rightIh othersIh =>
    intro left k before inPlace
    -- The left operand stands in the tokens before the operator, the right one behind it.
    have operands := inPlace.parted operator.val (rightIh k)
    have place := (inPlace.widen (List.sublist_append_left _ (operator.val :: right.tokens))).roots
    have kept : ∀ t ∈ [operator.val], t ∈ before ++ operator.val :: right.tokens ∧
        t.kind.isKept = true :=
      List.forall_mem_singleton.mpr ⟨by simp, Level.isKept operator.property⟩
    rw [tokens, ← List.cons_append, ← List.append_assoc]
    exact othersIh _ _ _ (.node (List.singleton_sublist.mp place) rfl trivial kept operands)
  | declare keyword name semicolon =>
    exact fun k => .named (.head _) rfl trivial rfl (.tail _ (.head _)) .nothing
  | assign name equals value semicolon ih =>
    intro k
    exact .named (.head _) rfl trivial rfl (.head _)
      ((ih (k + 1)).widen (.cons _ (.cons _ (List.sublist_append_left _ _))))
  | print keyword opening value closing semicolon ih =>
    intro k
    exact .plain (.head _) rfl trivial rfl
      ((ih (k + 1)).widen (.cons _ (.cons _ (List.sublist_append_left _ _))))
  | choose keyword opening condition closing yes conditionIh yesIh =>
    intro k
    have parts := (conditionIh (k + 1)).parted closing.val (yesIh (condition.build (k + 1)).2)
    exact .plain (.head _) rfl trivial rfl (parts.widen (.cons _ (.cons _ (.refl _))))
  | chooseElse keyword opening condition closing yes otherwise no conditionIh yesIh noIh =>
    intro k
    have branches := (yesIh (condition.build (k + 1)).2).parted otherwise.val
      (noIh (yes.build (condition.build (k + 1)).2).2)
    have parts := (conditionIh (k + 1)).parted closing.val branches
    exact .plain (.head _) rfl trivial rfl (parts.widen (.cons _ (.cons _ (.refl _))))
  | loop keyword opening condition closing repeated conditionIh repeatedIh =>
    intro k
    have parts := (conditionIh (k + 1)).parted closing.val (repeatedIh (condition.build (k + 1)).2)
    exact .plain (.head _) rfl trivial rfl (parts.widen (.cons _ (.cons _ (.refl _))))
  | block opening inside closing ih =>
    intro k
    exact .plain (.head _) rfl trivial rfl
      ((ih (k + 1)).widen (.cons _ (List.sublist_append_left _ _)))
  | nothing => exact fun k => .nothing
  | also first others firstIh othersIh => exact fun k => (firstIh k).append (othersIh _)

end Grammar.Derivation

namespace Node

/-- Every node of a parsed tree comes from the tokens. -/
theorem parse_sourced {tokens : List Token} {tree n : Node} (read : parse tokens = .ok tree)
    (within : n.Within tree) : n.Sourced tokens := by
  obtain ⟨d, first, reading, _, rfl⟩ := parse_sound read
  -- The tokens up to the first end mark are those that the statements come from.
  have sub : d.tokens.Sublist tokens := reading.covers ▸ List.takeWhile_sublist _
  have inPlace := (d.places 1).widen sub
  cases within with
  | root => exact ⟨rfl, trivial, List.forall_mem_nil _, inPlace.roots⟩
  | inside member within => exact inPlace.sourced _ member n within

end Node

end BlockCode
