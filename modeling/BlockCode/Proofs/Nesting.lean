import BlockCode.Proofs.Parse

/-! Nesting in trees. Blocks, choices and loops stand inside each other on the way from the root of
a tree to a leaf; in a tree that was read they do so no more often than the bound on nesting allows,
since the reader counts them and the parentheses together. -/

namespace BlockCode

namespace Node

/-- Tells whether a node is a statement around other statements. -/
def isNesting : Node → Bool
  -- A program is around its statements as well, but takes no level.
  | block .. | choose .. | chooseElse .. | loop .. => true
  | program .. | declare .. | assign .. | print .. | binary .. | literal .. | use ..
  | unknown .. => false

/-- The ways from a node down to a leaf, with all nodes on them. -/
inductive Path : Node → List Node → Prop where
  /-- Nothing is below a leaf. -/
  | leaf {n : Node} (last : n.children = []) : Path n [n]
  /-- The way goes on from one of the nodes below. -/
  | down {n m : Node} {path : List Node} (child : m ∈ n.children) (rest : Path m path) :
      Path n (n :: path)

mutual

/-- How many blocks, choices and loops of a tree stand inside each other. -/
def levels : Node → Nat
  | program _ body => levelsAll body
  -- Each block is a level, and so is each choice and each loop.
  | block _ body => levelsAll body + 1
  | assign _ _ value | print _ value => value.levels
  -- The body of a choice is counted though it may be no block.
  | choose _ condition yes => max condition.levels yes.levels + 1
  | chooseElse _ condition yes no => max (max condition.levels yes.levels) no.levels + 1
  | loop _ condition body => max condition.levels body.levels + 1
  | binary _ left _ right => max left.levels right.levels
  | declare .. | literal .. | use .. | unknown .. => 0

/-- How many of them stand inside each other in one of some trees. -/
def levelsAll : List Node → Nat
  -- Trees in a row do not add up.
  | [] => 0
  | n :: ns => max n.levels (levelsAll ns)

end

variable {n m : Node} {ns path : List Node}

/-- A tree among others has no more levels than they have. -/
theorem levels_le_levelsAll (member : m ∈ ns) : m.levels ≤ levelsAll ns := by
  -- The levels of some trees are the most that one of them has.
  induction member with
  | head ns => exact Nat.le_max_left _ _
  | tail n _ ih => exact Nat.le_trans ih (Nat.le_max_right _ _)

/-- A nesting statement is one level above what is below it. -/
theorem levels_eq (n : Node) : n.levels = levelsAll n.children + n.isNesting.toNat := by
  -- Every variant takes the most of its children.
  cases n <;> simp [levels, levelsAll, children, isNesting, Nat.max_assoc]

/-- The nesting statements on a way down are levels of the tree. -/
theorem Path.count_le (way : Path n path) : path.countP isNesting ≤ n.levels := by
  induction way with
  | @leaf n last =>
    rw [levels_eq, List.countP_singleton]
    cases n.isNesting <;> simp
  | @down n m path child rest ih =>
    -- The node in front counts for one level, as in the tree.
    have below := levels_le_levelsAll child
    rw [levels_eq, List.countP_cons]
    cases n.isNesting <;> simp <;> omega

/-- An expression has no levels. -/
theorem IsExpression.levels_eq_zero (shape : n.IsExpression) : n.levels = 0 := by
  -- Only statements are levels, and there is none in an expression.
  induction shape with
  | literal mark value => rfl
  | use mark name => rfl
  | binary mark operator known leftShape rightShape leftIh rightIh =>
    rw [levels, leftIh, rightIh, Nat.max_self]

end Node

namespace Grammar.Derivation

open Node

variable {category : Category}

/-- The levels of the tree are among those that the derivation counts. -/
def Bounds : {category : Category} → Derivation category → Prop
  -- The parentheses of an expression are counted by its derivation, but leave nothing in the tree.
  | .expression _, _ | .tail _, _ => True
  | .statement, d => ∀ k, (d.build k).1.levels ≤ d.depth
  | .body, d => ∀ k, levelsAll (d.build k).1 ≤ d.depth

/-- A derivation counts at least the levels of its tree. Only its parentheses may come to more. -/
theorem bounds (d : Derivation category) : d.Bounds := by
  -- The expressions in a statement have no levels, whatever the derivation counts for them.
  induction d with
  | number | use | group | chain | done | more => exact trivial
  | declare keyword name semicolon => exact fun k => Nat.le_refl 0
  | assign name equals value semicolon ih =>
    intro k
    have flat := (value.shaped (k + 1)).levels_eq_zero
    show (value.build (k + 1)).1.levels ≤ _
    omega
  | print keyword opening value closing semicolon ih =>
    intro k
    have flat := (value.shaped (k + 1)).levels_eq_zero
    show (value.build (k + 1)).1.levels ≤ _
    omega
  | choose keyword opening condition closing yes conditionIh yesIh =>
    intro k
    have flat := (condition.shaped (k + 1)).levels_eq_zero
    have inner := yesIh (condition.build (k + 1)).2
    simp only [build, levels, depth]
    omega
  | chooseElse keyword opening condition closing yes otherwise no conditionIh yesIh noIh =>
    intro k
    have flat := (condition.shaped (k + 1)).levels_eq_zero
    have inner := yesIh (condition.build (k + 1)).2
    have other := noIh (yes.build (condition.build (k + 1)).2).2
    simp only [build, levels, depth]
    omega
  | loop keyword opening condition closing repeated conditionIh repeatedIh =>
    intro k
    have flat := (condition.shaped (k + 1)).levels_eq_zero
    have inner := repeatedIh (condition.build (k + 1)).2
    simp only [build, levels, depth]
    omega
  | block opening inside closing ih => exact fun k => Nat.succ_le_succ (ih (k + 1))
  | nothing => exact fun k => Nat.le_refl 0
  | also first others firstIh othersIh =>
    intro k
    have one := firstIh k
    have rest := othersIh (first.build k).2
    simp only [build, levelsAll, depth]
    omega

end Grammar.Derivation

/-- A tree that was read has no more levels than the bound on nesting. -/
theorem Node.levels_le_of_parse {tokens : List Token} {tree : Node}
    (parsed : Node.parse tokens = .ok tree) : tree.levels ≤ maxNesting := by
  -- The tree is built from a derivation within the bound.
  obtain ⟨d, first, _, shallow, rfl⟩ := Node.parse_sound parsed
  exact Nat.le_trans (d.bounds 1) shallow

end BlockCode
