import Mathlib.Data.List.Nodup
import BlockCode.Proofs.Grammar

/-! The trees of derivations with their numbers and places: nodes are numbered from some number on
without a gap, and nothing but the marks is added to the tree of the grammar. -/

namespace BlockCode

namespace Node

mutual

/-- A tree without its numbers and places. -/
def unmarked : Node → Node
  -- One mark stands for all, so trees that differ in their marks alone become equal.
  | program _ body => program Grammar.blank (unmarkedAll body)
  | block _ body => block Grammar.blank (unmarkedAll body)
  | declare _ name => declare Grammar.blank name
  | assign _ name value => assign Grammar.blank name value.unmarked
  | print _ value => print Grammar.blank value.unmarked
  | choose _ condition yes => choose Grammar.blank condition.unmarked yes.unmarked
  | chooseElse _ condition yes no =>
    chooseElse Grammar.blank condition.unmarked yes.unmarked no.unmarked
  | loop _ condition body => loop Grammar.blank condition.unmarked body.unmarked
  | binary _ left operator right => binary Grammar.blank left.unmarked operator right.unmarked
  -- The value of a literal is no part of its mark.
  | literal _ value => literal Grammar.blank value
  | use _ name => use Grammar.blank name
  | unknown _ variant => unknown Grammar.blank variant

/-- Some trees without their numbers and places. -/
def unmarkedAll : List Node → List Node
  | [] => []
  | n :: ns => n.unmarked :: unmarkedAll ns

end

mutual

/-- The numbers of all nodes of a tree, a node before those below it. -/
def ids : Node → List Int
  | program mark body | block mark body => mark.id :: idsAll body
  | assign mark _ value | print mark value => mark.id :: value.ids
  | choose mark condition yes => mark.id :: (condition.ids ++ yes.ids)
  | chooseElse mark condition yes no => mark.id :: (condition.ids ++ yes.ids ++ no.ids)
  | loop mark condition body => mark.id :: (condition.ids ++ body.ids)
  | binary mark left _ right => mark.id :: (left.ids ++ right.ids)
  | declare mark _ | literal mark _ | use mark _ | unknown mark _ => [mark.id]

/-- The numbers of all nodes of some trees. -/
def idsAll : List Node → List Int
  | [] => []
  | n :: ns => n.ids ++ idsAll ns

end

end Node

namespace Grammar

/-- The number that a numeral is read as. -/
def Terminal.value (t : Terminal .number) : Int :=
  match Numeral.read t.val.lexeme with
  | .ok value => value
  -- A numeral that cannot be read never gets into a tree; its value does not matter.
  | .error _ => 0

/-- What is built for a category when its nodes are numbered from some number on, together with the
first number that is left. -/
def Category.Built : Category → Type
  -- A category that stands alone is given only the first number.
  | .expression _ | .statement => Nat → Node × Nat
  -- The operand on the left has its numbers already.
  | .tail _ => Node → Nat → Node × Nat
  | .body => Nat → List Node × Nat

namespace Derivation

variable {category : Category}

/-- The numbered tree of a derivation. A declaration and the parts of an expression are numbered
when they are complete, the other statements when they start. -/
def build : {category : Category} → Derivation category → category.Built
  | _, number numeral => fun k => (.literal ⟨k, numeral.val.position⟩ numeral.value, k + 1)
  | _, use name => fun k => (.use ⟨k, name.val.position⟩ name, k + 1)
  -- Parentheses take no number.
  | _, group _ inside _ => inside.build
  | _, chain _ first others => fun k => others.build (first.build k).1 (first.build k).2
  | _, done => fun left k => (left, k)
  | _, more operator right others => fun left k =>
    -- The number of an operator is taken when both its operands are read.
    let mark : Mark := ⟨(right.build k).2, left.position⟩
    others.build (.binary mark left operator (right.build k).1) ((right.build k).2 + 1)
  | _, declare keyword name _ => fun k => (.declare ⟨k, keyword.val.position⟩ name, k + 1)
  | _, assign name _ value _ => fun k =>
    -- The number of the statement is taken before those of its value.
    let value := value.build (k + 1)
    (.assign ⟨k, name.val.position⟩ name value.1, value.2)
  | _, print keyword _ value _ _ => fun k =>
    let value := value.build (k + 1)
    (.print ⟨k, keyword.val.position⟩ value.1, value.2)
  | _, choose keyword _ condition _ yes => fun k =>
    let condition := condition.build (k + 1)
    let yes := yes.build condition.2
    (.choose ⟨k, keyword.val.position⟩ condition.1 yes.1, yes.2)
  | _, chooseElse keyword _ condition _ yes _ no => fun k =>
    let condition := condition.build (k + 1)
    let yes := yes.build condition.2
    let no := no.build yes.2
    (.chooseElse ⟨k, keyword.val.position⟩ condition.1 yes.1 no.1, no.2)
  | _, loop keyword _ condition _ repeated => fun k =>
    let condition := condition.build (k + 1)
    let repeated := repeated.build condition.2
    (.loop ⟨k, keyword.val.position⟩ condition.1 repeated.1, repeated.2)
  | _, block opening inside _ => fun k =>
    let inside := inside.build (k + 1)
    (.block ⟨k, opening.val.position⟩ inside.1, inside.2)
  | _, nothing => fun k => ([], k)
  | _, also first others => fun k =>
    let first := first.build k
    let others := others.build first.2
    (first.1 :: others.1, others.2)

/-- Every number in a derivation can be read. -/
def Legible (d : Derivation category) : Prop :=
  ∀ t ∈ d.tokens, t.kind = .number → Numeral.Legible t.lexeme

/-- The numbered tree is the tree of the grammar when its marks are taken away. -/
def BuildsTree : {category : Category} → Derivation category → Prop
  -- The equation holds for every first number, as the parts start at numbers of their own.
  | .expression _, d | .statement, d => ∀ k, (d.build k).1.unmarked = d.tree
  | .tail _, d => ∀ left k, (d.build left k).1.unmarked = d.tree left.unmarked
  | .body, d => ∀ k, Node.unmarkedAll (d.build k).1 = d.tree

/-- Numbering changes nothing but the marks. -/
theorem buildsTree (d : Derivation category) (legible : d.Legible) : d.BuildsTree := by
  -- Numbers and places are only ever put into marks; numerals are read as they are written.
  induction d with simp only [Legible, tokens, List.forall_mem_cons, List.forall_mem_append]
      at legible
  | number numeral =>
    intro k
    have read := Numeral.read_legible (legible.1 numeral.property)
    simp [build, tree, Node.unmarked, Terminal.value, read]
  | use name => exact fun k => rfl
  | group _ inside _ ih =>
    obtain ⟨-, legible, -⟩ := legible
    exact ih legible
  | chain _ first others firstIh othersIh =>
    intro k
    obtain ⟨inFirst, inOthers⟩ := legible
    have left := firstIh inFirst k
    simp only [build, tree, ← left]
    exact othersIh inOthers _ _
  | done => exact fun left k => rfl
  | more operator right others rightIh othersIh =>
    intro left k
    obtain ⟨-, inRight, inOthers⟩ := legible
    have operand := rightIh inRight k
    simp only [build, tree, ← operand]
    exact othersIh inOthers _ _
  | declare keyword name semicolon => exact fun k => rfl
  | assign name equals value semicolon ih =>
    intro k
    obtain ⟨-, -, inValue, -⟩ := legible
    simp [build, tree, Node.unmarked, ih inValue _]
  | print keyword opening value closing semicolon ih =>
    intro k
    obtain ⟨-, -, inValue, -⟩ := legible
    simp [build, tree, Node.unmarked, ih inValue _]
  | choose keyword opening condition closing yes conditionIh yesIh =>
    intro k
    obtain ⟨-, -, inCondition, -, inYes⟩ := legible
    simp [build, tree, Node.unmarked, conditionIh inCondition _, yesIh inYes _]
  | chooseElse keyword opening condition closing yes otherwise no conditionIh yesIh noIh =>
    intro k
    obtain ⟨-, -, inCondition, -, inYes, -, inNo⟩ := legible
    simp [build, tree, Node.unmarked, conditionIh inCondition _, yesIh inYes _, noIh inNo _]
  | loop keyword opening condition closing repeated conditionIh repeatedIh =>
    intro k
    obtain ⟨-, -, inCondition, -, inRepeated⟩ := legible
    simp [build, tree, Node.unmarked, conditionIh inCondition _, repeatedIh inRepeated _]
  | block opening inside closing ih =>
    intro k
    obtain ⟨-, inPart, -⟩ := legible
    simp [build, tree, Node.unmarked, ih inPart _]
  | nothing => exact fun k => rfl
  | also first others firstIh othersIh =>
    intro k
    obtain ⟨inFirst, inOthers⟩ := legible
    simp [build, tree, Node.unmarkedAll, firstIh inFirst _, othersIh inOthers _]

end Derivation

/-- The numbers of a tree are those from one number up to another, in some order. -/
structure Numbered (first last : Nat) (ids : List Int) : Prop where
  ordered : first ≤ last
  perm : ids.Perm ((List.range' first (last - first)).map Int.ofNat)

namespace Numbered

variable {first middle last : Nat} {xs ys : List Int}

/-- One node takes one number. -/
theorem single (k : Nat) : Numbered k (k + 1) [(k : Int)] := by
  exact ⟨Nat.le_succ k, by simp⟩

/-- No node takes no number. -/
theorem none (k : Nat) : Numbered k k [] := by
  exact ⟨Nat.le_refl k, by simp⟩

/-- Numbers that begin where others end join without a gap. -/
theorem append (left : Numbered first middle xs) (right : Numbered middle last ys) :
    Numbered first last (xs ++ ys) := by
  -- The range from the first to the last number is cut in the middle.
  have below := left.ordered
  have above := right.ordered
  refine ⟨below.trans above, (left.perm.append right.perm).trans ?_⟩
  have split : List.range' first (last - first) =
      List.range' first (middle - first) ++ List.range' middle (last - middle) := by
    rw [show last - first = (middle - first) + (last - middle) by omega, ← List.range'_append_1]
    congr 2
    omega
  rw [split, List.map_append]

/-- The order in which the nodes are listed does not matter. -/
theorem swap (both : Numbered first last (xs ++ ys)) : Numbered first last (ys ++ xs) := by
  exact ⟨both.ordered, List.perm_append_comm.trans both.perm⟩

/-- A node may take its number before those below it. -/
theorem cons (k : Nat) (below : Numbered (k + 1) last xs) : Numbered k last ((k : Int) :: xs) := by
  exact (single k).append below

/-- No number is taken twice. -/
theorem nodup (numbered : Numbered first last xs) : xs.Nodup := by
  -- A range has no number twice, and neither does any order of it.
  refine numbered.perm.nodup_iff.mpr ?_
  exact List.Nodup.map (fun a b same => Int.ofNat.inj same) List.nodup_range'

end Numbered

namespace Derivation

variable {category : Category}

/-- The numbered tree takes the numbers from the first one up to the one that is left. -/
def Numbers : {category : Category} → Derivation category → Prop
  | .expression _, d | .statement, d => ∀ k, Numbered k (d.build k).2 (d.build k).1.ids
  -- What is on the left may have been numbered from any number on.
  | .tail _, d => ∀ left first k, Numbered first k left.ids →
    Numbered first (d.build left k).2 (d.build left k).1.ids
  | .body, d => ∀ k, Numbered k (d.build k).2 (Node.idsAll (d.build k).1)

/-- Every numbered tree takes its numbers without a gap. -/
theorem numbers (d : Derivation category) : d.Numbers := by
  -- Each node takes the next number once, a binary expression the one behind its operands.
  induction d with
  | number numeral => exact fun k => .single k
  | use name => exact fun k => .single k
  | group _ inside _ ih => exact ih
  | chain _ first others firstIh othersIh => exact fun k => othersIh _ _ _ (firstIh k)
  | done => exact fun left first k numbered => numbered
  | more operator right others rightIh othersIh =>
    intro left first k numbered
    have operands := numbered.append (rightIh k)
    exact othersIh _ _ _ (operands.append (.single _)).swap
  | declare keyword name semicolon => exact fun k => .single k
  | assign name equals value semicolon ih => exact fun k => .cons k (ih (k + 1))
  | print keyword opening value closing semicolon ih => exact fun k => .cons k (ih (k + 1))
  | choose keyword opening condition closing yes conditionIh yesIh =>
    exact fun k => .cons k ((conditionIh (k + 1)).append (yesIh _))
  | chooseElse keyword opening condition closing yes otherwise no conditionIh yesIh noIh =>
    exact fun k => .cons k (((conditionIh (k + 1)).append (yesIh _)).append (noIh _))
  | loop keyword opening condition closing repeated conditionIh repeatedIh =>
    exact fun k => .cons k ((conditionIh (k + 1)).append (repeatedIh _))
  | block opening inside closing ih => exact fun k => .cons k (ih (k + 1))
  | nothing => exact fun k => .none k
  | also first others firstIh othersIh => exact fun k => (firstIh k).append (othersIh _)

end Derivation

end Grammar

end BlockCode
