import BlockCode.Instruction
import BlockCode.Proofs.Grammar.Numbered

/-! Trees with statements and expressions in their places, which are the trees of derivations. -/

namespace BlockCode

namespace Node

/-- Trees that stand for a value. -/
inductive IsExpression : Node → Prop where
  | literal (mark : Mark) (value : Int) : IsExpression (.literal mark value)
  | use (mark : Mark) (name : Token) : IsExpression (.use mark name)
  | binary {left right : Node} {op : Operator} (mark : Mark) (operator : Token)
      (known : Operator.ofKind? operator.kind = some op) (leftShape : IsExpression left)
      (rightShape : IsExpression right) : IsExpression (.binary mark left operator right)

/-- Trees that are carried out. -/
inductive IsStatement : Node → Prop where
  | declare (mark : Mark) (name : Token) : IsStatement (.declare mark name)
  | assign {value : Node} (mark : Mark) (name : Token) (valueShape : IsExpression value) :
      IsStatement (.assign mark name value)
  | print {value : Node} (mark : Mark) (valueShape : IsExpression value) :
      IsStatement (.print mark value)
  | choose {condition yes : Node} (mark : Mark) (conditionShape : IsExpression condition)
      (yesShape : IsStatement yes) : IsStatement (.choose mark condition yes)
  | chooseElse {condition yes no : Node} (mark : Mark) (conditionShape : IsExpression condition)
      (yesShape : IsStatement yes) (noShape : IsStatement no) :
      IsStatement (.chooseElse mark condition yes no)
  | loop {condition body : Node} (mark : Mark) (conditionShape : IsExpression condition)
      (bodyShape : IsStatement body) : IsStatement (.loop mark condition body)
  | block {body : List Node} (mark : Mark) (bodyShape : ∀ n ∈ body, IsStatement n) :
      IsStatement (.block mark body)

end Node

namespace Grammar

/-- There is an operation for every operator of a level. -/
theorem Level.exists_operator {level : Level} {kind : Kind} (joins : level.isOperator kind = true) :
    ∃ op, Operator.ofKind? kind = some op := by
  -- The three classes are gone through one by one.
  cases level <;> cases kind <;> first | exact ⟨_, rfl⟩ | cases joins

namespace Derivation

variable {category : Category}

/-- The numbered tree has its parts in their places. -/
def Shaped : {category : Category} → Derivation category → Prop
  | .expression _, d => ∀ k, (d.build k).1.IsExpression
  -- A tail keeps its left operand an expression.
  | .tail _, d => ∀ left k, left.IsExpression → (d.build left k).1.IsExpression
  | .statement, d => ∀ k, (d.build k).1.IsStatement
  | .body, d => ∀ k, ∀ n ∈ (d.build k).1, n.IsStatement

/-- Every derivation has its parts in their places. -/
theorem shaped (d : Derivation category) : d.Shaped := by
  -- Each alternative of the grammar asks for the categories that its node asks for.
  induction d with
  | number numeral => exact fun k => .literal _ _
  | use name => exact fun k => .use _ _
  | group _ inside _ ih => exact ih
  | chain _ first others firstIh othersIh => exact fun k => othersIh _ _ (firstIh k)
  | done => exact fun left k shape => shape
  | more operator right others rightIh othersIh =>
    intro left k shape
    obtain ⟨op, known⟩ := Level.exists_operator operator.property
    exact othersIh _ _ (.binary _ _ known shape (rightIh k))
  | declare keyword name semicolon => exact fun k => .declare _ _
  | assign name equals value semicolon ih => exact fun k => .assign _ _ (ih (k + 1))
  | print keyword opening value closing semicolon ih => exact fun k => .print _ (ih (k + 1))
  | choose keyword opening condition closing yes conditionIh yesIh =>
    exact fun k => .choose _ (conditionIh (k + 1)) (yesIh _)
  | chooseElse keyword opening condition closing yes otherwise no conditionIh yesIh noIh =>
    exact fun k => .chooseElse _ (conditionIh (k + 1)) (yesIh _) (noIh _)
  | loop keyword opening condition closing repeated conditionIh repeatedIh =>
    exact fun k => .loop _ (conditionIh (k + 1)) (repeatedIh _)
  | block opening inside closing ih => exact fun k => .block _ (ih (k + 1))
  | nothing =>
    intro k n member
    cases member
  | also first others firstIh othersIh =>
    intro k n member
    rcases List.mem_cons.mp member with rfl | member
    · exact firstIh k
    · exact othersIh _ n member

end Derivation

end Grammar

end BlockCode
