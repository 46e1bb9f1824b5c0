import BlockCode.Node
import BlockCode.Proofs.Numeral

/-! The grammar of programs: what a program can be made of, apart from any way to read it. -/

namespace BlockCode.Grammar

/-- A token of a given kind. -/
abbrev Terminal (kind : Kind) := { t : Token // t.kind = kind }

/-- A terminal has the kind it is asked for. -/
@[simp] theorem Terminal.kind_val {kind : Kind} (t : Terminal kind) : t.val.kind = kind :=
  t.property

/-- Terminals of different kinds are different tokens. -/
theorem Terminal.val_ne {kind kind' : Kind} (t : Terminal kind) (t' : Terminal kind')
    (different : kind ≠ kind') : t.val ≠ t'.val := by
  -- Equal tokens have equal kinds.
  intro same
  exact different (t.property.symm.trans (same ▸ t'.property))

/-- The levels of expressions, the loosest first. -/
inductive Level where
  | comparison | additive | multiplicative | primary
deriving DecidableEq, Repr

namespace Level

/-- The level of the operands that a level joins. -/
def operand : Level → Level
  | comparison => additive
  | additive => multiplicative
  -- Operands of the last level are joined by nothing, so it is its own.
  | multiplicative | primary => primary

/-- The operators between the operands of a level; a primary has none. -/
def operators : Level → List Kind
  -- The signs are ==, !=, <, >, <= and >=.
  | comparison => [.equal, .notEqual, .less, .greater, .lessEqual, .greaterEqual]
  -- The signs are + and -.
  | additive => [.plus, .minus]
  -- The signs are *, / and %.
  | multiplicative => [.star, .slash, .percent]
  | primary => []

/-- Tells whether a kind of token is an operator of a level. -/
def isOperator (level : Level) (kind : Kind) : Bool :=
  decide (kind ∈ level.operators)

/-- The operators that make a longer expression of a level when they follow one: its own and those
of the levels of its operands. -/
def continues : Level → Kind → Bool
  | comparison => fun kind =>
    -- A comparison may end in a sum, and a sum in a product.
    comparison.isOperator kind || additive.isOperator kind || multiplicative.isOperator kind
  | additive => fun kind => additive.isOperator kind || multiplicative.isOperator kind
  | multiplicative => multiplicative.isOperator
  | primary => fun _ => false

/-- The operators of the loosest level are those that are read as comparing. -/
theorem isOperator_comparison : comparison.isOperator = Kind.isComparison := by
  -- The list of the level and the kinds that the parser asks for are compared kind by kind.
  funext kind
  cases kind <;> rfl

/-- The operators of the next level are those that are read as adding. -/
theorem isOperator_additive : additive.isOperator = Kind.isAdditive := by
  -- As for comparisons, kind by kind.
  funext kind
  cases kind <;> rfl

/-- The operators of the level of factors are those that are read as multiplying. -/
theorem isOperator_multiplicative : multiplicative.isOperator = Kind.isMultiplicative := by
  -- As for comparisons, kind by kind.
  funext kind
  cases kind <;> rfl

/-- A primary is not made longer by any operator. -/
theorem isOperator_primary (kind : Kind) : primary.isOperator kind = false := rfl

/-- What does not continue an expression neither joins its operands nor continues the last one. -/
theorem stops_inside {level : Level} {kind : Kind} (stops : level.continues kind = false) :
    level.isOperator kind = false ∧ level.operand.continues kind = false := by
  -- A level is continued by its own operators and by those of the levels below.
  cases level <;> simp_all [continues, isOperator_primary, operand]

/-- An operator of a level does not continue its operands. -/
theorem stops_at_operator {level : Level} {kind : Kind} (joins : level.isOperator kind = true) :
    level.operand.continues kind = false := by
  -- The classes of operators have no member in common.
  cases level <;> cases kind <;> first | rfl | cases joins

end Level

/-- What a row of tokens can be. -/
inductive Category where
  /-- An expression of a level. -/
  | expression (level : Level)
  /-- What follows the first operand of a level: operators, each with its operand. -/
  | tail (level : Level)
  /-- One statement. -/
  | statement
  /-- Any number of statements, which is also what a program is. -/
  | body
deriving DecidableEq, Repr

/-- The derivations of each category, with one constructor for each alternative of the grammar. -/
inductive Derivation : Category → Type where
  | number (numeral : Terminal .number) : Derivation (.expression .primary)
  | use (name : Terminal .name) : Derivation (.expression .primary)
  | group (opening : Terminal .openParen) (inside : Derivation (.expression .comparison))
      (closing : Terminal .closeParen) : Derivation (.expression .primary)
  | chain {level : Level} (composite : level ≠ .primary)
      (first : Derivation (.expression level.operand)) (others : Derivation (.tail level)) :
      Derivation (.expression level)
  | done {level : Level} : Derivation (.tail level)
  | more {level : Level} (operator : { t : Token // level.isOperator t.kind })
      (right : Derivation (.expression level.operand)) (others : Derivation (.tail level)) :
      Derivation (.tail level)
  | declare (keyword : Terminal .kwInt) (name : Terminal .name)
      (semicolon : Terminal .semicolon) : Derivation .statement
  | assign (name : Terminal .name) (equals : Terminal .assign)
      (value : Derivation (.expression .comparison)) (semicolon : Terminal .semicolon) :
      Derivation .statement
  | print (keyword : Terminal .kwPrint) (opening : Terminal .openParen)
      (value : Derivation (.expression .comparison)) (closing : Terminal .closeParen)
      (semicolon : Terminal .semicolon) : Derivation .statement
  | choose (keyword : Terminal .kwIf) (opening : Terminal .openParen)
      (condition : Derivation (.expression .comparison)) (closing : Terminal .closeParen)
      (yes : Derivation .statement) : Derivation .statement
  | chooseElse (keyword : Terminal .kwIf) (opening : Terminal .openParen)
      (condition : Derivation (.expression .comparison)) (closing : Terminal .closeParen)
      (yes : Derivation .statement) (otherwise : Terminal .kwElse)
      (no : Derivation .statement) : Derivation .statement
  | loop (keyword : Terminal .kwWhile) (opening : Terminal .openParen)
      (condition : Derivation (.expression .comparison)) (closing : Terminal .closeParen)
      (repeated : Derivation .statement) : Derivation .statement
  | block (opening : Terminal .openBrace) (inside : Derivation .body)
      (closing : Terminal .closeBrace) : Derivation .statement
  | nothing : Derivation .body
  | also (first : Derivation .statement) (others : Derivation .body) : Derivation .body

/-- What is built for a category: a tail waits for the operand on its left. -/
def Category.Tree : Category → Type
  | .expression _ | .statement => Node
  -- The operators join from the left, so the first operand has to be there before the others.
  | .tail _ => Node → Node
  | .body => List Node

/-- The mark of a node whose number and place do not matter. -/
def blank : Mark := ⟨0, ⟨0, 0⟩⟩

namespace Derivation

variable {category : Category}

/-- The tokens that a derivation covers, in order. -/
def tokens : {category : Category} → Derivation category → List Token
  -- Each production is listed as it is written, with the tokens of its parts in their places.
  | _, number numeral => [numeral.val]
  | _, use name => [name.val]
  | _, group opening inside closing => opening.val :: (inside.tokens ++ [closing.val])
  | _, chain _ first others => first.tokens ++ others.tokens
  | _, done => []
  | _, more operator right others => operator.val :: (right.tokens ++ others.tokens)
  | _, declare keyword name semicolon => [keyword.val, name.val, semicolon.val]
  | _, assign name equals value semicolon =>
    name.val :: equals.val :: (value.tokens ++ [semicolon.val])
  | _, print keyword opening value closing semicolon =>
    keyword.val :: opening.val :: (value.tokens ++ [closing.val, semicolon.val])
  | _, choose keyword opening condition closing yes =>
    keyword.val :: opening.val :: (condition.tokens ++ closing.val :: yes.tokens)
  | _, chooseElse keyword opening condition closing yes otherwise no =>
    keyword.val :: opening.val ::
      (condition.tokens ++ closing.val :: (yes.tokens ++ otherwise.val :: no.tokens))
  | _, loop keyword opening condition closing repeated =>
    keyword.val :: opening.val :: (condition.tokens ++ closing.val :: repeated.tokens)
  | _, block opening inside closing => opening.val :: (inside.tokens ++ [closing.val])
  | _, nothing => []
  | _, also first others => first.tokens ++ others.tokens

/-- How many blocks, choices, loops and parentheses around an expression stand inside each other;
the parentheses that belong to a statement do not count. -/
def depth : {category : Category} → Derivation category → Nat
  | _, group _ inside _ => inside.depth + 1
  | _, chain _ first others => max first.depth others.depth
  | _, more _ right others => max right.depth others.depth
  | _, assign _ _ value _ | _, print _ _ value _ _ => value.depth
  | _, choose _ _ condition _ yes => max condition.depth yes.depth + 1
  | _, chooseElse _ _ condition _ yes _ no =>
    max (max condition.depth yes.depth) no.depth + 1
  | _, loop _ _ condition _ repeated => max condition.depth repeated.depth + 1
  | _, block _ inside _ => inside.depth + 1
  | _, also first others => max first.depth others.depth
  | _, number _ | _, use _ | _, done | _, declare .. | _, nothing => 0

/-- Tells whether a choice at the end of a statement could still take an alternative. -/
def isOpen : {category : Category} → Derivation category → Bool
  -- A choice without an alternative is open, whatever is inside it.
  | _, choose .. => true
  | _, chooseElse _ _ _ _ _ _ no => no.isOpen
  | _, loop _ _ _ _ repeated => repeated.isOpen
  | _, _ => false

/-- Every alternative belongs to the nearest choice that has none: no choice before it is open. -/
def Nearest : {category : Category} → Derivation category → Prop
  -- Only an alternative asks for anything; the other cases pass the question on.
  | _, group _ inside _ => inside.Nearest
  | _, chain _ first others => first.Nearest ∧ others.Nearest
  | _, more _ right others => right.Nearest ∧ others.Nearest
  | _, assign _ _ value _ | _, print _ _ value _ _ => value.Nearest
  | _, choose _ _ condition _ yes => condition.Nearest ∧ yes.Nearest
  | _, chooseElse _ _ condition _ yes _ no =>
    condition.Nearest ∧ yes.Nearest ∧ no.Nearest ∧ yes.isOpen = false
  | _, loop _ _ condition _ repeated => condition.Nearest ∧ repeated.Nearest
  | _, block _ inside _ => inside.Nearest
  | _, also first others => first.Nearest ∧ others.Nearest
  | _, number _ | _, use _ | _, done | _, declare .. | _, nothing => True

/-- The tree of a derivation, without numbers and places: operators join from the left, and
parentheses leave no trace. -/
def tree : {category : Category} → Derivation category → category.Tree
  -- The value is said by the digits alone, with no reference to a reader of numerals.
  | _, number numeral => .literal blank (Numeral.decimal numeral.val.lexeme)
  | _, use name => .use blank name
  | _, group _ inside _ => inside.tree
  | _, chain _ first others => others.tree first.tree
  | _, done => fun left => left
  | _, more operator right others => fun left =>
    -- What is joined so far becomes the left operand of the next operator.
    others.tree (.binary blank left operator right.tree)
  | _, declare _ name _ => .declare blank name
  | _, assign name _ value _ => .assign blank name value.tree
  | _, print _ _ value _ _ => .print blank value.tree
  | _, choose _ _ condition _ yes => .choose blank condition.tree yes.tree
  | _, chooseElse _ _ condition _ yes _ no => .chooseElse blank condition.tree yes.tree no.tree
  | _, loop _ _ condition _ repeated => .loop blank condition.tree repeated.tree
  | _, block _ inside _ => .block blank inside.tree
  | _, nothing => []
  | _, also first others => first.tree :: others.tree

end Derivation

end BlockCode.Grammar
