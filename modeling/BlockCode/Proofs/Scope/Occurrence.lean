import BlockCode.Proofs.Grammar.Shape

/-! The places of a tree that name variables, and the declaration that each of them is bound to by
block scope. -/

namespace BlockCode

/-- A place in a tree that names a variable. -/
structure Occurrence where
  /-- The number of the node. -/
  id : Int
  /-- The token that names the variable. -/
  name : Token
  /-- Tells whether the node declares the variable. -/
  declares : Bool
  /-- The numbers of the blocks around the node, from the inside out; the program itself, which is
  around everything, is not listed. -/
  blocks : List Int
deriving DecidableEq, Repr

namespace Occurrence

/-- The declarations among some places. -/
def declarations (places : List Occurrence) : List Occurrence :=
  places.filter (·.declares)

/-- A declaration reaches a place that uses its name inside the block that directly contains it. -/
def Reaches (d u : Occurrence) : Prop :=
  d.name.lexeme = u.name.lexeme ∧ d.blocks <:+ u.blocks

instance (d u : Occurrence) : Decidable (d.Reaches u) :=
  inferInstanceAs (Decidable (_ ∧ _))

/-- Of the declarations before a place, it denotes the one that reaches it from the innermost
block. -/
structure Denotes (declared : List Occurrence) (u d : Occurrence) : Prop where
  earlier : d ∈ declared
  reaches : d.Reaches u
  innermost : ∀ other ∈ declared, other.Reaches u → other.blocks <:+ d.blocks

/-- The declaration that a place of a tree is bound to: a declaration to itself, any other place to
what it denotes among the declarations before it. -/
inductive BoundTo (places : List Occurrence) : Occurrence → Occurrence → Prop where
  | declared {d : Occurrence} (member : d ∈ declarations places) : BoundTo places d d
  | referred {before after : List Occurrence} {u d : Occurrence}
      (split : places = before ++ u :: after) (refers : u.declares = false)
      (denotes : Denotes (declarations before) u d) : BoundTo places u d

/-- Nothing is declared where there is no place. -/
@[simp] theorem declarations_nil : declarations [] = [] := rfl

/-- Declarations are listed in the order of their places. -/
@[simp] theorem declarations_append (places others : List Occurrence) :
    declarations (places ++ others) = declarations places ++ declarations others :=
  List.filter_append _ _

/-- A place that declares comes before the declarations that follow it. -/
theorem declarations_cons_declares {u : Occurrence} (places : List Occurrence)
    (declares : u.declares = true) : declarations (u :: places) = u :: declarations places :=
  List.filter_cons_of_pos declares

/-- A place that does not declare adds no declaration. -/
theorem declarations_cons_refers {u : Occurrence} (places : List Occurrence)
    (refers : u.declares = false) : declarations (u :: places) = declarations places :=
  List.filter_cons_of_neg (by simp [refers])

/-- The declaration of a name found first when the blocks are searched from the inside out, and the
program last. -/
def search (declared : List Occurrence) (name : String) : (blocks : List Int) → Option Occurrence
  -- The list of blocks is empty for what is declared in the program itself.
  | [] => declared.find? fun d => d.name.lexeme = name ∧ d.blocks = []
  | block :: around =>
    match declared.find? fun d => d.name.lexeme = name ∧ d.blocks = block :: around with
    -- An inner declaration hides those around it.
    | some d => some d
    | none => search declared name around

/-- What is found directly in a block is declared there. -/
theorem of_find? {declared : List Occurrence} {name : String} {blocks : List Int} {d : Occurrence}
    (found : (declared.find? fun d => d.name.lexeme = name ∧ d.blocks = blocks) = some d) :
    d ∈ declared ∧ d.name.lexeme = name ∧ d.blocks = blocks := by
  -- A search by a test gives a member that passes it.
  have matching := List.find?_some found
  exact ⟨List.mem_of_find?_eq_some found, by simpa using matching⟩

/-- The search finds the declaration that a place denotes. -/
theorem denotes_of_search {declared : List Occurrence} {u d : Occurrence}
    (found : search declared u.name.lexeme u.blocks = some d) : Denotes declared u d := by
  -- The induction goes outwards; what is found keeps all that was passed by outside of it.
  suffices general : ∀ blocks, search declared u.name.lexeme blocks = some d →
      d ∈ declared ∧ d.name.lexeme = u.name.lexeme ∧ d.blocks <:+ blocks ∧
        ∀ other ∈ declared, other.name.lexeme = u.name.lexeme → other.blocks <:+ blocks →
          other.blocks <:+ d.blocks by
    obtain ⟨earlier, named, encloses, innermost⟩ := general u.blocks found
    exact ⟨earlier, ⟨named, encloses⟩, fun other known reaches =>
      innermost other known reaches.1 reaches.2⟩
  intro blocks
  induction blocks with
  | nil =>
    intro found
    obtain ⟨earlier, named, here⟩ := of_find? found
    exact ⟨earlier, named, by simp [here], by simp [here]⟩
  | cons block around ih =>
    intro found
    unfold search at found
    split at found
    · -- The name is declared directly in the innermost block.
      rename_i first inside
      cases found
      obtain ⟨earlier, named, here⟩ := of_find? inside
      exact ⟨earlier, named, by simp [here], by simp [here]⟩
    · -- Nothing in the innermost block has the name, so no other declaration is there either.
      rename_i outside
      obtain ⟨earlier, named, encloses, innermost⟩ := ih found
      refine ⟨earlier, named, encloses.trans (List.suffix_cons _ _), ?_⟩
      intro other known same reaches
      rcases List.suffix_cons_iff.mp reaches with here | around
      · have absent := List.find?_eq_none.mp outside other known
        simp [same, here] at absent
      · exact innermost other known same around

/-- The search finds something wherever something is denoted. -/
theorem search_of_denotes {declared : List Occurrence} {u d : Occurrence}
    (denotes : Denotes declared u d) : ∃ d', search declared u.name.lexeme u.blocks = some d' := by
  -- The block that contains the declaration is passed at the latest.
  obtain ⟨earlier, ⟨named, encloses⟩, _⟩ := denotes
  generalize u.blocks = blocks at encloses
  induction blocks with
  | nil =>
    rw [List.suffix_nil] at encloses
    rw [search, ← Option.isSome_iff_exists, List.find?_isSome]
    exact ⟨d, earlier, by simp [named, encloses]⟩
  | cons block around ih =>
    unfold search
    split
    · exact ⟨_, rfl⟩
    · rename_i outside
      rcases List.suffix_cons_iff.mp encloses with here | around
      · have absent := List.find?_eq_none.mp outside d earlier
        simp [named, here] at absent
      · exact ih around

end Occurrence

namespace Node

mutual

/-- The places of a tree that name variables, in source order, given the blocks around the tree. -/
def occurrences (blocks : List Int) : Node → List Occurrence
  | declare mark name => [⟨mark.id, name, true, blocks⟩]
  -- The target stands before the value in the source.
  | assign mark name value => ⟨mark.id, name, false, blocks⟩ :: value.occurrences blocks
  | use mark name => [⟨mark.id, name, false, blocks⟩]
  -- The block is put in front, so the innermost one comes first.
  | block mark body => occurrencesAll (mark.id :: blocks) body
  | print _ value => value.occurrences blocks
  | choose _ condition yes => condition.occurrences blocks ++ yes.occurrences blocks
  | chooseElse _ condition yes no =>
    condition.occurrences blocks ++ yes.occurrences blocks ++ no.occurrences blocks
  | loop _ condition body => condition.occurrences blocks ++ body.occurrences blocks
  | binary _ left _ right => left.occurrences blocks ++ right.occurrences blocks
  | program _ body => occurrencesAll blocks body
  | literal .. | unknown .. => []

/-- The places of some trees that name variables. -/
def occurrencesAll (blocks : List Int) : List Node → List Occurrence
  -- One tree after the other, as they stand in the source.
  | [] => []
  | n :: ns => n.occurrences blocks ++ occurrencesAll blocks ns

end

/-- The places of one tree on its own. -/
@[simp] theorem occurrencesAll_singleton (blocks : List Int) (n : Node) :
    occurrencesAll blocks [n] = n.occurrences blocks :=
  List.append_nil _

open Occurrence

/-- The places inside some blocks and inside a tree with some numbers: they take their numbers from
the tree, and what is around them is around the tree or in it. -/
structure Placed (blocks ids : List Int) (places : List Occurrence) : Prop where
  named : (places.map (·.id)).Sublist ids
  around : ∀ o ∈ places, ∀ block ∈ o.blocks, block ∈ blocks ∨ block ∈ ids

namespace Placed

variable {blocks ids others : List Int} {places more : List Occurrence}

/-- There may be no place at all. -/
theorem none : Placed blocks ids [] := by
  exact ⟨List.nil_sublist _, by simp⟩

/-- Places of trees side by side. -/
theorem append (left : Placed blocks ids places) (right : Placed blocks others more) :
    Placed blocks (ids ++ others) (places ++ more) := by
  -- The numbers stand side by side as the places do.
  refine ⟨?_, ?_⟩
  · rw [List.map_append]
    exact left.named.append right.named
  · intro o member block inside
    rcases List.mem_append.mp member with member | member
    · have around := left.around o member block inside
      grind
    · have around := right.around o member block inside
      grind

/-- A node that names no variable adds its number only. -/
theorem below (id : Int) (placed : Placed blocks ids places) :
    Placed blocks (id :: ids) places := by
  -- The blocks around a place are as before, and only the numbers are more.
  refine ⟨placed.named.cons id, ?_⟩
  intro o member block inside
  have around := placed.around o member block inside
  grind

/-- A node that names a variable is a place itself. -/
theorem place (id : Int) (name : Token) (declares : Bool) (placed : Placed blocks ids places) :
    Placed blocks (id :: ids) (⟨id, name, declares, blocks⟩ :: places) := by
  -- The place comes first, as its number does.
  refine ⟨placed.named.cons_cons id, ?_⟩
  intro o member block inside
  rcases List.mem_cons.mp member with rfl | member
  · exact .inl inside
  · exact (placed.below id).around o member block inside

/-- A block is around the places in it. -/
theorem block (id : Int) (placed : Placed (id :: blocks) ids places) :
    Placed blocks (id :: ids) places := by
  -- The block is in the tree, and not around it.
  refine ⟨placed.named.cons id, ?_⟩
  intro o member block inside
  have around := placed.around o member block inside
  grind

end Placed

mutual

/-- The places of a tree are inside it. -/
theorem placed (blocks : List Int) : ∀ n : Node, Placed blocks n.ids (n.occurrences blocks)
  -- Each kind of tree has its own number in front and the numbers of its parts behind it.
  | declare mark name => Placed.none.place mark.id name true
  | use mark name => Placed.none.place mark.id name false
  | assign mark name value => (placed blocks value).place mark.id name false
  | block mark body => (placedAll (mark.id :: blocks) body).block mark.id
  | print mark value => (placed blocks value).below mark.id
  | choose mark condition yes =>
    ((placed blocks condition).append (placed blocks yes)).below mark.id
  | chooseElse mark condition yes no =>
    (((placed blocks condition).append (placed blocks yes)).append (placed blocks no)).below mark.id
  | loop mark condition body =>
    ((placed blocks condition).append (placed blocks body)).below mark.id
  | binary mark left _ right =>
    ((placed blocks left).append (placed blocks right)).below mark.id
  | program mark body => (placedAll blocks body).below mark.id
  | literal .. => Placed.none
  | unknown .. => Placed.none

/-- The places of some trees are inside them. -/
theorem placedAll (blocks : List Int) :
    ∀ ns : List Node, Placed blocks (idsAll ns) (occurrencesAll blocks ns)
  -- The places of trees in turn are put behind each other.
  | [] => Placed.none
  | n :: ns => (placed blocks n).append (placedAll blocks ns)

end

/-- No expression declares a variable. -/
theorem IsExpression.declarations_eq_nil {n : Node} (shape : n.IsExpression) (blocks : List Int) :
    declarations (n.occurrences blocks) = [] := by
  -- Only uses name variables in an expression.
  induction shape with
  | literal mark value => simp [occurrences]
  | use mark name => simp [occurrences, declarations]
  | binary mark operator known leftShape rightShape leftIh rightIh =>
    simp [occurrences, leftIh, rightIh]

end Node

end BlockCode
