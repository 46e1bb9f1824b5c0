import BlockCode.Node.Outline
import BlockCode.Proofs.Parse.Sourced

/-! The outline of a tree is written by recursion: the walk along the pending items gives the same
lines, and it fails exactly if a literal has too many digits. -/

namespace BlockCode

/-- A line at a depth, with two blanks in front for each step. -/
def indented (depth : Nat) (text : String) : String :=
  String.ofList (List.replicate (2 * depth) ' ') ++ text

namespace Node

/-- What the line of a node says. -/
def title : Node → String
  -- These are the words of an outline, which are not the names of the variants.
  | program .. => "Program"
  | block .. => "Block"
  | declare _ name => "VarDecl " ++ name.lexeme
  | assign _ name _ => "Assign " ++ name.lexeme
  | print .. => "Print"
  -- Whether there is an alternative is told by a line of its own.
  | choose .. | chooseElse .. => "If"
  | loop .. => "While"
  | binary _ _ operator _ => "Binary " ++ operator.lexeme
  | literal _ value => "Literal " ++ toString value
  | use _ name => "Identifier " ++ name.lexeme
  | unknown _ variant => variant

mutual

/-- The lines of a tree: that of the root, and below it those of its parts. -/
def rendering (depth : Nat) (n : Node) : List String :=
  indented depth n.title :: match n with
  | program _ body | block _ body => renderings (depth + 1) body
  | assign _ _ value | print _ value => value.rendering (depth + 1)
  -- A branch stands below a line of its own.
  | choose _ condition yes =>
    condition.rendering (depth + 1) ++ indented (depth + 1) "Then" :: yes.rendering (depth + 2)
  | chooseElse _ condition yes no =>
    condition.rendering (depth + 1) ++ indented (depth + 1) "Then" :: yes.rendering (depth + 2) ++
      indented (depth + 1) "Else" :: no.rendering (depth + 2)
  | loop _ condition body =>
    condition.rendering (depth + 1) ++ indented (depth + 1) "Do" :: body.rendering (depth + 2)
  | binary _ left _ right => left.rendering (depth + 1) ++ right.rendering (depth + 1)
  | declare .. | literal .. | use .. | unknown .. => []

/-- The lines of some trees in turn. -/
def renderings (depth : Nat) : List Node → List String
  -- No line stands between two trees.
  | [] => []
  | n :: ns => n.rendering depth ++ renderings depth ns

end

/-- Trees are rendered one by one. -/
theorem renderings_eq_flatMap (depth : Nat) (ns : List Node) :
    renderings depth ns = ns.flatMap (rendering depth) := by
  -- The function on rows is written out for the sake of its recursion, and is a plain map.
  induction ns with
  | nil => rfl
  | cons n ns ih => rw [renderings, ih, List.flatMap_cons]

/-- All literals of a tree have few enough digits to be written. -/
def Writable (n : Node) : Prop := ∀ m : Node, m.Within n → m.Short

variable {n : Node}

/-- A tree can be written if its root and all that is below can. -/
theorem writable_iff : n.Writable ↔ n.Short ∧ ∀ child ∈ n.children, child.Writable := by
  -- A node within the tree is the root or stands within one of its children.
  constructor
  · intro writable
    exact ⟨writable n .root, fun child member m within => writable m (.inside member within)⟩
  · rintro ⟨own, below⟩ m within
    cases within with
    | root => exact own
    | inside member within => exact below _ member m within

/-- What cannot be written stands below the root unless it is the root. -/
theorem exists_unwritable (short : n.Short) (unwritable : ¬ n.Writable) :
    ∃ child ∈ n.children, ¬ child.Writable := by
  -- If the root could be written and all below it, the whole tree could.
  rw [writable_iff] at unwritable
  simpa [short] using unwritable

/-- A tree can be written unless a literal in it has too many digits. -/
theorem writable_iff_literal :
    n.Writable ↔ ∀ mark value, (literal mark value).Within n → Numeral.Short value := by
  -- Only a literal has a value that may be too long.
  constructor
  · intro writable mark value within
    exact writable _ within
  · intro literals m within
    cases m with
    | literal mark value => exact literals mark value within
    | _ => trivial

end Node

namespace Outline

open Node

variable {n : Node} {indent : Int} {pending : List Outline}

/-- The line of a node says its title, if its value can be written. -/
theorem label_short (short : n.Short) : label n = .ok n.title := by
  -- Only the label of a literal depends on whether its value can be written.
  cases n with
  | literal mark value => rw [label, Numeral.write_short short]; rfl
  | _ => rfl

/-- A value that cannot be written is an error. -/
theorem label_long (long : ¬ n.Short) : label n = .error .unprintable := by
  -- A node without a value is always short enough.
  cases n with
  | literal mark value => rw [label, Numeral.write_long long]; rfl
  | _ => exact absurd trivial long

/-- The lines that an item stands for. -/
def shown : Outline → List String
  -- The indent of a tree counts levels, and each of them is two blanks.
  | tree n indent => n.rendering indent.toNat
  | line text => [text]

/-- An item that can be shown: a tree that can be written and is not indented to the left, or a
line. -/
def Showable : Outline → Prop
  -- A line is not indented any more, so there is nothing to ask of it.
  | tree n indent => 0 ≤ indent ∧ n.Writable
  | line _ => True

/-- A heading is a line one step farther in than its node. -/
theorem heading_eq (depth : Nat) (text : String) :
    heading depth text = line (indented (depth + 1) text) := by
  -- The two blanks of the heading join those before it.
  have blanks : List.replicate (2 * (depth + 1)) ' ' =
      List.replicate (2 * depth) ' ' ++ [' ', ' '] := List.replicate_add ..
  rw [heading, indented, blanks, String.ofList_append]
  rfl

/-- A tree is rendered as its root and what is shown below. -/
theorem rendering_eq (depth : Nat) (n : Node) :
    n.rendering depth = indented depth n.title :: (below depth n).flatMap shown := by
  -- The depths below are one or two more, and all of them are natural numbers.
  have one : ((depth : Int) + 1).toNat = depth + 1 := by omega
  have two : ((depth : Int) + 2).toNat = depth + 2 := by omega
  cases n <;> simp [rendering, below, shown, heading_eq, one, two, renderings_eq_flatMap,
    List.flatMap_map]

/-- What is shown below a node are the trees below it, farther in, and lines. -/
theorem mem_below {m : Node} {inner : Int} (member : tree m inner ∈ below indent n) :
    m ∈ n.children ∧ indent ≤ inner := by
  cases n <;> grind [below, children, heading]

/-- What is below a node can be shown if the node can. -/
theorem showable_below (showable : (tree n indent).Showable) :
    ∀ item ∈ below indent n, item.Showable := by
  -- A fixed text can always be shown, and a tree below is farther to the right.
  intro item member
  cases item with
  | line text => trivial
  | tree m inner =>
    obtain ⟨inside, farther⟩ := mem_below member
    exact ⟨Int.le_trans showable.1 farther, (writable_iff.mp showable.2).2 m inside⟩

/-- Items that can be shown are shown in turn. -/
theorem lines_showable (showable : ∀ item ∈ pending, item.Showable) :
    lines pending = .ok (pending.flatMap shown) := by
  -- The walk replaces a tree by its root and what is below, and so does the rendering.
  fun_induction lines pending with
  | case1 => rfl
  | case2 text pending ih =>
    rw [List.forall_mem_cons] at showable
    rw [ih showable.2]
    rfl
  | case3 n indent pending ih =>
    rw [List.forall_mem_cons] at showable
    obtain ⟨own, others⟩ := showable
    obtain ⟨depth, rfl⟩ := Int.eq_ofNat_of_zero_le own.1
    have further := ih (List.forall_mem_append.mpr ⟨showable_below own, others⟩)
    have root : shown (tree n depth) = (pad depth ++ n.title) :: (below depth n).flatMap shown :=
      rendering_eq depth n
    rw [label_short (own.2 n .root), further, List.flatMap_cons, root, List.flatMap_append]
    rfl

/-- Every tree below a node is shown below it. -/
theorem exists_below {m : Node} (indent : Int) (member : m ∈ n.children) :
    ∃ inner, tree m inner ∈ below indent n := by
  cases n with
  | program mark body => exact ⟨indent + 1, List.mem_map_of_mem member⟩
  | block mark body => exact ⟨indent + 1, List.mem_map_of_mem member⟩
  | declare | literal | use | unknown => cases member
  | _ =>
    -- There are three trees below at most, and each is looked at.
    simp only [children, List.mem_cons, List.not_mem_nil, or_false] at member
    rcases member with rfl | rfl | rfl <;> simp [below, heading, exists_or]

/-- A tree that cannot be written is an error wherever it stands among the items. -/
theorem lines_unwritable (member : tree n indent ∈ pending) (unwritable : ¬ n.Writable) :
    lines pending = .error .unprintable := by
  -- What is shown before it does not matter, since the walk comes to it or fails before.
  fun_induction lines pending generalizing n indent with
  | case1 => cases member
  | case2 text pending ih =>
    have later : tree n indent ∈ pending := by simpa using member
    rw [ih later unwritable]
    rfl
  | case3 m inner pending ih =>
    by_cases short : m.Short
    · -- The literal is found below the root, or behind the tree.
      rw [label_short short]
      suffices found : ∃ n indent, tree n indent ∈ below inner m ++ pending ∧ ¬ n.Writable by
        obtain ⟨n, indent, member, unwritable⟩ := found
        rw [show lines (below inner m ++ pending) = _ from ih member unwritable]
        rfl
      rcases List.mem_cons.mp member with same | later
      · cases same
        obtain ⟨child, inside, unwritable⟩ := exists_unwritable short unwritable
        obtain ⟨further, below⟩ := exists_below inner inside
        exact ⟨child, further, List.mem_append_left _ below, unwritable⟩
      · exact ⟨n, indent, List.mem_append_right _ later, unwritable⟩
    · rw [label_long short]
      rfl

end Outline

namespace Node

variable {n : Node}

/-- The outline of a tree that can be written is its rendering. -/
theorem outline_writable (writable : n.Writable) (depth : Nat) :
    n.outline depth = .ok (n.rendering depth) := by
  -- The outline starts from the tree alone, at its depth.
  have showable : ∀ item ∈ [Outline.tree n depth], item.Showable :=
    List.forall_mem_singleton.mpr ⟨Int.natCast_nonneg depth, writable⟩
  rw [outline, Outline.lines_showable showable]
  simp [Outline.shown]

/-- The outline of a tree that cannot be written is an error. -/
theorem outline_unwritable (unwritable : ¬ n.Writable) (indent : Int) :
    n.outline indent = .error .unprintable :=
  Outline.lines_unwritable (.head _) unwritable

/-- A parsed tree can be written. -/
theorem parse_writable {tokens : List Token} {tree : Node} (read : parse tokens = .ok tree) :
    tree.Writable :=
  fun _ within => (parse_sourced read within).short

end Node

end BlockCode
