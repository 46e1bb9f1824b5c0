import BlockCode.Proofs.Parse.Concat
import BlockCode.Proofs.Parse.Sourced

/-! The order in which the parser numbers its nodes. Every subtree has an interval of numbers for
itself, and subtrees side by side have theirs in source order. -/

namespace BlockCode

open Grammar

/-- The numbers that are taken lie between the first one and the last one. -/
theorem Grammar.Numbered.bounds {first last : Nat} {ids : List Int} {i : Int}
    (numbered : Numbered first last ids) (member : i ∈ ids) : first ≤ i ∧ i < last := by
  -- The numbers are those of the interval in some order.
  have ordered := numbered.ordered
  obtain ⟨k, inside, rfl⟩ := List.mem_map.mp (numbered.perm.mem_iff.mp member)
  rw [List.mem_range'_1] at inside
  simp only [Int.ofNat_eq_natCast]
  omega

namespace Node

/-- Tells whether a node is an operator between two operands. -/
def isBinary : Node → Bool
  -- The operators alone have larger numbers than what is below them.
  | binary .. => true
  | _ => false

/-- Trees in turn are numbered from one number up to another. A binary expression takes its number
behind its operands, every other node before what is below it. -/
inductive Numbering : List Node → Nat → Nat → Prop where
  | nothing (k : Nat) : Numbering [] k k
  | before {n : Node} {k last : Nat} (other : n.isBinary = false) (number : n.id = k)
      (below : Numbering n.children (k + 1) last) : Numbering [n] k last
  | behind {mark : Mark} {left right : Node} {operator : Token} {first last : Nat}
      (number : mark.id = last) (below : Numbering [left, right] first last) :
      Numbering [.binary mark left operator right] first (last + 1)
  | also {n m : Node} {ns : List Node} {first middle last : Nat}
      (one : Numbering [n] first middle) (others : Numbering (m :: ns) middle last) :
      Numbering (n :: m :: ns) first last

namespace Numbering

variable {n m : Node} {ns : List Node} {first middle last : Nat}

/-- One tree in front of others. -/
theorem cons (one : Numbering [n] first middle) (others : Numbering ns middle last) :
    Numbering (n :: ns) first last := by
  cases ns with
  | nil =>
    -- Behind the only tree no number is taken.
    cases others
    exact one
  | cons m ns => exact .also one others

/-- Trees in turn take all the numbers between the two. -/
theorem numbered (numbering : Numbering ns first last) : Numbered first last (idsAll ns) := by
  induction numbering with
  | nothing k => exact .none k
  | @before n k last other number below ih =>
    rw [idsAll, idsAll, List.append_nil, ids_eq, number]
    exact .cons k ih
  | @behind mark left right operator first last number below ih =>
    -- The number of the expression is listed first and given out last.
    have ids : idsAll [Node.binary mark left operator right] =
        [(last : Int)] ++ idsAll [left, right] := by
      rw [idsAll, idsAll, List.append_nil, ids_eq, ← number]
      rfl
    rw [ids]
    exact (ih.append (.single last)).swap
  | @also n m ns first middle last one others oneIh othersIh =>
    rw [idsAll, idsAll, List.append_nil] at oneIh
    exact oneIh.append othersIh

/-- Every subtree is numbered in the same way. -/
theorem within (numbering : Numbering ns first last) (member : m ∈ ns) (within : n.Within m) :
    ∃ low high, Numbering [n] low high := by
  -- The induction goes down with the numbers, from a node to what is below it.
  induction numbering generalizing m with
  | nothing k => cases member
  | before other number below ih =>
    obtain rfl := List.mem_singleton.mp member
    cases within with
    | root => exact ⟨_, _, .before other number below⟩
    | inside inner within => exact ih inner within
  | behind number below ih =>
    obtain rfl := List.mem_singleton.mp member
    cases within with
    | root => exact ⟨_, _, .behind number below⟩
    | inside inner within => exact ih inner within
  | also one others oneIh othersIh =>
    rcases List.mem_cons.mp member with rfl | later
    · exact oneIh (.head _) within
    · exact othersIh later within

/-- The numbers of trees in turn ascend from one tree to the next. -/
theorem ascends (numbering : Numbering ns first last) :
    ns.Pairwise fun a b => ∀ i ∈ a.ids, ∀ j ∈ b.ids, i < j := by
  induction numbering with
  | nothing k => exact .nil
  | before | behind => exact List.pairwise_singleton _ _
  | @also n m ns first middle last one others oneIh othersIh =>
    refine .cons ?_ othersIh
    intro b later i inside j inside'
    -- The first tree has its numbers below the middle, the others have theirs from there on.
    have low := one.numbered.bounds (i := i) (by simpa [idsAll] using inside)
    have high := others.numbered.bounds ((ids_sublist later).mem inside')
    omega

/-- The interval of a tree is as long as the tree has nodes. -/
theorem last_eq (numbering : Numbering [n] first last) : last = first + n.size := by
  -- There are as many numbers as nodes, and as many as the interval is long.
  have numbered := numbering.numbered
  have ordered := numbered.ordered
  have count := numbered.perm.length_eq
  rw [length_idsAll, List.length_map, List.length_range', sizes, sizes] at count
  omega

/-- The numbers of a tree are the interval. -/
theorem perm (numbering : Numbering [n] first last) :
    n.ids.Perm ((List.range' first n.size).map Int.ofNat) := by
  -- A tree alone has its own numbers and no others.
  have perm := numbering.numbered.perm
  rw [numbering.last_eq, Nat.add_sub_cancel_left, idsAll, idsAll, List.append_nil] at perm
  exact perm

/-- The root of a tree stands at one end of the interval. -/
theorem id_eq (numbering : Numbering [n] first last) :
    n.id = (if n.isBinary then first + n.size - 1 else first : Int) := by
  -- Only an operator takes its number when its operands have theirs.
  have length := numbering.last_eq
  cases numbering with
  | before other number below => rw [number, other, if_neg Bool.false_ne_true]
  | behind number below =>
    rw [id, mark, number, isBinary, if_pos rfl]
    omega

/-- The numbers of the trees below a root ascend. -/
theorem ascends_children (numbering : Numbering [n] first last) :
    n.children.Pairwise fun a b => ∀ i ∈ a.ids, ∀ j ∈ b.ids, i < j := by
  -- Whether the root comes first or last, the trees below it share out the rest.
  cases numbering with
  | before other number below => exact below.ascends
  | behind number below => exact below.ascends

end Numbering

end Node

namespace Grammar.Derivation

open Node

variable {category : Category}

/-- The tree of a derivation is numbered in order. -/
def Orders : {category : Category} → Derivation category → Prop
  | .expression _, d | .statement, d => ∀ k, Numbering [(d.build k).1] k (d.build k).2
  -- The operand on the left is numbered before the tail.
  | .tail _, d => ∀ left first k, Numbering [left] first k →
    Numbering [(d.build left k).1] first (d.build left k).2
  | .body, d => ∀ k, Numbering (d.build k).1 k (d.build k).2

/-- Every derivation numbers its tree in order. -/
theorem orders (d : Derivation category) : d.Orders := by
  -- Only an operator takes its number behind the numbers of its parts.
  induction d with
  | number numeral => exact fun k => .before rfl rfl (.nothing _)
  | use name => exact fun k => .before rfl rfl (.nothing _)
  | group _ inside _ ih => exact ih
  | chain _ first others firstIh othersIh => exact fun k => othersIh _ _ _ (firstIh k)
  | done => exact fun left first k numbering => numbering
  | more operator right others rightIh othersIh =>
    intro left first k numbering
    exact othersIh _ _ _ (.behind rfl (.also numbering (rightIh k)))
  | declare keyword name semicolon => exact fun k => .before rfl rfl (.nothing _)
  | assign name equals value semicolon ih => exact fun k => .before rfl rfl (ih (k + 1))
  | print keyword opening value closing semicolon ih =>
    exact fun k => .before rfl rfl (ih (k + 1))
  | choose keyword opening condition closing yes conditionIh yesIh =>
    exact fun k => .before rfl rfl (.also (conditionIh (k + 1)) (yesIh _))
  | chooseElse keyword opening condition closing yes otherwise no conditionIh yesIh noIh =>
    exact fun k => .before rfl rfl (.also (conditionIh (k + 1)) (.also (yesIh _) (noIh _)))
  | loop keyword opening condition closing repeated conditionIh repeatedIh =>
    exact fun k => .before rfl rfl (.also (conditionIh (k + 1)) (repeatedIh _))
  | block opening inside closing ih => exact fun k => .before rfl rfl (ih (k + 1))
  | nothing => exact fun k => .nothing k
  | also first others firstIh othersIh => exact fun k => (firstIh k).cons (othersIh _)

end Grammar.Derivation

namespace Node

/-- A parsed tree is numbered in order from zero on. -/
theorem parse_numbering {tokens : List Token} {tree : Node} (read : parse tokens = .ok tree) :
    ∃ last, Numbering [tree] 0 last := by
  -- The program takes the number zero, and its statements take those that follow.
  obtain ⟨d, first, _, _, rfl⟩ := parse_sound read
  exact ⟨(d.build 1).2, .before rfl rfl (d.orders 1)⟩

/-- The nodes of a parsed tree have the numbers from zero up to their number. -/
theorem parse_dense {tokens : List Token} {tree : Node} (read : parse tokens = .ok tree) :
    tree.ids.Perm ((List.range tree.size).map Int.ofNat) := by
  -- The root starts the interval at zero.
  obtain ⟨last, numbering⟩ := parse_numbering read
  rw [List.range_eq_range']
  exact numbering.perm

/-- The parser numbers the nodes densely, in the order in which it builds them. A tree of some nodes
has the numbers from zero up to their number, each of them once. The numbers of every subtree are
an interval; its root has the first one, or the last one if it is a binary expression. What is
directly below a node stands in source order, and of two such trees the earlier one has the smaller
numbers. -/
theorem parse_numbers {tokens : List Token} {tree : Node} (read : parse tokens = .ok tree) :
    tree.ids.Perm ((List.range tree.size).map Int.ofNat) ∧
    ∀ n : Node, n.Within tree → ∃ first : Nat,
      n.ids.Perm ((List.range' first n.size).map Int.ofNat) ∧
      n.id = (if n.isBinary then first + n.size - 1 else first : Int) ∧
      (n.children.map position).Sublist (tokens.map Token.position) ∧
      n.children.Pairwise fun a b => ∀ i ∈ a.ids, ∀ j ∈ b.ids, i < j := by
  -- Every subtree has an interval of its own, and all is said about that.
  obtain ⟨last, numbering⟩ := parse_numbering read
  refine ⟨parse_dense read, ?_⟩
  intro n within
  obtain ⟨low, high, inner⟩ := numbering.within (.head _) within
  exact ⟨low, inner.perm, inner.id_eq, (parse_sourced read within).places, inner.ascends_children⟩

/-- The tokens of a program that prints a product. -/
def productTokens : List Token :=
  -- The sum in parentheses is the left operand of the product.
  [⟨.kwPrint, "print", ⟨1, 1⟩⟩, ⟨.openParen, "(", ⟨1, 6⟩⟩, ⟨.openParen, "(", ⟨1, 7⟩⟩,
    ⟨.number, "1", ⟨1, 8⟩⟩, ⟨.plus, "+", ⟨1, 10⟩⟩, ⟨.number, "2", ⟨1, 12⟩⟩,
    ⟨.closeParen, ")", ⟨1, 13⟩⟩, ⟨.star, "*", ⟨1, 15⟩⟩, ⟨.number, "3", ⟨1, 17⟩⟩,
    ⟨.closeParen, ")", ⟨1, 18⟩⟩, ⟨.semicolon, ";", ⟨1, 19⟩⟩, ⟨.finish, "", ⟨1, 20⟩⟩]

/-- The print statement has the number one. The product below it has the numbers from two up to six,
and the last of these is its own. -/
theorem parse_numbers_product : ∃ tree product : Node, parse productTokens = .ok tree ∧
    tree.ids.Perm ((List.range 7).map Int.ofNat) ∧ product.Within tree ∧ product.id = 6 ∧
    product.ids.Perm ((List.range' 2 5).map Int.ofNat) := by
  have read : parse productTokens = .ok _ := rfl
  obtain ⟨dense, below⟩ := parse_numbers read
  obtain ⟨first, perm, own, _⟩ := below _ (.inside (.head _) (.inside (.head _) .root))
  refine ⟨_, _, read, dense, .inside (.head _) (.inside (.head _) .root), rfl, ?_⟩
  -- There are five nodes in the product, so the first of its numbers is two.
  have last : (6 : Int) = first + 5 - 1 := own
  obtain rfl : first = 2 := by omega
  exact perm

end Node

end BlockCode
