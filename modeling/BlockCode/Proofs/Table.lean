import Mathlib.Data.List.Sort
import BlockCode.Node.Table
import BlockCode.Proofs.Grammar.Within

/-! What a table holds: one row for each node, ordered by number, and one reference to each node but
the root. -/

namespace BlockCode

/-- The nodes that a field refers to. -/
def Field.references : Field → List Int
  | ref id => [id]
  | refs ids => ids
  -- The other fields are about the node itself.
  | absent | text _ | number _ => []

/-- The nodes that a row refers to, in the order of its fields. -/
def Row.references (r : Row) : List Int := r.fields.flatMap fun field => field.2.references

/-- The numbers of trees in turn are those of each of them. -/
theorem Node.idsAll_eq_flatMap (ns : List Node) : idsAll ns = ns.flatMap ids := by
  -- The function on rows is written out for the sake of its recursion, and is a plain map.
  induction ns with
  | nil => rfl
  | cons n ns ih => rw [idsAll, ih, List.flatMap_cons]

namespace Table

open Node

variable {n tree : Node}

/-- A row refers to what is directly below its node, in source order. -/
@[simp] theorem references_row (n : Node) : (row n).references = n.children.map Node.id := by
  cases n <;> simp [Row.references, Field.references, row, fields, children]

/-- What is put on the stack for a node has the numbers below the node. -/
theorem idsAll_pushed (n : Node) (pending : List Node) :
    (idsAll (n.children.reverse ++ pending)).Perm (idsAll n.children ++ idsAll pending) := by
  -- The children are reversed when they are put on the stack, which is only another order.
  simp only [idsAll_eq_flatMap, List.flatMap_append]
  exact (n.children.reverse_perm.flatMap_right _).append_right _

/-- There is a row for each node, with the number of the node. -/
theorem ids_collect (pending : List Node) :
    ((collect pending).map Row.id).Perm (idsAll pending) := by
  -- The stack loses a node and gains its children, whose numbers are those below the node.
  fun_induction collect with
  | case1 => exact .refl _
  | case2 n pending ih =>
    rw [List.map_cons, idsAll, ids_eq]
    exact .cons _ (ih.trans (idsAll_pushed n pending))

/-- What is pending is referred to from outside, everything below it by a row: together this is each
node once. -/
theorem references_collect (pending : List Node) :
    (pending.map Node.id ++ (collect pending).flatMap Row.references).Perm (idsAll pending) := by
  fun_induction collect with
  | case1 => exact .refl _
  | case2 n pending ih =>
    rw [idsAll, ids_eq, List.flatMap_cons, references_row, List.map_cons, List.cons_append,
      List.cons_append]
    apply List.Perm.cons
    apply List.Perm.trans _ (ih.trans (idsAll_pushed n pending))
    -- The references of the row are pending from now on; only their order is another one.
    rw [List.map_append, List.map_reverse, ← List.append_assoc]
    exact (List.perm_append_comm.trans ((List.reverse_perm _).symm.append_right _)).append_right _

/-- Every node in a pending tree gets its row. -/
theorem row_mem_collect {pending : List Node} (member : tree ∈ pending) (within : n.Within tree) :
    row n ∈ collect pending := by
  -- A node of the first tree is its root or stands in a child, which is on the stack next.
  fun_induction collect generalizing tree with
  | case1 => cases member
  | case2 first pending ih =>
    rcases List.mem_cons.mp member with rfl | later
    · cases within with
      | root => exact .head _
      | inside inner within =>
        apply List.mem_cons_of_mem
        exact ih (List.mem_append_left _ (List.mem_reverse.mpr inner)) within
    · exact .tail _ (ih (List.mem_append_right _ later) within)

/-- There are no other rows than those of nodes. -/
theorem exists_row_collect {pending : List Node} {r : Row} (member : r ∈ collect pending) :
    ∃ n, r = row n := by
  -- A row is added only when its node is taken from the stack.
  fun_induction collect with
  | case1 => cases member
  | case2 first pending ih =>
    rcases List.mem_cons.mp member with rfl | later
    · exact ⟨first, rfl⟩
    · exact ih later

/-- Ordering keeps the rows. -/
theorem rows_perm (tree : Node) : (ofNode tree).rows.Perm (collect [tree]) :=
  List.mergeSort_perm _ _

/-- The rows have the numbers of the tree. -/
theorem ids_perm (tree : Node) : ((ofNode tree).rows.map Row.id).Perm tree.ids := by
  -- The stack starts with the tree alone, and sorting keeps all rows.
  have collected := ids_collect [tree]
  rw [idsAll, idsAll, List.append_nil] at collected
  exact ((rows_perm tree).map _).trans collected

/-- The root and the references name every row once. -/
theorem references_perm (tree : Node) :
    ((ofNode tree).root :: (ofNode tree).rows.flatMap Row.references).Perm
      ((ofNode tree).rows.map Row.id) := by
  -- As for the numbers, the stack starts with the tree alone.
  have collected := references_collect [tree]
  rw [idsAll, idsAll, List.append_nil] at collected
  exact ((((rows_perm tree).flatMap_right _).cons _).trans collected).trans (ids_perm tree).symm

/-- Every node has its row in the table. -/
theorem row_mem (within : n.Within tree) : row n ∈ (ofNode tree).rows :=
  (rows_perm tree).mem_iff.mpr (row_mem_collect (.head _) within)

/-- There are no other rows in a table than those of nodes. -/
theorem exists_row {r : Row} (member : r ∈ (ofNode tree).rows) : ∃ n, r = row n :=
  exists_row_collect ((rows_perm tree).mem_iff.mp member)

/-- The rows are ordered by number. -/
theorem rows_sorted (tree : Node) :
    ((ofNode tree).rows.map Row.id).Pairwise (· ≤ ·) := by
  rw [List.pairwise_map]
  apply List.Pairwise.imp of_decide_eq_true
  -- Comparing numbers is an order on the rows in which none is left out.
  apply List.pairwise_mergeSort
  · intro a b c first second
    simp only [decide_eq_true_eq] at first second ⊢
    omega
  · intro a b
    simp only [Bool.or_eq_true, decide_eq_true_eq]
    omega

/-- Where the nodes are numbered densely from zero, each row has its own place for a number. -/
theorem ids_eq_range (dense : tree.ids.Perm ((List.range tree.size).map Int.ofNat)) :
    (ofNode tree).rows.map Row.id = (List.range tree.size).map Int.ofNat := by
  -- The rows are sorted by number, and so is the range, so they agree place by place.
  have ascends : ((List.range tree.size).map Int.ofNat).Pairwise (· ≤ ·) := by
    rw [List.pairwise_map]
    exact List.pairwise_le_range.imp Int.ofNat_le.mpr
  exact ((ids_perm tree).trans dense).eq_of_pairwise' (rows_sorted tree) ascends

end Table

end BlockCode
