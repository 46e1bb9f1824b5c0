import BlockCode.Proofs.Grammar.Numbered

/-! The nodes that stand in a tree, whatever its shape. Where no number is given out twice, each of
them is known by its number. -/

namespace BlockCode.Node

/-- A node stands in a tree: it is the root, or it stands in what is below the root. -/
inductive Within (m : Node) : Node → Prop where
  | root : Within m m
  | inside {child n : Node} (member : child ∈ n.children) (within : Within m child) : Within m n

/-- Each of some trees has at most as many nodes as all of them. -/
theorem size_le_sizes {n : Node} {ns : List Node} (member : n ∈ ns) : n.size ≤ sizes ns := by
  -- The nodes of all trees are counted together, those of the first and those of the others.
  induction ns with
  | nil => cases member
  | cons first ns ih =>
    rw [sizes]
    rcases List.mem_cons.mp member with rfl | later
    · omega
    · have bound := ih later
      omega

/-- What holds of a tree whenever it holds of the trees below its root holds of all trees. -/
theorem below_induction {P : Node → Prop}
    (each : ∀ n : Node, (∀ child ∈ n.children, P child) → P n) (n : Node) : P n := by
  -- The induction is on the number of nodes, which is smaller for every tree below the root.
  induction size : n.size using Nat.strongRecOn generalizing n with
  | ind bound ih =>
    apply each
    intro child member
    have smaller := size_le_sizes member
    rw [size_eq] at size
    exact ih child.size (by omega) child rfl

variable {m n r : Node}

/-- The numbers of a tree are that of its root and those below. -/
theorem ids_eq (n : Node) : n.ids = n.id :: idsAll n.children := by
  cases n <;> simp [ids, idsAll, children, id, mark]

/-- The numbers of one of some trees are among theirs. -/
theorem ids_sublist {ns : List Node} (member : n ∈ ns) : n.ids.Sublist (idsAll ns) := by
  -- The numbers of the first tree come before those of the others.
  induction ns with
  | nil => cases member
  | cons first ns ih =>
    rcases List.mem_cons.mp member with rfl | later
    · exact List.sublist_append_left _ _
    · exact (ih later).trans (List.sublist_append_right _ _)

/-- A number belongs to one of some trees only. -/
theorem eq_of_mem_ids {ns : List Node} {number : Int} (distinct : (idsAll ns).Nodup)
    (first : m ∈ ns) (second : n ∈ ns) (inside : number ∈ m.ids) (inside' : number ∈ n.ids) :
    m = n := by
  induction ns with
  | nil => cases first
  | cons front ns ih =>
    rw [idsAll] at distinct
    have apart := List.disjoint_of_nodup_append distinct
    -- If only one of the trees comes first, the number is also given out behind it.
    rcases List.mem_cons.mp first with rfl | later <;>
      rcases List.mem_cons.mp second with rfl | later'
    · rfl
    · exact absurd ((ids_sublist later').mem inside') (apart inside)
    · exact absurd ((ids_sublist later).mem inside) (apart inside')
    · exact ih distinct.of_append_right later later'

namespace Within

/-- What is directly below a node of a tree stands in the tree. -/
theorem child (within : n.Within r) (member : m ∈ n.children) : m.Within r := by
  -- The way down to the node is prolonged by one step.
  induction within with
  | root => exact .inside member .root
  | inside outer _ ih => exact .inside outer ih

/-- The number of a node is among those of the tree. -/
theorem id_mem (within : m.Within n) : m.id ∈ n.ids := by
  -- The numbers below the root are all those of the trees there.
  induction within with
  | root =>
    rw [ids_eq]
    exact .head _
  | inside member within ih =>
    rw [ids_eq]
    exact .tail _ ((ids_sublist member).mem ih)

/-- In a tree without repeated numbers, a node is known by its number. -/
theorem eq_of_id (distinct : r.ids.Nodup) (first : m.Within r) (second : n.Within r)
    (same : m.id = n.id) : m = n := by
  -- The number leads down from the root to the same tree for both nodes.
  induction r using Node.below_induction with
  | each r ih =>
    rw [ids_eq, List.nodup_cons] at distinct
    cases first with
    | root =>
      cases second with
      | root => rfl
      | inside member within =>
        -- The number of the root does not come again below it.
        exact absurd ((ids_sublist member).mem (same ▸ within.id_mem)) distinct.1
    | @inside child _ member within =>
      cases second with
      | root => exact absurd ((ids_sublist member).mem (same ▸ within.id_mem)) distinct.1
      | inside member' within' =>
        -- Both stand in the tree that the number belongs to.
        obtain rfl := eq_of_mem_ids distinct.2 member member' within.id_mem
          (same ▸ within'.id_mem)
        exact ih child member (distinct.2.sublist (ids_sublist member)) within within'

end Within

end BlockCode.Node
