import BlockCode.Proofs.Instruction.Assembly

/-! Where the parts of a tree lie in its code, and which instructions belong to none of them. The
jumps of a node lead to the ends of its parts, so no jump leads into a part from outside. -/

namespace BlockCode

namespace Node

mutual

/-- The number of instructions in the code of a tree. -/
def span : Node → Nat
  | declare .. => 2
  -- The instruction of an assignment or of a print stands behind the value.
  | assign _ _ value | print _ value => value.span + 1
  | program _ body | block _ body => spans body
  -- Each branch is preceded by the jump over it or into the other one.
  | choose _ condition yes => condition.span + 1 + yes.span
  | chooseElse _ condition yes no => condition.span + 1 + yes.span + 1 + no.span
  | loop _ condition body => condition.span + 1 + body.span + 1
  -- An operator without an opcode has no instruction.
  | binary _ left operator right =>
    left.span + right.span + (Operator.ofKind? operator.kind).toList.length
  | literal .. | use .. => 1
  | unknown .. => 0

/-- The number of instructions in the code of some trees in turn. -/
def spans : List Node → Nat
  -- Nothing stands between two codes.
  | [] => 0
  | n :: ns => n.span + spans ns

end

/-- Some trees in turn, with the addresses where their codes start. -/
def inTurn (base : Nat) : List Node → List (Node × Nat)
  -- Each tree starts where the one before it ends.
  | [] => []
  | n :: ns => (n, base) :: inTurn (base + n.span) ns

/-- The trees below the root of a tree, with the addresses where their codes start. -/
def parts (base : Nat) : Node → List (Node × Nat)
  | program _ body | block _ body => inTurn base body
  | assign _ _ value | print _ value => [(value, base)]
  -- The conditional jump stands between the condition and the branch.
  | choose _ condition yes => [(condition, base), (yes, base + condition.span + 1)]
  | chooseElse _ condition yes no =>
    [(condition, base), (yes, base + condition.span + 1),
      -- The jump behind the first branch is counted too.
      (no, base + condition.span + 1 + yes.span + 1)]
  | loop _ condition body => [(condition, base), (body, base + condition.span + 1)]
  -- The operator stands behind both operands.
  | binary _ left _ right => [(left, base), (right, base + left.span)]
  | declare .. | literal .. | use .. | unknown .. => []

/-- A tree lies in another one with its code from an address on, given the address where the code of
the other one starts. -/
inductive Lies (m : Node) (start : Nat) : Node → Nat → Prop where
  | here : Lies m start m start
  | inside {n : Node} {base : Nat} {part : Node × Nat} (member : part ∈ n.parts base)
      (lies : Lies m start part.1 part.2) : Lies m start n base

/-- The code of one of two parts ends before that of the other one starts. -/
def Apart (part other : Node × Nat) : Prop :=
  part.2 + part.1.span ≤ other.2 ∨ other.2 + other.1.span ≤ part.2

instance : Std.Symm Apart := ⟨fun _ _ => Or.symm⟩

/-- Some trees in turn are all there. -/
theorem map_inTurn (base : Nat) (ns : List Node) : (inTurn base ns).map Prod.fst = ns := by
  -- Only the addresses are added.
  induction ns generalizing base with
  | nil => rfl
  | cons n ns ih => simp [inTurn, ih]

/-- The parts of a tree are what is below its root. -/
theorem map_parts (base : Nat) (n : Node) : (n.parts base).map Prod.fst = n.children := by
  cases n <;> simp [parts, children, map_inTurn]

/-- Trees in turn lie between the start of the first one and the end of the last one. -/
theorem inTurn_bounds {base : Nat} {ns : List Node} {part : Node × Nat}
    (member : part ∈ inTurn base ns) :
    base ≤ part.2 ∧ part.2 + part.1.span ≤ base + spans ns := by
  induction ns generalizing base with
  | nil => cases member
  | cons n ns ih =>
    rw [spans]
    rcases List.mem_cons.mp member with rfl | later
    · simp
    · -- The others start where the first one ends.
      have behind := ih later
      omega

/-- Trees in turn lie apart. -/
theorem pairwise_inTurn (base : Nat) (ns : List Node) : (inTurn base ns).Pairwise Apart := by
  -- All trees behind the first one start at its end or later.
  induction ns generalizing base with
  | nil => exact .nil
  | cons n ns ih => exact .cons (fun part later => .inl (inTurn_bounds later).1) (ih _)

/-- The parts of a tree lie in it. -/
theorem parts_bounds {base : Nat} {n : Node} {part : Node × Nat} (member : part ∈ n.parts base) :
    base ≤ part.2 ∧ part.2 + part.1.span ≤ base + n.span := by
  cases n with
  | program mark body => exact inTurn_bounds member
  | block mark body => exact inTurn_bounds member
  | declare | literal | use | unknown => cases member
  | _ =>
    -- There are three parts at most, and each is looked at.
    simp only [parts, List.mem_cons, List.not_mem_nil, or_false] at member
    rcases member with rfl | rfl | rfl <;> simp only [span] <;> omega

/-- The parts of a tree lie apart. -/
theorem pairwise_parts (base : Nat) (n : Node) : (n.parts base).Pairwise Apart := by
  cases n with
  | program mark body => exact pairwise_inTurn base body
  | block mark body => exact pairwise_inTurn base body
  | chooseElse =>
    -- The condition and the second branch have the first one between them.
    simp [parts, Apart]
    omega
  | _ => simp [parts, Apart]

variable {m n : Node} {base start : Nat}

/-- A part stands below the root. -/
theorem mem_children {part : Node × Nat} (member : part ∈ n.parts base) : part.1 ∈ n.children := by
  -- The parts are the children, each with its address.
  rw [← map_parts base n]
  exact List.mem_map_of_mem member

/-- The code of a tree lies inside that of a tree around it. -/
theorem Lies.bounds (lies : m.Lies start n base) :
    base ≤ start ∧ start + m.span ≤ base + n.span := by
  -- Each tree on the way down lies in the one before.
  induction lies with
  | here => exact ⟨Nat.le_refl _, Nat.le_refl _⟩
  | inside member lies ih =>
    have within := parts_bounds member
    omega

/-- A tree that lies in a part of another one lies in that one. -/
theorem Lies.trans {r : Node} {origin : Nat} (inner : m.Lies start n base)
    (outer : n.Lies base r origin) : m.Lies start r origin := by
  -- The way outside is followed first, and then the way inside.
  induction outer with
  | here => exact inner
  | inside member lies ih => exact .inside member ih

/-- A tree that lies in another one stands in it. -/
theorem Lies.within (lies : m.Lies start n base) : m.Within n := by
  -- Forgetting the addresses, the way down is the same.
  induction lies with
  | here => exact .root
  | inside member lies ih => exact .inside (mem_children member) ih

/-- Every node of a tree has its place in the code. -/
theorem Within.lies (within : m.Within n) (base : Nat) : ∃ start, m.Lies start n base := by
  induction within generalizing base with
  | root => exact ⟨base, .here⟩
  | @inside child n member within ih =>
    -- What is below the root is one of the parts, with an address of its own.
    rw [← map_parts base n, List.mem_map] at member
    obtain ⟨part, member, rfl⟩ := member
    obtain ⟨start, lies⟩ := ih part.2
    exact ⟨start, .inside member lies⟩

/-- The jumps of a node itself, with their addresses and targets, given the address where the code
of the node starts. -/
inductive Jump : Node → Nat → Opcode → Nat → Nat → Prop where
  | skip (mark : Mark) (condition yes : Node) (base : Nat) :
      Jump (.choose mark condition yes) base .jumpIfFalse (base + condition.span)
        (base + condition.span + 1 + yes.span)
  | other (mark : Mark) (condition yes no : Node) (base : Nat) :
      Jump (.chooseElse mark condition yes no) base .jumpIfFalse (base + condition.span)
        (base + condition.span + 1 + yes.span + 1)
  | skipElse (mark : Mark) (condition yes no : Node) (base : Nat) :
      Jump (.chooseElse mark condition yes no) base .jump (base + condition.span + 1 + yes.span)
        (base + condition.span + 1 + yes.span + 1 + no.span)
  | leave (mark : Mark) (condition body : Node) (base : Nat) :
      Jump (.loop mark condition body) base .jumpIfFalse (base + condition.span)
        (base + condition.span + 1 + body.span + 1)
  | again (mark : Mark) (condition body : Node) (base : Nat) :
      Jump (.loop mark condition body) base .jump (base + condition.span + 1 + body.span) base

namespace Jump

variable {op : Opcode} {address target : Nat}

/-- The jumps of a node do not leave its code. -/
theorem bounds (jump : Jump n base op address target) :
    base ≤ target ∧ target ≤ base + n.span := by
  cases jump <;> simp only [span] <;> omega

/-- The jumps of a node do not lead into its parts. -/
theorem apart (jump : Jump n base op address target) {part : Node × Nat}
    (member : part ∈ n.parts base) : target ≤ part.2 ∨ part.2 + part.1.span ≤ target := by
  cases jump <;> simp only [parts, List.mem_cons, List.not_mem_nil, or_false] at member
  -- One by one, the part ends before the target or starts behind it.
  all_goals rcases member with rfl | rfl | rfl
  all_goals simp only; omega

/-- A jump leads forward, except for the one from the end of a loop to its start. -/
theorem forward (jump : Jump n base op address target) : address < target ∨
    (∃ mark condition body, n = .loop mark condition body) ∧ op = .jump ∧ target = base ∧
      address + 1 = base + n.span := by
  -- Of all jumps, only the last instruction of a loop leads back.
  cases jump with
  | again mark condition body =>
    refine .inr ⟨⟨mark, condition, body, rfl⟩, rfl, rfl, ?_⟩
    simp only [span]
    omega
  | _ => exact .inl (by omega)

end Jump

end Node

namespace Code

open Node

variable {resolution : Resolution}

mutual

/-- The code of a tree is as long wherever it starts. -/
theorem length_assemble (base : Nat) : ∀ n : Node, (assemble resolution base n).length = n.span
  -- Jumps have targets of any size in one instruction, so the address does not matter.
  | .declare .. | .literal .. | .use .. | .unknown .. => by simp [span]
  | .assign _ _ value | .print _ value => by simp [span, length_assemble _ value]
  | .program _ body | .block _ body => by
    rw [assemble, span]
    exact length_assembleAll base body
  | .choose _ condition yes => by
    simp [span, length_assemble _ condition, length_assemble _ yes]
    omega
  | .chooseElse _ condition yes no => by
    simp [span, length_assemble _ condition, length_assemble _ yes, length_assemble _ no]
    omega
  | .loop _ condition body => by
    simp [span, length_assemble _ condition, length_assemble _ body]
    omega
  | .binary _ left _ right => by
    simp [span, length_assemble _ left, length_assemble _ right]
    omega

/-- The code of some trees in turn is as long wherever it starts. -/
theorem length_assembleAll (base : Nat) :
    ∀ ns : List Node, (assembleAll resolution base ns).length = spans ns
  -- The lengths add up, and each tree starts where the one before it ends.
  | [] => by simp [spans]
  | n :: ns => by simp [spans, length_assemble _ n, length_assembleAll _ ns]

end

/-- The code of a tree has an instruction at an address, given the address where that code
starts. -/
def Has (resolution : Resolution) (n : Node) (base : Nat) (i : Instruction) (address : Nat) :
    Prop :=
  (i, address) ∈ (assemble resolution base n).zipIdx base

/-- The instructions of a tree that belong to none of its parts, with their addresses. -/
def own (resolution : Resolution) (base : Nat) : Node → List (Instruction × Nat)
  | .declare mark name =>
    [(⟨.push, some 0, some s!"init {name.lexeme}"⟩, base),
      (⟨.store, resolution[mark.id]?, none⟩, base + 1)]
  | .assign mark name value =>
    [(⟨.store, resolution[mark.id]?, some s!"assign {name.lexeme}"⟩, base + value.span)]
  | .print _ value => [(⟨.print, none, none⟩, base + value.span)]
  -- The jumps are those of the node, with their comments.
  | .choose _ condition yes =>
    [(toward .jumpIfFalse (base + condition.span + 1 + yes.span) "if false", base + condition.span)]
  | .chooseElse _ condition yes no =>
    [(toward .jumpIfFalse (base + condition.span + 1 + yes.span + 1) "if false",
        base + condition.span),
      (toward .jump (base + condition.span + 1 + yes.span + 1 + no.span) "skip else",
        base + condition.span + 1 + yes.span)]
  | .loop _ condition body =>
    [(toward .jumpIfFalse (base + condition.span + 1 + body.span + 1) "exit loop",
        base + condition.span),
      (toward .jump base "loop", base + condition.span + 1 + body.span)]
  | .binary _ left operator right =>
    (Operator.ofKind? operator.kind).toList.map fun op =>
      (⟨.binary op, none, none⟩, base + left.span + right.span)
  | .literal _ value => [(⟨.push, some value, none⟩, base)]
  | .use mark name => [(⟨.load, resolution[mark.id]?, some s!"load {name.lexeme}"⟩, base)]
  -- Statements in turn need nothing between them.
  | .program .. | .block .. | .unknown .. => []

/-- The instructions of trees in turn are those of one of them. -/
theorem mem_assembleAll {base address : Nat} {i : Instruction} {ns : List Node} :
    (i, address) ∈ (assembleAll resolution base ns).zipIdx base ↔
      ∃ part ∈ inTurn base ns, Has resolution part.1 part.2 i address := by
  induction ns generalizing base with
  | nil => simp [inTurn]
  | cons n ns ih =>
    -- The addresses of the others go on where the first tree ends.
    rw [assembleAll, List.zipIdx_append, List.mem_append, length_assemble, ih]
    simp [inTurn, Has]

/-- Every instruction of a tree is one of the root itself or one of a part. -/
theorem has_iff {n : Node} {base address : Nat} {i : Instruction} :
    Has resolution n base i address ↔ (i, address) ∈ own resolution base n ∨
      ∃ part ∈ n.parts base, Has resolution part.1 part.2 i address := by
  cases n with
  | program mark body => simpa [Has, own, parts] using mem_assembleAll
  | block mark body => simpa [Has, own, parts] using mem_assembleAll
  | binary mark left operator right =>
    -- There is one instruction behind the operands, or none.
    cases known : Operator.ofKind? operator.kind <;>
      simp [Has, own, parts, List.zipIdx_append, length_assemble, known, or_assoc, or_comm]
  | _ =>
    -- The parts come in their order, with the instructions of the root between them.
    simp only [Has, own, parts, assemble, List.append_assoc, List.cons_append, List.zipIdx_append,
      List.zipIdx_cons, List.zipIdx_nil, length_assemble, List.mem_append, List.mem_cons,
      List.not_mem_nil, exists_eq_or_imp]
    tauto

variable {m n : Node} {base start address target : Nat} {op : Opcode} {i j : Instruction}

/-- The jumps among the instructions of a node are its jumps. -/
theorem jump_of_own (mine : (i, address) ∈ own resolution base n)
    (jumps : i.op = .jump ∨ i.op = .jumpIfFalse) :
    ∃ target : Nat, i.operand = some (target : Int) ∧ n.Jump base i.op address target := by
  cases n with
  | choose mark condition yes =>
    simp only [own, List.mem_singleton, Prod.mk.injEq] at mine
    obtain ⟨rfl, rfl⟩ := mine
    exact ⟨_, rfl, .skip ..⟩
  | chooseElse mark condition yes no =>
    simp only [own, List.mem_cons, List.not_mem_nil, or_false, Prod.mk.injEq] at mine
    rcases mine with ⟨rfl, rfl⟩ | ⟨rfl, rfl⟩
    · exact ⟨_, rfl, .other ..⟩
    · exact ⟨_, rfl, .skipElse ..⟩
  | loop mark condition body =>
    simp only [own, List.mem_cons, List.not_mem_nil, or_false, Prod.mk.injEq] at mine
    rcases mine with ⟨rfl, rfl⟩ | ⟨rfl, rfl⟩
    · exact ⟨_, rfl, .leave ..⟩
    · exact ⟨_, rfl, .again ..⟩
  -- No other node has a jump.
  | _ => grind [own]

/-- The jumps of a node are among its instructions. -/
theorem own_of_jump (jump : n.Jump base op address target) :
    ∃ comment, (⟨op, some (target : Int), comment⟩, address) ∈ own resolution base n := by
  -- Each kind of jump is the first or the second among the instructions of its node.
  cases jump with
  | skip | other | leave => exact ⟨_, .head _⟩
  | skipElse | again => exact ⟨_, .tail _ (.head _)⟩

/-- Only declarations and assignments store, each to its own slot. -/
theorem own_store (mine : (i, address) ∈ own resolution base n) (stores : i.op = .store) :
    i.operand = resolution[n.id]? ∧
      ((∃ mark name, n = .declare mark name) ∨ ∃ mark name value, n = .assign mark name value) := by
  cases n with
  | declare mark name =>
    refine ⟨?_, .inl ⟨mark, name, rfl⟩⟩
    simp only [own, List.mem_cons, List.not_mem_nil, or_false, Prod.mk.injEq] at mine
    rcases mine with ⟨rfl, rfl⟩ | ⟨rfl, rfl⟩
    · -- The first instruction of a declaration pushes the value.
      cases stores
    · rfl
  | assign mark name value =>
    refine ⟨?_, .inr ⟨mark, name, value, rfl⟩⟩
    simp only [own, List.mem_singleton, Prod.mk.injEq] at mine
    obtain ⟨rfl, rfl⟩ := mine
    rfl
  | _ => grind [own, toward]

/-- No instruction of a tree halts. -/
theorem own_ne_halt (mine : (i, address) ∈ own resolution base n) : i.op ≠ .halt := by
  cases n <;> grind [own, toward]

namespace Has

/-- The instructions of a tree stand between the start and the end of its code. -/
theorem bounds (has : Has resolution n base i address) :
    base ≤ address ∧ address < base + n.span := by
  -- An address is an index into the code of the tree, counted from its start.
  obtain ⟨above, below, _⟩ := List.mem_zipIdx has
  rw [length_assemble] at below
  exact ⟨above, below⟩

/-- There is one instruction at an address. -/
theorem unique (has : Has resolution n base i address) (other : Has resolution n base j address) :
    i = j := by
  -- The address is an index, and there is one instruction at each.
  obtain ⟨_, _, first⟩ := List.mem_zipIdx has
  obtain ⟨_, _, second⟩ := List.mem_zipIdx other
  rw [first, second]

/-- The instructions of a tree are instructions of a tree around it. -/
theorem widen (has : Has resolution m start i address) (lies : m.Lies start n base) :
    Has resolution n base i address := by
  -- At each tree on the way out, what its part has it has too.
  induction lies with
  | here => exact has
  | inside member lies ih => exact has_iff.mpr (.inr ⟨_, member, ih⟩)

/-- An instruction that stands where the code of a tree lies is one of the tree. -/
theorem narrow (has : Has resolution n base i address) (lies : m.Lies start n base)
    (above : start ≤ address) (below : address < start + m.span) :
    Has resolution m start i address := by
  -- There is an instruction of the tree at the address, and no other one.
  obtain ⟨j, found⟩ : ∃ j, (assemble resolution start m)[address - start]? = some j := by
    have length := @length_assemble resolution start m
    exact ⟨_, List.getElem?_eq_getElem (by omega)⟩
  have inner : Has resolution m start j address :=
    List.mk_mem_zipIdx_iff_le_and_getElem?_sub.mpr ⟨above, found⟩
  rw [has.unique (inner.widen lies)]
  exact inner

/-- Every instruction belongs to a node. -/
theorem owner (has : Has resolution n base i address) :
    ∃ (m : Node) (start : Nat), m.Lies start n base ∧ (i, address) ∈ own resolution start m := by
  -- The part that has the instruction is searched until it is the instruction of a root.
  induction n using Node.below_induction generalizing base with
  | each n ih =>
    rcases has_iff.mp has with mine | ⟨part, member, has⟩
    · exact ⟨n, base, .here, mine⟩
    · obtain ⟨m, start, lies, mine⟩ := ih part.1 (mem_children member) has
      exact ⟨m, start, .inside member lies, mine⟩

/-- Every jump belongs to a node. -/
theorem jump (has : Has resolution n base i address) (jumps : i.op = .jump ∨ i.op = .jumpIfFalse) :
    ∃ (m : Node) (start target : Nat), m.Lies start n base ∧
      i.operand = some (target : Int) ∧ m.Jump start i.op address target := by
  -- An instruction belongs to one node, and among those of a node the jumps are known.
  obtain ⟨m, start, lies, mine⟩ := has.owner
  obtain ⟨target, leads, jump⟩ := jump_of_own mine jumps
  exact ⟨m, start, target, lies, leads, jump⟩

/-- The jumps of a tree do not leave its code. -/
theorem confined (has : Has resolution n base i address)
    (jumps : i.op = .jump ∨ i.op = .jumpIfFalse) (leads : i.operand = some (target : Int)) :
    base ≤ target ∧ target ≤ base + n.span := by
  -- The jump stays in the code of the node that it belongs to.
  obtain ⟨m, start, t, lies, same, jump⟩ := has.jump jumps
  rw [leads, Option.some.injEq, Int.natCast_inj] at same
  have narrow := jump.bounds
  have wide := lies.bounds
  omega

/-- A jump from outside does not lead into the code of a tree. -/
theorem apart (has : Has resolution n base i address) (jumps : i.op = .jump ∨ i.op = .jumpIfFalse)
    (leads : i.operand = some (target : Int)) (lies : m.Lies start n base)
    (outside : ¬ (start ≤ address ∧ address < start + m.span)) :
    target ≤ start ∨ start + m.span ≤ target := by
  -- The induction goes down to the tree, from one part to the next.
  induction lies with
  | here => exact absurd has.bounds outside
  | @inside n base part member lies ih =>
    have narrow := lies.bounds
    rcases has_iff.mp has with mine | ⟨other, known, has⟩
    · -- A jump of the node itself leads to an end of the part.
      obtain ⟨t, same, jump⟩ := jump_of_own mine jumps
      rw [leads, Option.some.injEq, Int.natCast_inj] at same
      have ends := jump.apart member
      omega
    · by_cases equal : other = part
      · exact ih (equal ▸ has)
      · -- A jump of another part stays there.
        have confined := has.confined jumps leads
        rcases (pairwise_parts base n).forall known member equal with before | behind <;> omega

end Has

/-- The code of a tree from an address on. Jumps leave it and enter it at its ends only. -/
structure Segment (resolution : Resolution) (code : Code) (m : Node) (start : Nat) : Prop where
  contents : assemble resolution start m <+: code.toList.drop start
  inside : ∀ (address : Nat) op (target : Nat), op = .jump ∨ op = .jumpIfFalse →
    code.At address op (some (target : Int)) → start ≤ address → address < start + m.span →
      start ≤ target ∧ target ≤ start + m.span
  outside : ∀ (address : Nat) op (target : Nat), op = .jump ∨ op = .jumpIfFalse →
    code.At address op (some (target : Int)) → address < start ∨ start + m.span ≤ address →
      target ≤ start ∨ start + m.span ≤ target

section Program

variable {mark : Mark} {body : List Node} {code : Code}
  (generated : generate resolution (.program mark body) = .ok code)

include generated

/-- The code of a program is that of its tree and a halt. -/
theorem getElem?_generate : code[address]? = some i ↔
    Has resolution (.program mark body) 0 i address ∨
      i = ⟨.halt, none, none⟩ ∧ address = (Node.program mark body).span := by
  obtain ⟨_, all⟩ := generate_eq_assemble.mp generated
  -- The halt has the first address that the tree leaves free.
  have length := @length_assemble resolution 0 (.program mark body)
  rw [← Array.getElem?_toList, all, ← List.mk_mem_zipIdx_iff_getElem?, List.zipIdx_append,
    List.mem_append]
  rw [assemble] at length
  simp [Has, length]

/-- The code of a program is one longer than that of its tree. -/
theorem size_generate : code.size = (Node.program mark body).span + 1 := by
  -- The halt is the instruction more.
  obtain ⟨_, all⟩ := generate_eq_assemble.mp generated
  rw [← Array.length_toList, all, List.length_append, length_assembleAll, span]
  rfl

/-- The jumps in the code of a program are instructions of its tree. -/
theorem has_of_at {operand : Option Int} (jumps : op = .jump ∨ op = .jumpIfFalse)
    (there : code.At address op operand) :
    ∃ comment, Has resolution (.program mark body) 0 ⟨op, operand, comment⟩ address := by
  obtain ⟨comment, found⟩ := there
  rcases (getElem?_generate generated).mp found with has | ⟨halt, _⟩
  · exact ⟨comment, has⟩
  · -- The halt behind the tree is no jump.
    cases halt
    simp at jumps

/-- The jumps of the nodes of a program stand in its code. -/
theorem at_of_jump (lies : m.Lies start (.program mark body) 0)
    (jump : m.Jump start op address target) : code.At address op (some (target : Int)) := by
  -- It is an instruction of its node, so one of the tree around that node.
  obtain ⟨comment, mine⟩ := @own_of_jump resolution _ _ _ _ _ jump
  have has := (has_iff.mpr (.inl mine)).widen lies
  exact ⟨comment, (getElem?_generate generated).mpr (.inl has)⟩

/-- The code of a tree that lies in a program is a segment of the code of the program. -/
theorem segment (lies : m.Lies start (.program mark body) 0) : Segment resolution code m start where
  contents := by
    -- Instruction by instruction, what the tree has is found in the code.
    rw [List.prefix_iff_getElem?]
    intro k below
    have has : Has resolution m start (assemble resolution start m)[k] (start + k) := by
      rw [Has, List.mk_mem_zipIdx_iff_le_and_getElem?_sub]
      simp
    rw [List.getElem?_drop, Array.getElem?_toList]
    exact (getElem?_generate generated).mpr (.inl (has.widen lies))
  inside address op target jumps there above below := by
    obtain ⟨comment, has⟩ := has_of_at generated jumps there
    -- A jump that stands in the segment is one of the tree that lies there.
    exact (has.narrow lies above below).confined jumps rfl
  outside address op target jumps there outside := by
    obtain ⟨comment, has⟩ := has_of_at generated jumps there
    exact has.apart jumps rfl lies (by omega)

end Program

end Code

open Code

/-- No jump dangles or crosses. Generated code halts at its last instruction only. Every jump is one
of a choice or of a loop in the tree, and the other way round; its target lies in the code, and
behind it unless it is the one from the end of a loop to the start of that loop. Every node has its
place in the code, and its code is a segment that jumps leave and enter at the ends only. -/
theorem generate_confines {resolution : Resolution} {mark : Mark} {body : List Node} {code : Code}
    (generated : generate resolution (.program mark body) = .ok code) :
    (∀ address, (∃ operand, code.At address .halt operand) ↔ address + 1 = code.size) ∧
    (∀ address op operand, op = .jump ∨ op = .jumpIfFalse → code.At address op operand →
      ∃ (m : Node) (start target : Nat), m.Lies start (.program mark body) 0 ∧
        m.Jump start op address target ∧ operand = some (target : Int) ∧ target < code.size ∧
        (address < target ∨ (∃ mark condition repeated, m = .loop mark condition repeated) ∧
          op = .jump ∧ target = start ∧ address + 1 = start + m.span)) ∧
    (∀ (m : Node) start op address target, m.Lies start (.program mark body) 0 →
      m.Jump start op address target → code.At address op (some (target : Int))) ∧
    (∀ m : Node, m.Within (.program mark body) → ∃ start, m.Lies start (.program mark body) 0) ∧
    ∀ (m : Node) start, m.Lies start (.program mark body) 0 →
      Segment resolution code m start := by
  have size := size_generate generated
  refine ⟨?_, ?_, ?_, fun m within => within.lies 0, fun m start => segment generated⟩
  · intro address
    constructor
    · intro ⟨operand, comment, found⟩
      rcases (getElem?_generate generated).mp found with has | ⟨_, last⟩
      · -- An instruction of the tree belongs to a node, and none of those halts.
        obtain ⟨m, start, lies, mine⟩ := has.owner
        exact absurd rfl (own_ne_halt mine)
      · omega
    · intro last
      exact ⟨none, none, (getElem?_generate generated).mpr (.inr ⟨rfl, by omega⟩)⟩
  · intro address op operand jumps there
    obtain ⟨comment, has⟩ := has_of_at generated jumps there
    obtain ⟨m, start, target, lies, leads, jump⟩ := has.jump jumps
    -- The end of the tree is the address of the halt.
    have wide := lies.bounds
    have narrow := jump.bounds
    exact ⟨m, start, target, lies, jump, leads, by omega, jump.forward⟩
  · intro m start op address target lies jump
    exact at_of_jump generated lies jump

/-- A loop around a choice that has nothing to do in its first branch. -/
def emptyBranchTree : Node :=
  -- The branch to skip is empty, so the two jumps of the choice stand next to each other.
  .program ⟨0, ⟨1, 1⟩⟩ [.loop ⟨1, ⟨1, 1⟩⟩ (.literal ⟨2, ⟨1, 1⟩⟩ 1) (.chooseElse ⟨3, ⟨1, 1⟩⟩
    (.literal ⟨4, ⟨1, 1⟩⟩ 0) (.block ⟨5, ⟨1, 1⟩⟩ []) (.print ⟨6, ⟨1, 1⟩⟩ (.literal ⟨7, ⟨1, 1⟩⟩ 2)))]

/-- The last instruction of that loop leads back to its start, and the choice in it is entered and
left at its ends only. -/
theorem generate_confines_emptyBranch : ∃ code, generate ∅ emptyBranchTree = .ok code ∧
    code.size = 9 ∧ code.At 7 .jump (some 0) ∧ code.At 4 .jump (some 7) ∧
    (∀ address, (∃ operand, code.At address .halt operand) ↔ address + 1 = 9) ∧
    ∀ (address : Nat) op (target : Nat), op = .jump ∨ op = .jumpIfFalse →
      code.At address op (some (target : Int)) → address < 2 ∨ 7 ≤ address →
        target ≤ 2 ∨ 7 ≤ target := by
  have generated : generate ∅ emptyBranchTree = .ok _ := rfl
  obtain ⟨halts, _, _, _, segments⟩ := generate_confines generated
  -- The choice lies behind the condition of the loop and the jump out of it.
  have choice := segments _ 2 (.inside (.head _) (.inside (.tail _ (.head _)) .here))
  exact ⟨_, generated, rfl, ⟨_, rfl⟩, ⟨_, rfl⟩, halts, choice.outside⟩

end BlockCode
