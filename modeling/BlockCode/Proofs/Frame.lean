import BlockCode.Proofs.Instruction.Level
import BlockCode.Proofs.Safety

/-! What a block leaves as it was: the operand stack, and every variable from outside that it does
not assign to. -/

namespace BlockCode

namespace Node

variable {n : Node}

/-- The places of some trees are those of each of them. -/
theorem occurrences_subset {ns : List Node} (member : n ∈ ns) (blocks : List Int) :
    n.occurrences blocks ⊆ occurrencesAll blocks ns := by
  -- The places of the first tree come before those of the others.
  induction ns with
  | nil => cases member
  | cons first ns ih =>
    rcases List.mem_cons.mp member with rfl | later
    · exact List.subset_append_left _ _
    · exact List.Subset.trans (ih later) (List.subset_append_right _ _)

/-- What is below the root of a tree names its variables in the tree, inside one more block or
not. -/
theorem occurrences_child {child : Node} (member : child ∈ n.children) (blocks : List Int) :
    ∃ inner, child.occurrences inner ⊆ n.occurrences blocks := by
  cases n with
  | program mark body => exact ⟨blocks, occurrences_subset member blocks⟩
  | block mark body => exact ⟨mark.id :: blocks, occurrences_subset member (mark.id :: blocks)⟩
  | declare | literal | use | unknown => cases member
  | _ =>
    -- Only a block is around what is in it.
    refine ⟨blocks, ?_⟩
    simp only [children, List.mem_cons, List.not_mem_nil, or_false] at member
    rcases member with rfl | rfl | rfl <;> simp [occurrences]

/-- A declaration in a tree is one of its places. -/
theorem Within.declares {mark : Mark} {name : Token} (within : (declare mark name).Within n) :
    ∀ blocks, ∃ around, ⟨mark.id, name, true, around⟩ ∈ n.occurrences blocks := by
  -- The blocks around it are found on the way down.
  induction within with
  | root => exact fun blocks => ⟨blocks, .head _⟩
  | @inside child n member within ih =>
    intro blocks
    obtain ⟨inner, inside⟩ := occurrences_child member blocks
    obtain ⟨around, place⟩ := ih inner
    exact ⟨around, inside place⟩

end Node

open Machine Code

variable {code : Code} {start stop slotCount : Nat} {spared : Nat → Prop} {m m₁ m₂ m' : Machine}

/-- The instructions between two addresses spare some slots: they do not store to them, and they
jump to no address that is not between the two. -/
structure Sparing (code : Code) (start stop : Nat) (spared : Nat → Prop) : Prop where
  jumps : ∀ (address : Nat) op (target : Nat), op = .jump ∨ op = .jumpIfFalse →
    code.At address op (some (target : Int)) → start ≤ address → address < stop →
      start ≤ target ∧ target ≤ stop
  stores : ∀ address slot : Nat, code.At address .store (some (slot : Int)) →
    start ≤ address → address < stop → ¬ spared slot

/-- A run that started at the first of two addresses has not passed the second one. What it has put
on the stack lies on top of what was there, and what is spared is as it was. -/
structure Inside (code : Code) (start stop : Nat) (spared : Nat → Prop) (m m' : Machine) :
    Prop where
  place : ∃ address : Nat, m'.ip = address ∧ start ≤ address ∧ address ≤ stop ∧
    ∃ top, m'.stack = top ++ m.stack ∧ (top.length : Int) = code.height address
  slots : ∀ slot, spared slot → content m'.slots slot = content m.slots slot

namespace Inside

/-- A step does not lead out, and it takes nothing from the stack that was there before. -/
theorem step (fits : code.Fits slotCount)
    (sparing : Sparing code start stop spared) (inside : Inside code start stop spared m m₁)
    (short : m₁.ip ≠ stop) (within : m₁.ip < code.size) (stepped : m₁.step code = .next m₂) :
    Inside code start stop spared m m₂ := by
  obtain ⟨⟨address, ip, above, below, top, stack, height⟩, slots⟩ := inside
  have before : address < stop := by omega
  -- The instruction at hand is known by its opcode and operand alone.
  have there : code.At address code[address].op code[address].operand :=
    ⟨code[address].comment, Array.getElem?_eq_getElem (by omega)⟩
  generalize code[address].op = op, code[address].operand = operand at there
  have fit := fits.each address there.lt_size
  obtain ⟨comment, executed⟩ := step_at there ip
  obtain ⟨_, ⟨added, count, made⟩, next, changed⟩ :=
    carries_execute (executed.symm.trans stepped)
  -- The operands that the instruction takes are among those put there since the start.
  have enough := fit.pops_le there (by omega)
  have stack' : m₂.stack = (added ++ top.drop op.pops) ++ m.stack := by
    rw [made, List.append_assoc, ← List.drop_append_of_le_length (by omega), ← stack]
  have height' : ((added ++ top.drop op.pops).length : Int) =
      code.height address + op.pushes - op.pops := by
    simp only [List.length_append, List.length_drop, count]
    omega
  refine ⟨?_, ?_⟩
  · rcases next with next | ⟨jumps, leads⟩
    · -- One address on, the end has not been passed.
      have next : m₂.ip = m₁.ip + 1 := next
      refine ⟨address + 1, by omega, by omega, by omega, _, stack', ?_⟩
      rw [height', there.height_succ]
    · -- Jumps are made with no operand left.
      obtain ⟨target, rfl, _, level⟩ := fit.target there jumps
      obtain ⟨low, high⟩ := sparing.jumps address op target jumps there above before
      refine ⟨target, (Option.some.inj leads).symm, low, high, _, stack', ?_⟩
      rw [height', fit.height_jump there jumps, level]
  · intro slot spares
    rw [← slots slot spares]
    rcases changed with same | ⟨rfl, capacity, stored, value, rfl, done⟩
    · rw [same]
    · -- The slot that is stored to is not spared.
      obtain ⟨index, same, _⟩ := fit.slot there (.inr rfl)
      cases same
      have other : slot ≠ index := by
        intro same
        exact sparing.stores address index there above before (same ▸ spares)
      rw [content_store? done, if_neg other]

/-- A walk does not lead out before it comes to the end. -/
theorem walks {k : Nat} (fits : code.Fits slotCount)
    (sparing : Sparing code start stop spared) (inside : Inside code start stop spared m m₁)
    (walks : Walks code k m₁ m') (first : ∀ l < k, ∀ m₂, Walks code l m₁ m₂ → m₂.ip ≠ stop) :
    Inside code start stop spared m m' := by
  induction walks with
  | here m => exact inside
  | @step k m₁ m₂ m' within stepped further ih =>
    -- The walk has not come to the end yet, and the rest of it is one step shorter.
    have short := first 0 (Nat.succ_pos k) m₁ (.here m₁)
    apply ih (inside.step fits sparing short within stepped)
    intro l shorter m₃ walks
    exact first (l + 1) (Nat.succ_lt_succ shorter) m₃ (.step within stepped walks)

/-- At the end, where nothing of its own is left on the stack, the stack is what it was. -/
theorem stack_eq (inside : Inside code start stop spared m m') (leaves : m'.ip = stop)
    (empty : code.height stop = 0) : m'.stack = m.stack := by
  -- As many operands have been added as the height at the end says.
  obtain ⟨address, ip, _, _, top, stack, height⟩ := inside.place
  rw [leaves, Int.natCast_inj] at ip
  subst ip
  have none : top = [] := List.eq_nil_of_length_eq_zero (by omega)
  rw [stack, none, List.nil_append]

end Inside

/-- A run goes through the instructions between two addresses: it starts at the first one and goes
on until it comes to the second one. -/
structure Traverses (code : Code) (start stop k : Nat) (m m' : Machine) : Prop where
  enters : m.ip = start
  walks : Walks code k m m'
  leaves : m'.ip = stop
  first : ∀ l < k, ∀ m₁, Walks code l m m₁ → m₁.ip ≠ stop

namespace Traverses

variable {k : Nat}

/-- Every walk from the first address to the second one begins by going through. -/
theorem of_walks (enters : m.ip = start) (walks : Walks code k m m') (leaves : m'.ip = stop) :
    ∃ l m₁, Traverses code start stop l m m₁ := by
  -- If the end was reached before, that shorter walk is looked at instead.
  induction k using Nat.strongRecOn generalizing m' with
  | ind k ih =>
    by_cases earlier : ∃ l < k, ∃ m₁, Walks code l m m₁ ∧ m₁.ip = stop
    · obtain ⟨l, shorter, m₁, walks, leaves⟩ := earlier
      exact ih l shorter walks leaves
    · refine ⟨k, m', enters, walks, leaves, ?_⟩
      intro l shorter m₁ walks leaves
      exact earlier ⟨l, shorter, m₁, walks, leaves⟩

/-- A run that goes through does not lead out. -/
theorem inside (traverses : Traverses code start stop k m m')
    (fits : code.Fits slotCount)
    (sparing : Sparing code start stop spared) (empty : code.height start = 0)
    (forward : start ≤ stop) : Inside code start stop spared m m' := by
  -- In the beginning nothing has been put on the stack.
  have entered : Inside code start stop spared m m :=
    ⟨⟨start, traverses.enters, Nat.le_refl _, forward, [], rfl, by simp [empty]⟩, fun _ _ => rfl⟩
  exact entered.walks fits sparing traverses.walks traverses.first

end Traverses

/-- A slot is that of a declaration outside of a part of a tree, and of no assignment in it. -/
structure Spared (resolution : Resolution) (tree part : Node) (slot : Nat) : Prop where
  outside : ∃ mark name, (Node.declare mark name).Within tree ∧
    ¬ (Node.declare mark name).Within part ∧ resolution[mark.id]? = some (slot : Int)
  unassigned : ∀ mark name value, (Node.assign mark name value).Within part →
    resolution[mark.id]? ≠ some (slot : Int)

namespace Translation

variable {source : String} (t : Translation source code)

/-- The code of a source text is generated from its tree. -/
theorem generated (compiled : compile source = .ok code) :
    generate t.analysis.resolution t.tree = .ok code := by
  -- All passes in front of generation came to what the translation holds.
  simpa [tree, compile, t.scanned, t.parsed, resolve, t.analyzed, Bind.bind, Except.bind]
    using compiled

/-- Different declarations have different slots. -/
theorem declare_unique {mark mark' : Mark} {name name' : Token}
    (first : (Node.declare mark name).Within t.tree)
    (second : (Node.declare mark' name').Within t.tree)
    (same : t.analysis.resolution[mark.id]? = t.analysis.resolution[mark'.id]?) :
    Node.declare mark name = .declare mark' name' := by
  -- The slots tell the cells apart, and the numbers of the cells tell the nodes apart.
  have cell {mark : Mark} {name : Token} (within : (Node.declare mark name).Within t.tree) :
      mark.id ∈ t.cells := by
    obtain ⟨around, place⟩ := within.declares []
    exact t.links.declared _ place rfl
  obtain ⟨_, _, _, _, distinct⟩ := Node.parse_program t.parsed
  exact first.eq_of_id distinct second (t.links.apart _ (cell first) _ (cell second) same)

/-- The code of a part of the tree spares what belongs to declarations outside of the part and to no
assignment in it. -/
theorem sparing (compiled : compile source = .ok code) {part : Node}
    (lies : part.Lies start t.tree 0) :
    Sparing code start (start + part.span) (Spared t.analysis.resolution t.tree part) := by
  have generated := t.generated compiled
  refine ⟨(segment generated lies).inside, ?_⟩
  intro address slot ⟨comment, found⟩ above below ⟨⟨mark, name, within, outside, known⟩, others⟩
  rcases (getElem?_generate generated).mp found with has | ⟨halt, _⟩
  · -- The store belongs to a declaration or to an assignment in the part.
    obtain ⟨m, place, inner, mine⟩ := (has.narrow lies above below).owner
    obtain ⟨operand, ⟨mark', name', rfl⟩ | ⟨mark', name', value, rfl⟩⟩ := own_store mine rfl
    · -- A slot belongs to one declaration, and that one is not in the part.
      have same := t.declare_unique within (inner.trans lies).within (known.trans operand)
      exact outside (same ▸ inner.within)
    · exact others mark' name' value inner.within operand.symm
  · cases halt

end Translation

/-- Blocks cannot disturb variables that they do not assign to. Every block of a program that
compiles has its place in the code. A run that goes through the code of the block, from whatever
state, leaves the operand stack as it was, and also every slot of a declaration outside of the block
that no assignment in the block is resolved to. -/
theorem compile_frames {source : String} {code : Code} (compiled : compile source = .ok code) :
    ∃ tokens tree a, tokenize source = .ok tokens ∧ Node.parse tokens = .ok tree ∧
      Analysis.empty.program tree = .ok a ∧
    ∀ mark body, (Node.block mark body).Within tree →
      (∃ start, (Node.block mark body).Lies start tree 0) ∧
      ∀ start, (Node.block mark body).Lies start tree 0 →
        Segment a.resolution code (.block mark body) start ∧
        ∀ k m m', Traverses code start (start + (Node.block mark body).span) k m m' →
          m'.stack = m.stack ∧
          ∀ slot, Spared a.resolution tree (.block mark body) slot →
            content m'.slots slot = content m.slots slot := by
  obtain ⟨t⟩ := exists_translation compiled
  have generated := t.generated compiled
  refine ⟨t.tokens, t.tree, t.analysis, t.scanned, t.parsed, t.analyzed, ?_⟩
  intro mark body within
  refine ⟨within.lies 0, fun start lies => ⟨segment generated lies, ?_⟩⟩
  intro k m m' traverses
  obtain ⟨_, _, equal, shape, _⟩ := Node.parse_program t.parsed
  cases equal
  -- A block is a statement, so it starts and ends with an empty stack.
  obtain ⟨blockShape, empty⟩ : (Node.block mark body).IsStatement ∧ code.height start = 0 := by
    rcases poised_program generated shape lies with root | expression | statement
    · cases root
    · cases expression
    · exact statement
  have level := height_statement generated lies blockShape
  have inside := traverses.inside t.fits (t.sparing compiled lies) empty (Nat.le_add_right _ _)
  exact ⟨inside.stack_eq traverses.leaves (level.trans empty), inside.slots⟩

/-- A variable, and a block with another one of that name. -/
def hiddenSource : String := "int a; \x7b int a; a = 7; \x7d"

/-- The tokens of that program. -/
def hiddenTokens : List Token :=
  -- The inner variable has the name of the outer one, and the assignment is to it.
  [⟨.kwInt, "int", ⟨1, 1⟩⟩, ⟨.name, "a", ⟨1, 5⟩⟩, ⟨.semicolon, ";", ⟨1, 6⟩⟩,
    ⟨.openBrace, "\x7b", ⟨1, 8⟩⟩, ⟨.kwInt, "int", ⟨1, 10⟩⟩, ⟨.name, "a", ⟨1, 14⟩⟩,
    ⟨.semicolon, ";", ⟨1, 15⟩⟩, ⟨.name, "a", ⟨1, 17⟩⟩, ⟨.assign, "=", ⟨1, 19⟩⟩,
    ⟨.number, "7", ⟨1, 21⟩⟩, ⟨.semicolon, ";", ⟨1, 22⟩⟩, ⟨.closeBrace, "\x7d", ⟨1, 24⟩⟩,
    ⟨.finish, "", ⟨1, 25⟩⟩]

/-- The code of that program. -/
def hiddenCode : Code :=
  -- The slot of the outer variable is written once, at its declaration.
  #[⟨.push, some 0, some "init a"⟩, ⟨.store, some 0, none⟩, ⟨.push, some 0, some "init a"⟩,
    ⟨.store, some 1, none⟩, ⟨.push, some 7, none⟩, ⟨.store, some 1, some "assign a"⟩,
    ⟨.halt, none, none⟩]

/-- A machine in front of that block, with something on the stack and in the outer variable. -/
def hiddenState : Machine := ⟨2, [some 3], #[some 5], #[], 0⟩

/-- The machine gets through the block, and the stack and the outer variable are as before. -/
theorem compile_frames_hidden : compile hiddenSource = .ok hiddenCode ∧
    ∃ k m, Traverses hiddenCode 2 6 k hiddenState m ∧ m.stack = [some 3] ∧
      content m.slots 0 = some 5 := by
  have scanned : tokenize hiddenSource = .ok hiddenTokens := by decide +kernel
  have compiled : compile hiddenSource = .ok hiddenCode := by decide +kernel
  obtain ⟨tokens, tree, a, scanned', parsed, analyzed, frames⟩ := compile_frames compiled
  cases scanned.symm.trans scanned'
  cases parsed
  cases analyzed
  -- The four instructions of the block are executed one by one.
  have walks : Walks hiddenCode 4 hiddenState ⟨6, [some 3], #[some 5, some 7], #[], 4⟩ :=
    .step (by decide) rfl (.step (by decide) rfl (.step (by decide) rfl
      (.step (by decide) rfl (.here _))))
  obtain ⟨k, m, traverses⟩ := @Traverses.of_walks _ 2 6 _ _ _ rfl walks rfl
  refine ⟨compiled, k, m, traverses, ?_⟩
  obtain ⟨_, placed⟩ := frames _ _ (.inside (.tail _ (.head _)) .root)
  obtain ⟨_, through⟩ := placed 2 (.inside (.tail _ (.head _)) .here)
  obtain ⟨stack, slots⟩ := through k hiddenState m traverses
  refine ⟨stack, slots 0 ⟨⟨_, _, .inside (.head _) .root, ?_, ?_⟩, ?_⟩⟩
  · -- The outer declaration has a number that none of the nodes in the block has.
    intro within
    exact absurd within.id_mem (by decide)
  · decide +kernel
  · -- The slot of every node in the block is another one.
    intro mark name value within
    have number : mark.id ∈ ([2, 3, 4, 5] : List Int) := within.id_mem
    simp only [List.mem_cons, List.not_mem_nil, or_false] at number
    rcases number with known | known | known | known <;> rw [known] <;> decide +kernel

end BlockCode
