import BlockCode.Proofs.Attempt
import BlockCode.Proofs.Parse
import BlockCode.Proofs.Scope.Occurrence
import BlockCode.Scope.Resolve

/-! Resolution is static block scope: slots are given out in the order of the declarations, and
every place gets the slot of the declaration that it is bound to. -/

namespace BlockCode

open Occurrence

/-- A scope binds the names that are declared directly in one block, each to the slot that its
declaration took. -/
def Lists (declared : List Occurrence) (blocks : List Int) (scope : Scope) : Prop :=
  -- Both directions are needed: nothing else is bound, and nothing is missing.
  ∀ name slot, scope.lookup name = some slot ↔
    ∃ d, declared[slot]? = some d ∧ d.name.lexeme = name ∧ d.blocks = blocks

/-- The open scopes, from the inside out, are those of the blocks around a place and of the
program. -/
inductive Open (declared : List Occurrence) : List Int → List Scope → Prop where
  | program {scope : Scope} (lists : Lists declared [] scope) : Open declared [] [scope]
  | block {id : Int} {around : List Int} {scope : Scope} {scopes : List Scope}
      (lists : Lists declared (id :: around) scope) (outside : Open declared around scopes) :
      Open declared (id :: around) (scope :: scopes)

/-- The declarations at the slots, when one more is known. -/
theorem getElem?_declared {declared : List Occurrence} {d e : Occurrence} {slot : Nat} :
    (declared ++ [d])[slot]? = some e ↔
      declared[slot]? = some e ∨ slot = declared.length ∧ d = e := by
  -- The last one has the slot behind all others.
  rcases Nat.lt_trichotomy slot declared.length with below | rfl | above
  · rw [List.getElem?_append_left below]
    simp [Nat.ne_of_lt below]
  · simp
  · have outside : declared[slot]? = none := List.getElem?_eq_none (by omega)
    have longer : (declared ++ [d])[slot]? = none := List.getElem?_eq_none (by simp; omega)
    simp [outside, longer, Nat.ne_of_gt above]

namespace Lists

variable {declared : List Occurrence} {blocks : List Int} {scope : Scope} {d : Occurrence}

/-- A block in which nothing is declared binds no name. -/
theorem empty (untouched : ∀ d ∈ declared, d.blocks ≠ blocks) : Lists declared blocks [] := by
  -- A binding would need a declaration in the block.
  intro name slot
  refine ⟨by simp, ?_⟩
  rintro ⟨d, found, _, here⟩
  exact absurd here (untouched d (List.mem_of_getElem? found))

/-- A declaration in another block changes nothing. -/
theorem elsewhere (lists : Lists declared blocks scope) (apart : d.blocks ≠ blocks) :
    Lists (declared ++ [d]) blocks scope := by
  intro name slot
  rw [lists name slot]
  -- The slots that were taken before keep their declarations, and the new one is not in the block.
  constructor
  · rintro ⟨e, found, named, here⟩
    exact ⟨e, getElem?_declared.mpr (.inl found), named, here⟩
  · rintro ⟨e, found, named, here⟩
    rcases getElem?_declared.mp found with old | ⟨_, rfl⟩
    · exact ⟨e, old, named, here⟩
    · exact absurd here apart

/-- A declaration in the block binds its name to the next slot. -/
theorem here (lists : Lists declared blocks scope) (inside : d.blocks = blocks)
    (unbound : scope.lookup d.name.lexeme = none) :
    Lists (declared ++ [d]) blocks ((d.name.lexeme, declared.length) :: scope) := by
  intro name slot
  by_cases same : name = d.name.lexeme
  · -- No declaration in the block had the name before.
    subst same
    rw [List.lookup_cons_self, Option.some.injEq]
    constructor
    · rintro rfl
      exact ⟨d, getElem?_declared.mpr (.inr ⟨rfl, rfl⟩), rfl, inside⟩
    · rintro ⟨e, found, named, there⟩
      rcases getElem?_declared.mp found with old | ⟨last, _⟩
      · have bound := (lists d.name.lexeme slot).mpr ⟨e, old, named, there⟩
        rw [unbound] at bound
        cases bound
      · exact last.symm
  · -- The other names keep their slots.
    have differs : (name == d.name.lexeme) = false := by simpa using same
    rw [List.lookup_cons, differs]
    simp only
    rw [lists name slot]
    constructor
    · rintro ⟨e, found, named, there⟩
      exact ⟨e, getElem?_declared.mpr (.inl found), named, there⟩
    · rintro ⟨e, found, named, there⟩
      rcases getElem?_declared.mp found with old | ⟨_, rfl⟩
      · exact ⟨e, old, named, there⟩
      · exact absurd named.symm same

end Lists

namespace Open

variable {declared : List Occurrence} {blocks : List Int} {scopes : List Scope} {d : Occurrence}

/-- There is one scope for each block around a place and one for the program. -/
theorem length_eq (opened : Open declared blocks scopes) : scopes.length = blocks.length + 1 := by
  -- The two lists grow together.
  induction opened with
  | program lists => rfl
  | block lists outside ih => simp [ih]

/-- The scopes around a declaration do not change. -/
theorem around (opened : Open declared blocks scopes) (deeper : blocks.length < d.blocks.length) :
    Open (declared ++ [d]) blocks scopes := by
  -- The block of the declaration is longer than each of theirs.
  induction opened with
  | program lists =>
    refine .program (lists.elsewhere ?_)
    intro same
    simp [same] at deeper
  | @block id around scope scopes lists outside ih =>
    rw [List.length_cons] at deeper
    refine .block (lists.elsewhere ?_) (ih (by omega))
    intro same
    simp [same] at deeper

/-- A declaration in the innermost block. -/
theorem declare {inner : Scope} {outer : List Scope}
    (opened : Open declared blocks (inner :: outer)) (inside : d.blocks = blocks)
    (unbound : inner.lookup d.name.lexeme = none) :
    Open (declared ++ [d]) blocks (((d.name.lexeme, declared.length) :: inner) :: outer) := by
  -- The innermost scope takes the name, and those around it stay.
  cases opened with
  | program lists => exact .program (lists.here inside unbound)
  | block lists outside =>
    refine .block (lists.here inside unbound) (outside.around ?_)
    simp [inside]

/-- A name that is found belongs to a declaration in the innermost block that has one. -/
theorem found {name : String} {slot : Nat} (opened : Open declared blocks scopes)
    (bound : scopes.findSome? (·.lookup name) = some slot) :
    ∃ d, declared[slot]? = some d ∧ d.name.lexeme = name ∧ d.blocks <:+ blocks ∧
      ∀ other ∈ declared, other.name.lexeme = name → other.blocks <:+ blocks →
        other.blocks <:+ d.blocks := by
  -- The scopes are searched from the inside out, as the blocks are listed.
  induction opened with
  | @program scope lists =>
    have here : scope.lookup name = some slot := by simpa using bound
    obtain ⟨d, known, named, inside⟩ := (lists name slot).mp here
    exact ⟨d, known, named, by simp [inside], by simp [inside]⟩
  | @block id around scope scopes lists outside ih =>
    cases here : scope.lookup name with
    | some first =>
      simp only [List.findSome?_cons, here, Option.some.injEq] at bound
      subst bound
      obtain ⟨d, known, named, inside⟩ := (lists name first).mp here
      exact ⟨d, known, named, by simp [inside], by simp [inside]⟩
    | none =>
      simp only [List.findSome?_cons, here] at bound
      obtain ⟨d, known, named, encloses, innermost⟩ := ih bound
      refine ⟨d, known, named, encloses.trans (List.suffix_cons _ _), ?_⟩
      intro other member same reaches
      rcases List.suffix_cons_iff.mp reaches with inside | around
      · -- A declaration in the innermost block would have been found there.
        obtain ⟨index, taken⟩ := List.getElem?_of_mem member
        have bound := (lists name index).mpr ⟨other, taken, same, inside⟩
        rw [here] at bound
        cases bound
      · exact innermost other member same around

/-- Every block around a place has an open scope. -/
theorem exists_lists {path : List Int} (opened : Open declared blocks scopes)
    (around : path <:+ blocks) : ∃ scope, Lists declared path scope := by
  -- The blocks are passed from the inside out.
  induction opened with
  | program lists => exact ⟨_, List.suffix_nil.mp around ▸ lists⟩
  | block lists outside ih =>
    rcases List.suffix_cons_iff.mp around with rfl | further
    · exact ⟨_, lists⟩
    · exact ih further

/-- In a block that is open, no name is declared twice. -/
theorem unique {d' : Occurrence} (opened : Open declared blocks scopes) (member : d ∈ declared)
    (member' : d' ∈ declared) (encloses : d.blocks <:+ blocks) (blocks_eq : d.blocks = d'.blocks)
    (name_eq : d.name.lexeme = d'.name.lexeme) : d = d' := by
  -- Both would be bound to the one slot of the name.
  obtain ⟨scope, lists⟩ := opened.exists_lists encloses
  obtain ⟨slot, taken⟩ := List.getElem?_of_mem member
  obtain ⟨slot', taken'⟩ := List.getElem?_of_mem member'
  have bound := (lists d.name.lexeme slot).mpr ⟨d, taken, rfl, rfl⟩
  have bound' := (lists d.name.lexeme slot').mpr ⟨d', taken', name_eq.symm, blocks_eq.symm⟩
  rw [bound, Option.some.injEq] at bound'
  subst bound'
  rw [taken, Option.some.injEq] at taken'
  exact taken'

/-- A place denotes one declaration at most. -/
theorem denotes_unique {u d' : Occurrence} (opened : Open declared u.blocks scopes)
    (denotes : Denotes declared u d) (denotes' : Denotes declared u d') : d = d' := by
  -- Each of the two is declared in a block inside that of the other.
  have inside := denotes.innermost d' denotes'.earlier denotes'.reaches
  have around := denotes'.innermost d denotes.earlier denotes.reaches
  have same : d.blocks = d'.blocks := around.eq_of_length_le inside.length_le
  have named := denotes.reaches.1.trans denotes'.reaches.1.symm
  exact opened.unique denotes.earlier denotes'.earlier denotes.reaches.2 same named

end Open

/-- The slot of a place among the declarations before it: a declaration takes the next one, any
other place has that of the one declaration it denotes. -/
inductive Takes (declared : List Occurrence) (u : Occurrence) : Nat → Prop where
  | next (declares : u.declares = true) : Takes declared u declared.length
  | known {slot : Nat} {d : Occurrence} (refers : u.declares = false)
      (taken : declared[slot]? = some d) (denotes : Denotes declared u d)
      (only : ∀ d', Denotes declared u d' → d' = d) : Takes declared u slot

/-- A name that is looked up gives the slot of the place that has it. -/
theorem Open.takes {declared : List Occurrence} {scopes : List Scope} {u : Occurrence} {slot : Nat}
    (opened : Open declared u.blocks scopes) (refers : u.declares = false)
    (bound : scopes.findSome? (·.lookup u.name.lexeme) = some slot) : Takes declared u slot := by
  -- What the search gives is denoted, and nothing else is.
  obtain ⟨d, taken, named, encloses, innermost⟩ := opened.found bound
  have denotes : Denotes declared u d :=
    ⟨List.mem_of_getElem? taken, ⟨named, encloses⟩,
      fun other known reaches => innermost other known reaches.1 reaches.2⟩
  exact .known refers taken denotes fun d' other => (opened.denotes_unique denotes other).symm

/-- The symbols of some declarations. -/
def symbolsOf (declared : List Occurrence) : List Symbol :=
  declared.mapIdx fun slot d => ⟨d.name.lexeme, slot, d.blocks.length, d.name.position⟩

/-- What is known about the variables is what was declared so far, seen from inside some blocks. -/
structure Mirrors (a : Analysis) (blocks : List Int) (declared : List Occurrence) : Prop where
  count : a.table.slotCount = declared.length
  scopes : Open declared blocks (a.table.inner :: a.table.outer)
  symbols : a.symbols.toList = symbolsOf declared

/-- Some places have received their slots, and no other place has been touched. -/
structure Settles (declared places : List Occurrence) (before after : Resolution) : Prop where
  slots : ∀ front u back, places = front ++ u :: back →
    ∃ slot : Nat, after[u.id]? = some (slot : Int) ∧ Takes (declared ++ declarations front) u slot
  others : ∀ id, id ∉ places.map (·.id) → after[id]? = before[id]?

/-- The numbers of a tree are not those of the blocks around it or of the blocks around anything
declared before. -/
structure Fresh (blocks : List Int) (declared : List Occurrence) (ids : List Int) : Prop where
  around : ∀ block ∈ blocks, block ∉ ids
  before : ∀ d ∈ declared, ∀ block ∈ d.blocks, block ∉ ids

/-- Fewer numbers meet the same ones less. -/
theorem Fresh.mono {blocks ids ids' : List Int} {declared : List Occurrence}
    (fresh : Fresh blocks declared ids) (fewer : ids' ⊆ ids) : Fresh blocks declared ids' :=
  -- What none of the numbers is, none of fewer numbers is.
  ⟨fun block around inside => fresh.around block around (fewer inside),
    fun d member block around inside => fresh.before d member block around (fewer inside)⟩

/-- The blocks of a part of a tree have numbers that what follows the part does not have. -/
theorem Fresh.behind {blocks ids others : List Int} {declared places : List Occurrence}
    (fresh : Fresh blocks declared (ids ++ others)) (placed : Node.Placed blocks ids places)
    (apart : List.Disjoint ids others) :
    Fresh blocks (declared ++ declarations places) others := by
  -- A declaration in the part is around the part itself or in a block of it.
  have behind := fresh.mono (List.subset_append_right ids others)
  refine ⟨behind.around, ?_⟩
  intro d member block around inside
  rcases List.mem_append.mp member with old | new
  · exact behind.before d old block around inside
  · rcases placed.around d (List.mem_of_mem_filter new) block around with outside | within
    · exact behind.around block outside inside
    · exact apart within inside

/-- Inside a block, its own number is one of those around. -/
theorem Fresh.inside {blocks ids : List Int} {declared : List Occurrence} {id : Int}
    (fresh : Fresh blocks declared (id :: ids)) (apart : id ∉ ids) :
    Fresh (id :: blocks) declared ids := by
  -- The number of the block is none of those inside it, and it is left to them alone.
  have below := fresh.mono (List.subset_cons_self id ids)
  exact ⟨List.forall_mem_cons.mpr ⟨apart, below.around⟩, below.before⟩

/-- Nothing has been declared directly in a block that is opened. -/
theorem Mirrors.enter {a : Analysis} {blocks ids : List Int} {declared : List Occurrence} {id : Int}
    (mirrors : Mirrors a blocks declared) (fresh : Fresh blocks declared (id :: ids)) :
    Mirrors a.enter (id :: blocks) declared := by
  -- A declaration directly in the block would have its number, which is a fresh one.
  refine ⟨mirrors.count, .block (.empty ?_) mirrors.scopes, mirrors.symbols⟩
  intro d member same
  exact fresh.before d member id (by simp [same]) (.head _)

/-- Places that follow others receive their slots after them. -/
theorem Settles.append {declared places more : List Occurrence} {r₀ r₁ r₂ : Resolution}
    (first : Settles declared places r₀ r₁)
    (second : Settles (declared ++ declarations places) more r₁ r₂)
    (apart : ∀ id ∈ places.map (·.id), id ∉ more.map (·.id)) :
    Settles declared (places ++ more) r₀ r₂ := by
  -- Places of the second part do not have the numbers of the first.
  refine ⟨?_, ?_⟩
  · intro front u back split
    -- The place is one of the first ones or one of those that follow.
    rcases List.append_eq_append_iff.mp split with ⟨gap, rfl, rest⟩ | ⟨gap, inside, rest⟩
    · obtain ⟨slot, settled, takes⟩ := second.slots gap u back rest
      refine ⟨slot, settled, ?_⟩
      rwa [declarations_append, ← List.append_assoc]
    · cases gap with
      | nil =>
        obtain ⟨slot, settled, takes⟩ := second.slots [] u back rest.symm
        refine ⟨slot, settled, ?_⟩
        rw [List.append_nil] at inside
        simpa [inside] using takes
      | cons v gap =>
        obtain ⟨rfl, _⟩ := List.cons.inj rest
        obtain ⟨slot, settled, takes⟩ := first.slots front u gap inside
        -- What follows does not touch it any more.
        have kept := second.others u.id (apart u.id (by simp [inside]))
        exact ⟨slot, kept.trans settled, takes⟩
  · intro id absent
    rw [List.map_append, List.mem_append, not_or] at absent
    rw [second.others id absent.2, first.others id absent.1]

/-- What a walk through a part of a tree does: the declarations in it become known, and its places
receive their slots. -/
def Resolves (blocks ids : List Int) (places : List Occurrence) (walk : Analysis → Analysis.Step) :
    Prop :=
  -- The places are settled by what is declared so far, so both are carried along.
  ∀ ⦃a a' declared⦄, walk a = .ok a' → Mirrors a blocks declared → Fresh blocks declared ids →
    Mirrors a' blocks (declared ++ declarations places) ∧
      Settles declared places a.resolution a'.resolution

namespace Resolves

variable {blocks ids others : List Int} {places more : List Occurrence}
variable {walk next : Analysis → Analysis.Step}

/-- Nothing happens where there is nothing to resolve. -/
theorem none : Resolves blocks ids [] fun a => .ok a := by
  -- There is neither a place nor a declaration.
  intro a a' declared done mirrors fresh
  cases done
  refine ⟨by simpa using mirrors, by simp, fun id _ => rfl⟩

/-- A part may stand in a larger tree. -/
theorem below (id : Int) (resolves : Resolves blocks ids places walk) :
    Resolves blocks (id :: ids) places walk := by
  -- The larger tree has the numbers of the part and its own.
  intro a a' declared done mirrors fresh
  exact resolves done mirrors (fresh.mono (List.subset_cons_self id ids))

/-- One part after the other. -/
theorem andThen (first : Resolves blocks ids places walk)
    (second : Resolves blocks others more next) (placed : Node.Placed blocks ids places)
    (placed' : Node.Placed blocks others more) (apart : List.Disjoint ids others) :
    Resolves blocks (ids ++ others) (places ++ more) fun a => walk a >>= next := by
  -- The second walk starts from what the first one leaves.
  intro a a' declared done mirrors fresh
  obtain ⟨a₁, walked, followed⟩ := bind_eq_ok.mp done
  obtain ⟨mirrors₁, settled₁⟩ :=
    first walked mirrors (fresh.mono (List.subset_append_left ids others))
  obtain ⟨mirrors₂, settled₂⟩ := second followed mirrors₁ (fresh.behind placed apart)
  refine ⟨?_, settled₁.append settled₂ ?_⟩
  · rwa [declarations_append, ← List.append_assoc]
  · intro id here there
    exact apart (placed.named.subset here) (placed'.named.subset there)

/-- The slot recorded for a node, and those of all others. -/
theorem getElem?_record (a : Analysis) (mark : Mark) (slot : Nat) (id : Int) :
    (a.record mark slot).resolution[id]? =
      if mark.id = id then some (slot : Int) else a.resolution[id]? := by
  simp [Analysis.record, Std.TreeMap.getElem?_insert]

/-- Recording one slot settles one place. -/
theorem settles_record {a : Analysis} {mark : Mark} {slot : Nat} {declared : List Occurrence}
    {u : Occurrence} (numbered : u.id = mark.id) (takes : Takes declared u slot) :
    Settles declared [u] a.resolution (a.record mark slot).resolution := by
  -- The only place is the one that is recorded.
  refine ⟨?_, ?_⟩
  · intro front v back split
    obtain ⟨rfl, rfl, rfl⟩ : front = [] ∧ v = u ∧ back = [] := by
      cases front <;> simp_all
    exact ⟨slot, by simp [getElem?_record, numbered], by simpa using takes⟩
  · intro id absent
    rw [getElem?_record, if_neg]
    simpa [numbered, eq_comm] using absent

/-- A declaration takes the next slot. -/
theorem declare (mark : Mark) (name : Token) :
    Resolves blocks [mark.id] [⟨mark.id, name, true, blocks⟩] fun a => a.declare mark name := by
  -- A name that is not yet bound in the innermost scope takes the number of slots.
  intro a a' declared done mirrors fresh
  simp only [Analysis.declare, ScopeTable.declare?] at done
  cases unbound : a.table.inner.lookup name.lexeme with
  | some slot => simp [unbound] at done
  | none =>
    simp only [unbound, Except.ok.injEq] at done
    have depth : a.table.outer.length = blocks.length := by
      have total := mirrors.scopes.length_eq
      simpa using total
    subst done
    have takes : Takes declared ⟨mark.id, name, true, blocks⟩ a.table.slotCount := by
      rw [mirrors.count]
      exact .next rfl
    refine ⟨⟨?_, ?_, ?_⟩, settles_record rfl takes⟩
    · simp [declarations, mirrors.count]
    · have opened := mirrors.scopes.declare (d := ⟨mark.id, name, true, blocks⟩) rfl unbound
      simpa [declarations, mirrors.count] using opened
    · simp [declarations, symbolsOf, mirrors.symbols, mirrors.count, ScopeTable.depth, depth]

/-- A reference has the slot of what it denotes. -/
theorem refer (mark : Mark) (name : Token) :
    Resolves blocks [mark.id] [⟨mark.id, name, false, blocks⟩] fun a => a.refer mark name := by
  -- The scopes are searched, and the table itself stays as it is.
  intro a a' declared done mirrors fresh
  simp only [Analysis.refer] at done
  cases bound : a.table.lookup? name.lexeme with
  | none => simp [bound] at done
  | some slot =>
    simp only [bound, Except.ok.injEq] at done
    subst done
    have takes := mirrors.scopes.takes (u := ⟨mark.id, name, false, blocks⟩) rfl bound
    refine ⟨?_, settles_record rfl takes⟩
    simpa [declarations] using (⟨mirrors.count, mirrors.scopes, mirrors.symbols⟩ :
      Mirrors (a.record mark slot) blocks declared)

/-- A block has a scope of its own, which is closed behind it. -/
theorem block (id : Int) (inside : Resolves (id :: blocks) ids places walk) (apart : id ∉ ids) :
    Resolves blocks (id :: ids) places fun a => walk a.enter >>= Analysis.leave := by
  -- The scope is pushed before the walk and popped behind it.
  intro a a' declared done mirrors fresh
  obtain ⟨a₁, walked, left⟩ := bind_eq_ok.mp done
  obtain ⟨mirrors₁, settled⟩ := inside walked (mirrors.enter fresh) (fresh.inside apart)
  -- The scopes around the block are those that were open before it.
  obtain ⟨count, scopes, symbols⟩ := mirrors₁
  cases outer_eq : a₁.table.outer with
  | nil => simp [Analysis.leave, ScopeTable.leave?, outer_eq] at left
  | cons scope outer =>
    simp only [Analysis.leave, ScopeTable.leave?, outer_eq, Except.ok.injEq] at left
    subst left
    rw [outer_eq] at scopes
    cases scopes with
    | block lists outside => exact ⟨⟨count, outside, symbols⟩, settled⟩

/-- The value of an assignment is gone through before its target, which stands in front of it. -/
theorem assign (mark : Mark) (name : Token) (value : Resolves blocks ids places walk)
    (placed : Node.Placed blocks ids places) (pure : declarations places = [])
    (apart : mark.id ∉ ids) :
    Resolves blocks (mark.id :: ids) (⟨mark.id, name, false, blocks⟩ :: places)
      fun a => walk a >>= fun a => a.refer mark name := by
  -- The walk meets the value first, the list of places the target.
  intro a a' declared done mirrors fresh
  obtain ⟨a₁, walked, referred⟩ := bind_eq_ok.mp done
  obtain ⟨mirrors₁, settled₁⟩ := value.below mark.id walked mirrors fresh
  -- No declaration comes between the target and the value.
  rw [pure, List.append_nil] at mirrors₁
  obtain ⟨mirrors₂, settled₂⟩ :=
    refer mark name referred mirrors₁ (fresh.mono (by simp))
  have absent : mark.id ∉ places.map (·.id) := fun inside => apart (placed.named.subset inside)
  refine ⟨?_, ?_, ?_⟩
  · rw [declarations_cons_refers _ rfl, pure]
    simpa [declarations] using mirrors₂
  · intro front u back split
    cases front with
    | nil =>
      obtain ⟨rfl, rfl⟩ := List.cons.inj split
      exact settled₂.slots [] _ [] rfl
    | cons v front =>
      obtain ⟨rfl, inside⟩ := List.cons.inj split
      obtain ⟨slot, settled, takes⟩ := settled₁.slots front u back inside
      have kept := settled₂.others u.id (by
        intro same
        simp only [List.map_cons, List.map_nil, List.mem_singleton] at same
        exact absent (by simp [inside, ← same]))
      refine ⟨slot, kept.trans settled, ?_⟩
      rwa [declarations_cons_refers _ rfl]
  · intro id outside
    simp only [List.map_cons, List.mem_cons, not_or] at outside
    rw [settled₂.others id (by simpa using outside.1), settled₁.others id outside.2]

end Resolves

namespace Node

variable {n : Node} {blocks : List Int}

/-- Two trees side by side are resolved if each of them is. -/
theorem resolvesBoth (blocks : List Int) {left right : Node}
    (distinct : (left.ids ++ right.ids).Nodup)
    (first : left.ids.Nodup → Resolves blocks left.ids (left.occurrences blocks) (·.visit left))
    (second : right.ids.Nodup →
      Resolves blocks right.ids (right.occurrences blocks) (·.visit right)) :
    Resolves blocks (left.ids ++ right.ids) (left.occurrences blocks ++ right.occurrences blocks)
      fun a => a.visit left >>= (·.visit right) :=
  -- The numbers of the first tree are none of those of the second.
  (first distinct.of_append_left).andThen (second distinct.of_append_right) (placed blocks left)
    (placed blocks right) (List.disjoint_of_nodup_append distinct)

/-- An expression is resolved. -/
theorem IsExpression.resolves (shape : n.IsExpression) (distinct : n.ids.Nodup) :
    Resolves blocks n.ids (n.occurrences blocks) (·.visit n) := by
  -- The operands are gone through from the left to the right.
  induction shape with
  | literal mark value => exact .none
  | use mark name => exact .refer mark name
  | binary mark operator known leftShape rightShape leftIh rightIh =>
    rw [ids, List.nodup_cons] at distinct
    exact (resolvesBoth blocks distinct.2 leftIh rightIh).below mark.id

/-- Trees that are resolved one by one are resolved in turn. -/
theorem resolvesAll {ns : List Node} (distinct : (idsAll ns).Nodup)
    (each : ∀ n ∈ ns, n.ids.Nodup → Resolves blocks n.ids (n.occurrences blocks) (·.visit n)) :
    Resolves blocks (idsAll ns) (occurrencesAll blocks ns) (·.visitAll ns) := by
  -- Each tree is gone through behind those before it.
  induction ns with
  | nil => exact .none
  | cons n ns ih =>
    rw [idsAll] at distinct
    have first := each n (.head _) distinct.of_append_left
    have others := ih distinct.of_append_right fun m member => each m (.tail _ member)
    exact first.andThen others (placed blocks n) (placedAll blocks ns)
      (List.disjoint_of_nodup_append distinct)

/-- A statement is resolved. -/
theorem IsStatement.resolves (shape : n.IsStatement) (distinct : n.ids.Nodup) :
    Resolves blocks n.ids (n.occurrences blocks) (·.visit n) := by
  -- Only a block changes what is around a place.
  induction shape generalizing blocks with
  | declare mark name => exact .declare mark name
  | assign mark name valueShape =>
    rw [ids, List.nodup_cons] at distinct
    exact (valueShape.resolves distinct.2).assign mark name (placed blocks _)
      (valueShape.declarations_eq_nil blocks) distinct.1
  | print mark valueShape =>
    rw [ids, List.nodup_cons] at distinct
    exact (valueShape.resolves distinct.2).below mark.id
  | choose mark conditionShape yesShape yesIh =>
    rw [ids, List.nodup_cons] at distinct
    exact (resolvesBoth blocks distinct.2 conditionShape.resolves yesIh).below mark.id
  | @chooseElse condition yes no mark conditionShape yesShape noShape yesIh noIh =>
    rw [ids, List.nodup_cons, List.append_assoc] at distinct
    have both := resolvesBoth blocks distinct.2.of_append_right yesIh noIh
    have all := (conditionShape.resolves distinct.2.of_append_left).andThen both
      (placed blocks condition) ((placed blocks yes).append (placed blocks no))
      (List.disjoint_of_nodup_append distinct.2)
    rw [ids, occurrences, List.append_assoc, List.append_assoc]
    exact all.below mark.id
  | loop mark conditionShape bodyShape bodyIh =>
    rw [ids, List.nodup_cons] at distinct
    exact (resolvesBoth blocks distinct.2 conditionShape.resolves bodyIh).below mark.id
  | block mark bodyShape ih =>
    rw [ids, List.nodup_cons] at distinct
    exact (resolvesAll distinct.2 fun n member => ih n member).block mark.id distinct.1

end Node

namespace Settles

variable {places : List Occurrence} {before after : Resolution} {u d : Occurrence}

/-- Every place is bound to a declaration. -/
theorem exists_bound (settles : Settles [] places before after) (member : u ∈ places) :
    ∃ d, BoundTo places u d := by
  -- What has taken a slot declares, or it denotes a declaration.
  obtain ⟨front, back, split⟩ := List.append_of_mem member
  obtain ⟨slot, _, takes⟩ := settles.slots front u back split
  cases takes with
  | next declares => exact ⟨u, .declared (List.mem_filter.mpr ⟨member, declares⟩)⟩
  | known refers taken denotes only => exact ⟨_, .referred split refers denotes⟩

/-- A place has received the number of the declaration that it is bound to. -/
theorem slot_of_bound (settles : Settles [] places before after) (bound : BoundTo places u d) :
    ∃ slot : Nat, after[u.id]? = some (slot : Int) ∧ (declarations places)[slot]? = some d := by
  -- The number of a declaration counts the declarations before it.
  cases bound with
  | declared member =>
    obtain ⟨inside, declares⟩ := List.mem_filter.mp member
    obtain ⟨front, back, split⟩ := List.append_of_mem inside
    obtain ⟨slot, settled, takes⟩ := settles.slots front u back split
    cases takes with
    | next =>
      refine ⟨_, settled, ?_⟩
      rw [split, declarations_append, declarations_cons_declares _ declares]
      simp
    | known refers => simp [declares] at refers
  | @referred front back _ _ split refers denotes =>
    obtain ⟨slot, settled, takes⟩ := settles.slots front u back split
    cases takes with
    | next declares => simp [declares] at refers
    | known _ taken _ only =>
      -- The declarations before the place are the first ones of all.
      obtain rfl := only d denotes
      rw [List.nil_append] at taken
      obtain ⟨inside, _⟩ := List.getElem?_eq_some_iff.mp taken
      refine ⟨slot, settled, ?_⟩
      rw [split, declarations_append, List.getElem?_append_left inside]
      exact taken

/-- The declarations have received their numbers in order. -/
theorem slot_of_declaration {slot : Nat} (settles : Settles [] places before after)
    (distinct : (places.map (·.id)).Nodup) (taken : (declarations places)[slot]? = some d) :
    after[d.id]? = some (slot : Int) := by
  -- A declaration stands at one index only.
  obtain ⟨slot', settled, taken'⟩ :=
    settles.slot_of_bound (.declared (List.mem_of_getElem? taken))
  have once : (declarations places).Nodup := (List.Nodup.of_map _ distinct).filter _
  have same : slot' = slot := by
    obtain ⟨inside, rfl⟩ := List.getElem?_eq_some_iff.mp taken
    obtain ⟨inside', same⟩ := List.getElem?_eq_some_iff.mp taken'
    exact (once.getElem_inj_iff).mp same
  rw [settled, same]

end Settles

/-- The outcome of resolving a program: all that has been declared is known, and all places have
received their slots. -/
theorem Analysis.program_resolves {mark : Mark} {body : List Node} {a : Analysis}
    (shape : ∀ n ∈ body, n.IsStatement) (distinct : (Node.program mark body).ids.Nodup)
    (analyzed : Analysis.empty.program (.program mark body) = .ok a) :
    Mirrors a [] (declarations ((Node.program mark body).occurrences [])) ∧
      Settles [] ((Node.program mark body).occurrences []) ∅ a.resolution := by
  -- The walk starts with one empty scope and no declaration.
  rw [Node.ids, List.nodup_cons] at distinct
  have start : Mirrors Analysis.empty [] [] :=
    ⟨rfl, .program (.empty (by simp)), rfl⟩
  exact Node.resolvesAll distinct.2 (fun n member => (shape n member).resolves) analyzed start
    ⟨by simp, by simp⟩

/-- Slots are given out by static block scope. The nodes with a slot are those that name a variable,
the declarations take the slots in order, and every other place has the slot of the declaration it
is bound to, so that places share a slot exactly if they are bound to the same declaration. The
symbols tell the declarations in order, and only the scope of the program is open in the end. -/
theorem resolution_lexical {tokens : List Token} {tree : Node} {a : Analysis}
    (parsed : Node.parse tokens = .ok tree) (analyzed : Analysis.empty.program tree = .ok a) :
    ((tree.occurrences []).map (·.id)).Nodup ∧
    (∀ id, id ∈ a.resolution ↔ id ∈ (tree.occurrences []).map (·.id)) ∧
    (∀ (slot : Nat) d, (declarations (tree.occurrences []))[slot]? = some d →
      a.resolution[d.id]? = some (slot : Int)) ∧
    a.table.slotCount = (declarations (tree.occurrences [])).length ∧
    (∀ u ∈ tree.occurrences [], ∃ d, BoundTo (tree.occurrences []) u d ∧
      a.resolution[u.id]? = a.resolution[d.id]?) ∧
    (∀ u u' d d', BoundTo (tree.occurrences []) u d → BoundTo (tree.occurrences []) u' d' →
      (a.resolution[u.id]? = a.resolution[u'.id]? ↔ d = d')) ∧
    a.symbols.toList = symbolsOf (declarations (tree.occurrences [])) ∧
    a.table.outer = [] := by
  -- All is read off from what the walk has settled: each place has one slot, found by its number.
  obtain ⟨mark, body, rfl, shape, distinct⟩ := Node.parse_program parsed
  obtain ⟨mirrors, settles⟩ := Analysis.program_resolves shape distinct analyzed
  have once := (Node.placed [] (.program mark body)).named.nodup distinct
  refine ⟨once, ?_, fun slot d => settles.slot_of_declaration once, mirrors.count, ?_, ?_,
    mirrors.symbols, ?_⟩
  · -- A number that no place has was never recorded.
    intro id
    rw [Std.TreeMap.mem_iff_isSome_getElem?]
    constructor
    · intro present
      by_contra absent
      simp [settles.others id absent] at present
    · intro member
      obtain ⟨u, inside, rfl⟩ := List.mem_map.mp member
      obtain ⟨d, bound⟩ := settles.exists_bound inside
      obtain ⟨slot, settled, _⟩ := settles.slot_of_bound bound
      simp [settled]
  · -- A place and the declaration that it is bound to have been given one slot.
    intro u inside
    obtain ⟨d, bound⟩ := settles.exists_bound inside
    obtain ⟨slot, settled, taken⟩ := settles.slot_of_bound bound
    exact ⟨d, bound, by rw [settled, settles.slot_of_declaration once taken]⟩
  · -- Declarations take different slots, so a slot tells its declaration.
    intro u u' d d' bound bound'
    obtain ⟨slot, settled, taken⟩ := settles.slot_of_bound bound
    obtain ⟨slot', settled', taken'⟩ := settles.slot_of_bound bound'
    rw [settled, settled', Option.some.injEq, Int.natCast_inj]
    constructor
    · rintro rfl
      exact Option.some.inj (taken.symm.trans taken')
    · rintro rfl
      have first := settles.slot_of_declaration once taken
      rw [settles.slot_of_declaration once taken'] at first
      simpa using first.symm
  · -- As many scopes are open as there are blocks around the program, which is none.
    have opened := mirrors.scopes.length_eq
    simpa using opened

/-- A token of a kind, at the start of a text. -/
def shadowToken (kind : Kind) (lexeme : String) : Token := ⟨kind, lexeme, ⟨1, 1⟩⟩

/-- A variable of the program, and in a block an assignment, a second variable of the name, and a
use of it. -/
def shadowTokens : List Token :=
  -- The assignment stands before the second declaration, and still means the first.
  [shadowToken .kwInt "int", shadowToken .name "a", shadowToken .semicolon ";",
    shadowToken .openBrace "\x7b", shadowToken .name "a", shadowToken .assign "=",
    shadowToken .name "a", shadowToken .semicolon ";", shadowToken .kwInt "int",
    shadowToken .name "a", shadowToken .semicolon ";", shadowToken .kwPrint "print",
    shadowToken .openParen "(", shadowToken .name "a", shadowToken .closeParen ")",
    shadowToken .semicolon ";", shadowToken .closeBrace "\x7d", shadowToken .finish ""]

/-- A place of that program that names a variable. -/
def shadowPlace (id : Int) (declares : Bool) (blocks : List Int) : Occurrence :=
  ⟨id, shadowToken .name "a", declares, blocks⟩

/-- The uses before and behind the inner declaration have the slots of different declarations. -/
theorem resolution_lexical_shadow : ∃ tree a, Node.parse shadowTokens = .ok tree ∧
    Analysis.empty.program tree = .ok a ∧ a.resolution[(4 : Int)]? = some 0 ∧
    a.resolution[(7 : Int)]? = some 1 ∧ a.table.slotCount = 2 := by
  -- The walk is evaluated, and the slots are then told by the general facts.
  refine ⟨_, _, rfl, rfl, ?_⟩
  obtain ⟨_, _, ordered, count, _, shared, _, _⟩ := @resolution_lexical shadowTokens _ _ rfl rfl
  have outer : BoundTo _ (shadowPlace 4 false [2]) (shadowPlace 1 true []) :=
    @BoundTo.referred _ [shadowPlace 1 true [], shadowPlace 3 false [2]]
      [shadowPlace 5 true [2], shadowPlace 7 false [2]] _ _ rfl rfl
      ⟨by decide, ⟨rfl, by decide⟩, by decide⟩
  have inner : BoundTo _ (shadowPlace 7 false [2]) (shadowPlace 5 true [2]) :=
    @BoundTo.referred _ [shadowPlace 1 true [], shadowPlace 3 false [2], shadowPlace 4 false [2],
      shadowPlace 5 true [2]] [] _ _ rfl rfl ⟨by decide, ⟨rfl, by decide⟩, by decide⟩
  have first := ordered 0 (shadowPlace 1 true []) rfl
  have second := ordered 1 (shadowPlace 5 true [2]) rfl
  refine ⟨?_, ?_, count⟩
  · exact ((shared _ _ _ _ outer (.declared (by decide))).mpr rfl).trans first
  · exact ((shared _ _ _ _ inner (.declared (by decide))).mpr rfl).trans second

end BlockCode
