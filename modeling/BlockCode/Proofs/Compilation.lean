import BlockCode.Compilation
import BlockCode.Proofs.Evaluation
import BlockCode.Proofs.Instruction.Layout
import BlockCode.Proofs.Scope.Resolve

/-! What is made on the way from a source text to its code, and how the slots in the code stand for
the cells of the declarations. -/

namespace BlockCode

open Occurrence

/-- What was made of a source text until its code was there. -/
structure Translation (source : String) (code : Code) where
  tokens : List Token
  mark : Mark
  body : List Node
  analysis : Analysis
  /-- The address of the halt. -/
  last : Nat
  scanned : tokenize source = .ok tokens
  parsed : Node.parse tokens = .ok (.program mark body)
  analyzed : Analysis.empty.program (.program mark body) = .ok analysis
  performs : code.Performs analysis.resolution body 0 last
  halts : code.At last .halt none
  size : code.size = last + 1

/-- Everything is there if there is code. -/
theorem exists_translation {source : String} {code : Code} (compiled : compile source = .ok code) :
    Nonempty (Translation source code) := by
  -- Every stage has succeeded, since a failure would have ended the compilation.
  simp only [compile, bind_eq_ok] at compiled
  obtain ⟨tokens, scanned, tree, parsed, resolution, resolved, generated⟩ := compiled
  obtain ⟨mark, body, rfl, shape, _⟩ := Node.parse_program parsed
  -- Resolution hands on the outcome of the analysis, and generation that of the emission.
  unfold resolve at resolved
  split at resolved
  · rename_i analysis analyzed
    cases resolved
    unfold generate at generated
    split at generated
    · rename_i code emitted
      cases generated
      obtain ⟨last, performs, halts, size⟩ := Code.program_layout shape emitted
      exact ⟨⟨tokens, mark, body, analysis, last, scanned, parsed, analyzed, performs, halts, size⟩⟩
    · cases generated
  · cases resolved

/-- A place that refers to a variable has the slot of its owner. -/
theorem Node.owner_of_place {tree : Node} {before after : Resolution} {u : Occurrence}
    (settles : Settles [] (tree.occurrences []) before after)
    (distinct : ((tree.occurrences []).map (·.id)).Nodup) (member : u ∈ tree.occurrences [])
    (refers : u.declares = false) :
    ∃ d, ∃ slot : Nat, (declarations (tree.occurrences []))[slot]? = some d ∧
      tree.owner u.id = some d.id ∧ after[u.id]? = some (slot : Int) := by
  -- The owner is searched among the declarations before the place.
  obtain ⟨front, back, split⟩ := List.append_of_mem member
  obtain ⟨slot, settled, takes⟩ := settles.slots front u back split
  -- No place before this one has its number.
  have others : ∀ v ∈ front, v.id ≠ u.id := by
    intro v inside same
    rw [split, List.map_append, List.map_cons] at distinct
    have apart := List.disjoint_of_nodup_append distinct
    exact apart (List.mem_map_of_mem inside) (by simp [same])
  have found : (tree.occurrences []).find? (·.id = u.id) = some u := by
    rw [split, List.find?_append]
    have absent : front.find? (·.id = u.id) = none := by simpa using others
    simp [absent]
  have passed : (tree.occurrences []).takeWhile (·.id ≠ u.id) = front := by
    rw [split, List.takeWhile_append_of_pos (by simpa using others)]
    simp
  cases takes with
  | next declares => simp [declares] at refers
  | @known _ d _ taken denotes only =>
    rw [List.nil_append] at taken denotes only
    -- The search finds what the place denotes, and that is only one declaration.
    obtain ⟨d', searched⟩ := search_of_denotes denotes
    obtain rfl := only d' (denotes_of_search searched)
    refine ⟨d', slot, ?_, ?_, settled⟩
    · obtain ⟨inside, _⟩ := List.getElem?_eq_some_iff.mp taken
      rw [split, declarations_append, List.getElem?_append_left inside, taken]
    · simp only [Node.owner, found, passed, Option.bind_eq_bind, Option.bind_some, searched]
      rfl

/-- Every declaration has instructions of its own, so there are no more declarations than there are
instructions. -/
theorem Code.Performs.declarations_le {code : Code} {resolution : Resolution} {ns : List Node}
    {start stop : Nat} (performs : code.Performs resolution ns start stop) (blocks : List Int) :
    start + (declarations (Node.occurrencesAll blocks ns)).length ≤ stop := by
  -- Expressions declare nothing, and all else is counted in turn.
  induction performs generalizing blocks with
  | nothing => simp [Node.occurrencesAll]
  | also first others firstIh othersIh =>
    have front := firstIh blocks
    have back := othersIh blocks
    rw [Node.occurrencesAll_singleton] at front
    simp only [Node.occurrencesAll, declarations_append, List.length_append]
    omega
  | declare => simp [Node.occurrences, declarations]
  | assign known computed store =>
    have value := computed.isExpression.declarations_eq_nil blocks
    have behind := computed.lt
    rw [Node.occurrencesAll_singleton, Node.occurrences, declarations_cons_refers _ rfl, value]
    simp only [List.length_nil]
    omega
  | print computed shown =>
    have value := computed.isExpression.declarations_eq_nil blocks
    have behind := computed.lt
    rw [Node.occurrencesAll_singleton, Node.occurrences, value]
    simp only [List.length_nil]
    omega
  | choose tested skip taken ih =>
    have value := tested.isExpression.declarations_eq_nil blocks
    have behind := tested.lt
    have branch := ih blocks
    simp only [Node.occurrencesAll_singleton, Node.occurrences, declarations_append, value,
      List.nil_append] at branch ⊢
    omega
  | chooseElse tested skip taken hop other yesIh noIh =>
    have value := tested.isExpression.declarations_eq_nil blocks
    have behind := tested.lt
    have yes := yesIh blocks
    have no := noIh blocks
    simp only [Node.occurrencesAll_singleton, Node.occurrences, declarations_append, value,
      List.nil_append, List.length_append] at yes no ⊢
    omega
  | loop tested leave repeated back ih =>
    have value := tested.isExpression.declarations_eq_nil blocks
    have behind := tested.lt
    have body := ih blocks
    simp only [Node.occurrencesAll_singleton, Node.occurrences, declarations_append, value,
      List.nil_append] at body ⊢
    omega
  | @block mark body start stop inside ih =>
    rw [Node.occurrencesAll_singleton, Node.occurrences]
    exact ih (mark.id :: blocks)

/-- Slots stand for cells: each cell has a slot among the first ones, different cells have different
ones, and a place that refers to a variable has the slot of the cell that its owner owns. -/
structure Links (count : Nat) (cells : List Int) (places : List Occurrence)
    (resolution : Resolution) (owner : Int → Option Int) : Prop where
  declared : ∀ u ∈ places, u.declares = true → u.id ∈ cells
  referred : ∀ u ∈ places, u.declares = false →
    ∃ id ∈ cells, owner u.id = some id ∧ resolution[u.id]? = resolution[id]?
  slot : ∀ id ∈ cells, ∃ slot : Nat, slot < count ∧ resolution[id]? = some (slot : Int)
  apart : ∀ id ∈ cells, ∀ other ∈ cells, resolution[id]? = resolution[other]? → id = other

namespace Translation

variable {source : String} {code : Code} (t : Translation source code)

/-- The tree of the source text. -/
def tree : Node := .program t.mark t.body

/-- The places of the tree that name variables. -/
def places : List Occurrence := t.tree.occurrences []

/-- The numbers of the declarations. -/
def cells : List Int := (declarations t.places).map (·.id)

/-- The outcome of the analysis. -/
theorem resolves : Mirrors t.analysis [] (declarations t.places) ∧
    Settles [] t.places ∅ t.analysis.resolution := by
  -- A tree that was read has the shape and the numbers that the walk needs.
  obtain ⟨mark, body, same, shape, distinct⟩ := Node.parse_program t.parsed
  cases same
  exact Analysis.program_resolves shape distinct t.analyzed

/-- No two places have the same number. -/
theorem distinct : (t.places.map (·.id)).Nodup := by
  -- The numbers of places are among those of nodes, and no two nodes share one.
  obtain ⟨mark, body, same, _, distinct⟩ := Node.parse_program t.parsed
  cases same
  exact (Node.placed [] _).named.nodup distinct

/-- There are no more slots than instructions. -/
theorem slotCount_le_size : t.analysis.table.slotCount ≤ code.size := by
  -- Each declaration has a store of its own.
  have few := t.performs.declarations_le []
  have size := t.size
  have count := t.resolves.1.count
  have places : t.places = Node.occurrencesAll [] t.body := rfl
  rw [← places] at few
  omega

/-- The slots in the code stand for the cells of the declarations. -/
theorem links : Links code.size t.cells t.places t.analysis.resolution t.tree.owner := by
  obtain ⟨_, settles⟩ := t.resolves
  -- A declaration has its place among the others as its slot.
  have numbered : ∀ id ∈ t.cells, ∃ d, ∃ slot : Nat, d.id = id ∧
      (declarations t.places)[slot]? = some d ∧
      t.analysis.resolution[id]? = some (slot : Int) := by
    intro id member
    obtain ⟨d, inside, rfl⟩ := List.mem_map.mp member
    obtain ⟨slot, taken⟩ := List.getElem?_of_mem inside
    exact ⟨d, slot, rfl, taken, settles.slot_of_declaration t.distinct taken⟩
  refine ⟨?_, ?_, ?_, ?_⟩
  · intro u member declares
    exact List.mem_map_of_mem (List.mem_filter.mpr ⟨member, declares⟩)
  · intro u member refers
    obtain ⟨d, slot, taken, owned, settled⟩ :=
      Node.owner_of_place settles t.distinct member refers
    refine ⟨d.id, List.mem_map_of_mem (List.mem_of_getElem? taken), owned, ?_⟩
    rw [settled, settles.slot_of_declaration t.distinct taken]
  · intro id member
    obtain ⟨d, slot, _, taken, settled⟩ := numbered id member
    have few := t.slotCount_le_size
    have count := t.resolves.1.count
    have inside := (List.getElem?_eq_some_iff.mp taken).1
    exact ⟨slot, by omega, settled⟩
  · intro id member other member' same
    obtain ⟨d, slot, rfl, taken, settled⟩ := numbered id member
    obtain ⟨d', slot', rfl, taken', settled'⟩ := numbered other member'
    rw [settled, settled', Option.some.injEq, Int.natCast_inj] at same
    subst same
    rw [Option.some.inj (taken.symm.trans taken')]

/-- The slots that are given out are the first ones. -/
theorem slot_lt {id slot : Int} (known : t.analysis.resolution[id]? = some slot) :
    0 ≤ slot ∧ slot < t.analysis.table.slotCount := by
  obtain ⟨mirrors, settles⟩ := t.resolves
  -- Only places have slots, and each has the number of a declaration.
  by_cases place : id ∈ t.places.map (·.id)
  · obtain ⟨u, member, rfl⟩ := List.mem_map.mp place
    obtain ⟨d, bound⟩ := settles.exists_bound member
    obtain ⟨index, settled, taken⟩ := settles.slot_of_bound bound
    obtain ⟨inside, _⟩ := List.getElem?_eq_some_iff.mp taken
    rw [settled, Option.some.injEq] at known
    subst known
    rw [mirrors.count]
    omega
  · simp [settles.others id place] at known

end Translation

end BlockCode
