import BlockCode.Proofs.Scope.Resolve

/-! Where resolution stops: at the first place that declares a name again in its block, or that
names a variable which no declaration reaches. -/

namespace BlockCode

open Occurrence

namespace Node

mutual

/-- The places of a tree that name variables, in the order in which they are looked at: the value of
an assignment comes before its target. -/
def visits (blocks : List Int) : Node → List Occurrence
  | declare mark name => [⟨mark.id, name, true, blocks⟩]
  -- Here the order is not that of the source.
  | assign mark name value => value.visits blocks ++ [⟨mark.id, name, false, blocks⟩]
  | use mark name => [⟨mark.id, name, false, blocks⟩]
  -- Only a block changes what is around a place; choices and loops do not.
  | block mark body => visitsAll (mark.id :: blocks) body
  | print _ value => value.visits blocks
  | choose _ condition yes => condition.visits blocks ++ yes.visits blocks
  | chooseElse _ condition yes no =>
    condition.visits blocks ++ (yes.visits blocks ++ no.visits blocks)
  | loop _ condition body => condition.visits blocks ++ body.visits blocks
  | binary _ left _ right => left.visits blocks ++ right.visits blocks
  | program _ body => visitsAll blocks body
  | literal .. | unknown .. => []

/-- The places of some trees, in the order in which they are looked at. -/
def visitsAll (blocks : List Int) : List Node → List Occurrence
  -- Earlier trees are looked at first.
  | [] => []
  | n :: ns => n.visits blocks ++ visitsAll blocks ns

end

mutual

/-- The declarations are looked at in their order in the source. -/
theorem declarations_visits (blocks : List Int) :
    (n : Node) → declarations (n.visits blocks) = declarations (n.occurrences blocks)
  -- Visits and occurrences differ only where an assignment looks at its value first.
  | declare .. | use .. | literal .. | unknown .. => rfl
  | assign mark name value => by
    rw [visits, occurrences, declarations_append, declarations_visits blocks value,
      declarations_cons_refers _ rfl]
    exact List.append_nil _
  | block mark body => declarations_visitsAll (mark.id :: blocks) body
  | print _ value => declarations_visits blocks value
  | choose _ condition yes => by
    simp only [visits, occurrences, declarations_append, declarations_visits blocks condition,
      declarations_visits blocks yes]
  | chooseElse _ condition yes no => by
    simp only [visits, occurrences, declarations_append, declarations_visits blocks condition,
      declarations_visits blocks yes, declarations_visits blocks no, List.append_assoc]
  | loop _ condition body => by
    simp only [visits, occurrences, declarations_append, declarations_visits blocks condition,
      declarations_visits blocks body]
  | binary _ left _ right => by
    simp only [visits, occurrences, declarations_append, declarations_visits blocks left,
      declarations_visits blocks right]
  | program _ body => declarations_visitsAll blocks body

/-- The declarations of some trees are looked at in their order in the source. -/
theorem declarations_visitsAll (blocks : List Int) : (ns : List Node) →
    declarations (visitsAll blocks ns) = declarations (occurrencesAll blocks ns)
  -- The declarations of trees in turn are those of each, put behind each other.
  | [] => rfl
  | n :: ns => by
    simp only [visitsAll, occurrencesAll, declarations_append, declarations_visits blocks n,
      declarations_visitsAll blocks ns]

end

mutual

/-- The places that are looked at are all places. -/
theorem visits_perm (blocks : List Int) :
    (n : Node) → (n.visits blocks).Perm (n.occurrences blocks)
  -- Only an assignment is out of order: its target comes last instead of first.
  | declare .. | use .. | literal .. | unknown .. => .refl _
  | assign mark name value =>
    (List.perm_append_singleton _ _).trans ((visits_perm blocks value).cons _)
  | block mark body => visitsAll_perm (mark.id :: blocks) body
  | print _ value => visits_perm blocks value
  | choose _ condition yes => (visits_perm blocks condition).append (visits_perm blocks yes)
  | chooseElse _ condition yes no => by
    rw [visits, occurrences, List.append_assoc]
    exact (visits_perm blocks condition).append
      ((visits_perm blocks yes).append (visits_perm blocks no))
  | loop _ condition body => (visits_perm blocks condition).append (visits_perm blocks body)
  | binary _ left _ right => (visits_perm blocks left).append (visits_perm blocks right)
  | program _ body => visitsAll_perm blocks body

/-- The places of some trees that are looked at are all their places. -/
theorem visitsAll_perm (blocks : List Int) : (ns : List Node) →
    (visitsAll blocks ns).Perm (occurrencesAll blocks ns)
  -- Tree by tree, each among its own places.
  | [] => .refl _
  | n :: ns => (visits_perm blocks n).append (visitsAll_perm blocks ns)

end

end Node

/-- A place breaks a rule, given the declarations before it: it declares a name that its block has
already, or it names a variable that no declaration reaches. -/
inductive Offends (declared : List Occurrence) (u : Occurrence) : Cause → Prop where
  | redeclared {d : Occurrence} (declares : u.declares = true) (earlier : d ∈ declared)
      (named : d.name.lexeme = u.name.lexeme) (here : d.blocks = u.blocks) :
      Offends declared u (.redeclared u.name.lexeme)
  | undeclared (refers : u.declares = false) (unknown : ∀ d ∈ declared, ¬ d.Reaches u) :
      Offends declared u (.undeclared u.name.lexeme)

/-- What a place is blamed for is a declaration or the use of a name. -/
theorem Offends.semantic {declared : List Occurrence} {u : Occurrence} {cause : Cause}
    (offends : Offends declared u cause) :
    ∃ name, cause = .redeclared name ∨ cause = .undeclared name := by
  -- There are two rules to break.
  cases offends with
  | redeclared => exact ⟨_, .inl rfl⟩
  | undeclared => exact ⟨_, .inr rfl⟩

/-- None of some places breaks a rule, given the declarations before them. -/
def Clean : (declared places : List Occurrence) → Prop
  | _, [] => True
  | declared, u :: places =>
    -- A declaration counts for the places behind it, and not for itself.
    (∀ cause, ¬ Offends declared u cause) ∧ Clean (declared ++ declarations [u]) places

/-- Places that follow others are judged by what was declared before and by the others. -/
theorem Clean.append {declared places more : List Occurrence} (first : Clean declared places)
    (second : Clean (declared ++ declarations places) more) : Clean declared (places ++ more) := by
  -- What the passed place declares moves over to what was declared before.
  induction places generalizing declared with
  | nil => simpa using second
  | cons u places ih =>
    refine ⟨first.1, ih first.2 ?_⟩
    rwa [List.append_assoc, ← declarations_append]

/-- What a walk comes to that looks at some places in turn: it gets through if none of them breaks a
rule, and otherwise it stops at the first one that does, with the declarations before it known. -/
inductive Judged (declared places : List Occurrence) : Analysis.Step → Prop where
  | clean {a : Analysis} (clean : Clean declared places) : Judged declared places (.ok a)
  | blamed {front back : List Occurrence} {u : Occurrence} {cause : Cause} {known : Analysis}
      (split : places = front ++ u :: back) (clean : Clean declared front)
      (offends : Offends (declared ++ declarations front) u cause)
      (symbols : known.symbols.toList = symbolsOf (declared ++ declarations front)) :
      Judged declared places (.error (.rejected ⟨cause, some u.name.position⟩, known))

/-- A walk judges some places, wherever it starts from. -/
def Judges (blocks ids : List Int) (places : List Occurrence) (walk : Analysis → Analysis.Step) :
    Prop :=
  -- The walk has to be in step with the declarations that are made so far.
  ∀ ⦃a declared⦄, Mirrors a blocks declared → Fresh blocks declared ids →
    Judged declared places (walk a)

/-- The innermost scope lists what is declared directly around a place. -/
theorem Open.inner {declared : List Occurrence} {blocks : List Int} {scope : Scope}
    {scopes : List Scope} (opened : Open declared blocks (scope :: scopes)) :
    Lists declared blocks scope := by
  -- Whether or not there is a block around, the innermost scope comes first.
  cases opened with
  | program lists => exact lists
  | block lists outside => exact lists

/-- A name that is not found is reached by no declaration. -/
theorem Open.unfound {declared : List Occurrence} {blocks : List Int} {scopes : List Scope}
    {name : String} (opened : Open declared blocks scopes)
    (unbound : scopes.findSome? (·.lookup name) = none) :
    ∀ d ∈ declared, d.name.lexeme = name → ¬ d.blocks <:+ blocks := by
  -- A declaration in one of the blocks would be bound in its scope.
  intro d member named encloses
  obtain ⟨slot, taken⟩ := List.getElem?_of_mem member
  have passed : ∀ scope ∈ scopes, scope.lookup name = none := List.findSome?_eq_none_iff.mp unbound
  clear unbound
  induction opened with
  | program lists =>
    have bound := (lists name slot).mpr ⟨d, taken, named, List.suffix_nil.mp encloses⟩
    rw [passed _ (.head _)] at bound
    cases bound
  | block lists outside ih =>
    rcases List.suffix_cons_iff.mp encloses with here | around
    · have bound := (lists name slot).mpr ⟨d, taken, named, here⟩
      rw [passed _ (.head _)] at bound
      cases bound
    · exact ih around fun scope inside => passed scope (.tail _ inside)

namespace Judges

variable {blocks ids others : List Int} {places more : List Occurrence}
variable {walk next : Analysis → Analysis.Step}

/-- There is nothing to judge where there is no place. -/
theorem none : Judges blocks ids [] fun a => .ok a :=
  fun _ _ _ _ => .clean trivial

/-- A part may stand in a larger tree. -/
theorem mono (judges : Judges blocks ids places walk) (fewer : ids ⊆ others) :
    Judges blocks others places walk :=
  fun _ _ mirrors fresh => judges mirrors (fresh.mono fewer)

/-- One part after the other. -/
theorem andThen {places' : List Occurrence} (first : Judges blocks ids places walk)
    (second : Judges blocks others more next) (resolves : Resolves blocks ids places' walk)
    (placed : Node.Placed blocks ids places') (same : declarations places = declarations places')
    (apart : List.Disjoint ids others) :
    Judges blocks (ids ++ others) (places ++ more) fun a => walk a >>= next := by
  intro a declared mirrors fresh
  have front := fresh.mono (List.subset_append_left ids others)
  have judged := first mirrors front
  show Judged declared (places ++ more) (walk a >>= next)
  cases walked : walk a with
  | error e =>
    -- What stops the first part stops both.
    rw [walked] at judged
    cases judged with
    | blamed split clean offends symbols =>
      exact .blamed (by rw [split, List.append_assoc, List.cons_append]) clean offends symbols
  | ok a₁ =>
    rw [walked] at judged
    cases judged with
    | clean clean =>
      -- The second part starts from what the first one leaves.
      have behind := second (resolves walked mirrors front).1 (fresh.behind placed apart)
      rw [← same] at behind
      show Judged declared (places ++ more) (next a₁)
      generalize next a₁ = outcome at behind ⊢
      cases behind with
      | clean clean' => exact .clean (clean.append clean')
      | blamed split clean' offends symbols =>
        refine .blamed (by rw [split, List.append_assoc]) (clean.append clean') ?_ ?_
        · rwa [declarations_append, ← List.append_assoc]
        · rwa [declarations_append, ← List.append_assoc]

/-- A declaration is blamed if its block has the name already. -/
theorem declare (mark : Mark) (name : Token) :
    Judges blocks [mark.id] [⟨mark.id, name, true, blocks⟩] fun a => a.declare mark name := by
  intro a declared mirrors fresh
  -- The innermost scope is asked, and it binds the names that are declared in the block.
  have lists := mirrors.scopes.inner
  show Judged _ _ (a.declare mark name)
  simp only [Analysis.declare, ScopeTable.declare?]
  cases bound : a.table.inner.lookup name.lexeme with
  | some slot =>
    obtain ⟨d, taken, named, here⟩ := (lists _ _).mp bound
    refine @Judged.blamed _ _ [] [] ⟨mark.id, name, true, blocks⟩ _ a rfl trivial ?_ ?_
    · exact .redeclared rfl (List.mem_append_left _ (List.mem_of_getElem? taken)) named here
    · simpa using mirrors.symbols
  | none =>
    refine .clean ⟨?_, trivial⟩
    intro cause offends
    cases offends with
    | redeclared _ earlier named here =>
      obtain ⟨slot, taken⟩ := List.getElem?_of_mem earlier
      have found := (lists _ _).mpr ⟨_, taken, named, here⟩
      rw [bound] at found
      cases found
    | undeclared refers _ => cases refers

/-- A reference is blamed if no declaration reaches it. -/
theorem refer (mark : Mark) (name : Token) :
    Judges blocks [mark.id] [⟨mark.id, name, false, blocks⟩] fun a => a.refer mark name := by
  intro a declared mirrors fresh
  -- All open scopes are asked, and together they bind what reaches the place.
  show Judged _ _ (a.refer mark name)
  simp only [Analysis.refer]
  cases bound : a.table.lookup? name.lexeme with
  | none =>
    refine @Judged.blamed _ _ [] [] ⟨mark.id, name, false, blocks⟩ _ a rfl trivial ?_ ?_
    · refine .undeclared rfl fun d member reaches => ?_
      rw [declarations_nil, List.append_nil] at member
      exact mirrors.scopes.unfound bound d member reaches.1 reaches.2
    · simpa using mirrors.symbols
  | some slot =>
    refine .clean ⟨?_, trivial⟩
    intro cause offends
    cases offends with
    | redeclared declares _ _ _ => cases declares
    | undeclared _ unknown =>
      obtain ⟨d, taken, named, encloses, _⟩ := mirrors.scopes.found bound
      exact unknown d (List.mem_of_getElem? taken) ⟨named, encloses⟩

/-- The places in a block are judged in a scope of its own, which can always be closed. -/
theorem block (id : Int) {places' : List Occurrence}
    (inside : Judges (id :: blocks) ids places walk)
    (resolves : Resolves (id :: blocks) ids places' walk) (apart : id ∉ ids) :
    Judges blocks (id :: ids) places fun a => walk a.enter >>= Analysis.leave := by
  intro a declared mirrors fresh
  have judged := inside (mirrors.enter fresh) (fresh.inside apart)
  show Judged declared places (walk a.enter >>= Analysis.leave)
  cases walked : walk a.enter with
  | error e =>
    rw [walked] at judged
    cases judged with
    | blamed split clean offends symbols => exact .blamed split clean offends symbols
  | ok a₁ =>
    rw [walked] at judged
    obtain ⟨mirrors₁, _⟩ := resolves walked (mirrors.enter fresh) (fresh.inside apart)
    show Judged declared places a₁.leave
    -- The scope of the block is not the only one.
    have opened := mirrors₁.scopes
    cases outer : a₁.table.outer with
    | nil =>
      have length := opened.length_eq
      simp [outer] at length
    | cons scope scopes =>
      simp only [Analysis.leave, ScopeTable.leave?, outer]
      cases judged with
      | clean clean => exact .clean clean

end Judges

namespace Node

variable {n : Node} {blocks : List Int}

/-- Two trees side by side are judged in turn. -/
theorem judgesBoth (blocks : List Int) {left right : Node}
    (distinct : (left.ids ++ right.ids).Nodup)
    (resolves : Resolves blocks left.ids (left.occurrences blocks) (·.visit left))
    (first : Judges blocks left.ids (left.visits blocks) (·.visit left))
    (second : Judges blocks right.ids (right.visits blocks) (·.visit right)) :
    Judges blocks (left.ids ++ right.ids) (left.visits blocks ++ right.visits blocks)
      fun a => a.visit left >>= (·.visit right) :=
  -- The second tree is judged with the declarations of the first one in place.
  first.andThen second resolves (placed blocks left) (declarations_visits blocks left)
    (List.disjoint_of_nodup_append distinct)

/-- The places of an expression are judged. -/
theorem IsExpression.judges (shape : n.IsExpression) (distinct : n.ids.Nodup) :
    Judges blocks n.ids (n.visits blocks) (·.visit n) := by
  -- The number of the operator itself is not among those that are resolved.
  induction shape with
  | literal mark value => exact .none
  | use mark name => exact .refer mark name
  | binary mark operator known leftShape rightShape leftIh rightIh =>
    rw [ids, List.nodup_cons] at distinct
    have both := judgesBoth blocks distinct.2 (leftShape.resolves distinct.2.of_append_left)
      (leftIh distinct.2.of_append_left) (rightIh distinct.2.of_append_right)
    exact both.mono (List.subset_cons_self _ _)

/-- Trees whose places are judged one by one are judged in turn. -/
theorem judgesAll {ns : List Node} (distinct : (idsAll ns).Nodup)
    (each : ∀ n ∈ ns, n.ids.Nodup → Judges blocks n.ids (n.visits blocks) (·.visit n))
    (resolves : ∀ n ∈ ns, n.ids.Nodup →
      Resolves blocks n.ids (n.occurrences blocks) (·.visit n)) :
    Judges blocks (idsAll ns) (visitsAll blocks ns) (·.visitAll ns) := by
  -- Each tree is judged with the declarations of all trees in front of it.
  induction ns with
  | nil => exact .none
  | cons n ns ih =>
    rw [idsAll] at distinct
    have first := each n (.head _) distinct.of_append_left
    have others := ih distinct.of_append_right (fun m member => each m (.tail _ member))
      fun m member => resolves m (.tail _ member)
    exact first.andThen others (resolves n (.head _) distinct.of_append_left) (placed blocks n)
      (declarations_visits blocks n) (List.disjoint_of_nodup_append distinct)

/-- The places of a statement are judged. -/
theorem IsStatement.judges (shape : n.IsStatement) (distinct : n.ids.Nodup) :
    Judges blocks n.ids (n.visits blocks) (·.visit n) := by
  induction shape generalizing blocks with
  | declare mark name => exact .declare mark name
  | assign mark name valueShape =>
    -- The target is looked at behind the value, although its number comes first.
    rw [ids, List.nodup_cons] at distinct
    have both := (valueShape.judges distinct.2).andThen (.refer mark name)
      (valueShape.resolves distinct.2) (placed blocks _) (declarations_visits blocks _)
      (by simpa using distinct.1)
    exact both.mono (by simp [ids])
  | print mark valueShape =>
    rw [ids, List.nodup_cons] at distinct
    exact (valueShape.judges distinct.2).mono (List.subset_cons_self _ _)
  | choose mark conditionShape yesShape yesIh =>
    rw [ids, List.nodup_cons] at distinct
    have both := judgesBoth blocks distinct.2
      (conditionShape.resolves distinct.2.of_append_left)
      (conditionShape.judges distinct.2.of_append_left) (yesIh distinct.2.of_append_right)
    exact both.mono (List.subset_cons_self _ _)
  | @chooseElse condition yes no mark conditionShape yesShape noShape yesIh noIh =>
    rw [ids, List.nodup_cons, List.append_assoc] at distinct
    have branches := judgesBoth blocks distinct.2.of_append_right
      (yesShape.resolves distinct.2.of_append_right.of_append_left)
      (yesIh distinct.2.of_append_right.of_append_left)
      (noIh distinct.2.of_append_right.of_append_right)
    have all := (conditionShape.judges distinct.2.of_append_left).andThen branches
      (conditionShape.resolves distinct.2.of_append_left) (placed blocks condition)
      (declarations_visits blocks condition) (List.disjoint_of_nodup_append distinct.2)
    exact all.mono (by simp [ids])
  | loop mark conditionShape bodyShape bodyIh =>
    rw [ids, List.nodup_cons] at distinct
    have both := judgesBoth blocks distinct.2
      (conditionShape.resolves distinct.2.of_append_left)
      (conditionShape.judges distinct.2.of_append_left) (bodyIh distinct.2.of_append_right)
    exact both.mono (List.subset_cons_self _ _)
  | block mark bodyShape ih =>
    rw [ids, List.nodup_cons] at distinct
    refine Judges.block mark.id ?_ (resolvesAll distinct.2 ?_) distinct.1
    · exact judgesAll distinct.2 (fun n member => ih n member)
        fun n member => (bodyShape n member).resolves
    · exact fun n member => (bodyShape n member).resolves

end Node

/-- Resolving a program stops at the first place that breaks a rule, and gets through if none
does. -/
theorem Analysis.program_judged {tokens : List Token} {tree : Node}
    (parsed : Node.parse tokens = .ok tree) :
    Judged [] (tree.visits []) (Analysis.empty.program tree) := by
  -- The walk starts with nothing declared and the scope of the program open.
  obtain ⟨mark, body, rfl, shape, distinct⟩ := Node.parse_program parsed
  rw [Node.ids, List.nodup_cons] at distinct
  have start : Mirrors Analysis.empty [] [] := ⟨rfl, .program (.empty (by simp)), rfl⟩
  exact Node.judgesAll distinct.2 (fun n member => (shape n member).judges)
    (fun n member => (shape n member).resolves) start ⟨by simp, by simp⟩

end BlockCode
