import BlockCode.Compilation
import BlockCode.Proofs.Scope.Offence
import BlockCode.Proofs.Scope.Walk

/-! The place where resolution stops, said in the order of the source: a place breaks a rule or not
by the declarations in front of it alone, whatever the order in which the places are looked at. -/

namespace BlockCode

namespace Occurrence

/-- Some places, each with all that is declared before it. -/
def contexts (declared : List Occurrence) :
    (places : List Occurrence) → List (List Occurrence × Occurrence)
  | [] => []
  -- A declaration is in force behind its place, and so for all that follow.
  | u :: places => (declared, u) :: contexts (declared ++ declarations [u]) places

variable {declared known places more : List Occurrence} {u : Occurrence}

/-- Places that follow others have also the declarations among those before them. -/
theorem contexts_append (declared places more : List Occurrence) :
    contexts declared (places ++ more) =
      contexts declared places ++ contexts (declared ++ declarations places) more := by
  -- What a place declares moves over to what was declared before.
  induction places generalizing declared with
  | nil => simp [contexts]
  | cons u places ih =>
    rw [List.cons_append, contexts, contexts, ih, List.cons_append, List.append_assoc,
      ← declarations_append, List.singleton_append]

/-- A place is found with the declarations in front of it. -/
theorem mem_contexts : (known, u) ∈ contexts declared places ↔
    ∃ before after, places = before ++ u :: after ∧ known = declared ++ declarations before := by
  constructor
  · intro member
    -- Each place in front of it adds what it declares.
    induction places generalizing declared with
    | nil => cases member
    | cons v places ih =>
      rcases List.mem_cons.mp member with here | later
      · cases here
        exact ⟨[], places, rfl, by simp⟩
      · obtain ⟨before, after, rfl, rfl⟩ := ih later
        refine ⟨v :: before, after, rfl, ?_⟩
        rw [List.append_assoc, ← declarations_append, List.singleton_append]
  · intro ⟨before, after, split, same⟩
    rw [split, contexts_append, same]
    exact List.mem_append_right _ (.head _)

/-- Only the places have contexts. -/
theorem mem_of_contexts (member : (known, u) ∈ contexts declared places) : u ∈ places := by
  -- A context is taken at one of the places.
  obtain ⟨before, after, rfl, _⟩ := mem_contexts.mp member
  exact List.mem_append_right _ (.head _)

end Occurrence

open Occurrence

/-- Places are clean if none of them breaks a rule by the declarations before it. -/
theorem clean_iff {declared places : List Occurrence} : Clean declared places ↔
    ∀ known u, (known, u) ∈ contexts declared places → ∀ cause, ¬ Offends known u cause := by
  -- Both look at the first place, and at the others with what it declares.
  induction places generalizing declared with
  | nil => simp [Clean, contexts]
  | cons u places ih =>
    rw [Clean, ih, contexts]
    constructor
    · intro ⟨first, others⟩ known v member
      rcases List.mem_cons.mp member with here | later
      · cases here
        exact first
      · exact others known v later
    · intro all
      exact ⟨all declared u (.head _), fun known v later => all known v (.tail _ later)⟩

namespace Node

variable {n : Node}

/-- The places of an expression are looked at in their order in the source. -/
theorem IsExpression.visits_eq (shape : n.IsExpression) (blocks : List Int) :
    n.visits blocks = n.occurrences blocks := by
  -- An expression has no assignment in it, which alone is out of order.
  induction shape with
  | literal mark value => rfl
  | use mark name => rfl
  | binary mark operator known leftShape rightShape leftIh rightIh =>
    rw [visits, occurrences, leftIh, rightIh]

/-- Places that are the same in another order stay so with others behind them. -/
theorem contexts_both {declared places others visited visited' : List Occurrence}
    (first : (contexts declared visited).Perm (contexts declared places))
    (second : ∀ declared, (contexts declared visited').Perm (contexts declared others))
    (same : declarations visited = declarations places) :
    (contexts declared (visited ++ visited')).Perm (contexts declared (places ++ others)) := by
  -- What is declared before the second row does not depend on the order of the first.
  rw [contexts_append, contexts_append, same]
  exact first.append (second _)

/-- The order in which the places of some trees are looked at does not change what is declared
before each of them, if it does not for each tree. -/
theorem contexts_all {ns : List Node} {blocks : List Int} (each : ∀ n ∈ ns, ∀ declared,
      (contexts declared (n.visits blocks)).Perm (contexts declared (n.occurrences blocks)))
    (declared : List Occurrence) :
    (contexts declared (visitsAll blocks ns)).Perm
      (contexts declared (occurrencesAll blocks ns)) := by
  -- Each tree is looked at with the declarations of those before it, which are the same.
  induction ns generalizing declared with
  | nil => exact .refl _
  | cons n ns ih =>
    exact contexts_both (each n (.head _) declared)
      (ih fun m member => each m (.tail _ member)) (declarations_visits blocks n)

/-- The order in which the places of a statement are looked at does not change what is declared
before each of them. -/
theorem IsStatement.contexts_perm (shape : n.IsStatement) : ∀ blocks declared,
    (contexts declared (n.visits blocks)).Perm (contexts declared (n.occurrences blocks)) := by
  -- Only assignments are looked at in another order.
  induction shape with
  | declare mark name => exact fun blocks declared => .refl _
  | assign mark name valueShape =>
    intro blocks declared
    -- Nothing is declared in the value that is looked at before the target.
    rw [visits, occurrences, valueShape.visits_eq, contexts_append,
      valueShape.declarations_eq_nil]
    simp only [contexts, declarations_cons_refers, declarations_nil, List.append_nil]
    exact List.perm_append_singleton _ _
  | print mark valueShape =>
    intro blocks declared
    rw [visits, occurrences, valueShape.visits_eq]
  | @choose condition yes mark conditionShape yesShape yesIh =>
    intro blocks declared
    rw [visits, occurrences]
    refine contexts_both ?_ (yesIh blocks) (declarations_visits blocks condition)
    rw [conditionShape.visits_eq]
  | @chooseElse condition yes no mark conditionShape yesShape noShape yesIh noIh =>
    intro blocks declared
    rw [visits, occurrences, List.append_assoc]
    refine contexts_both ?_ (fun declared => ?_) (declarations_visits blocks condition)
    · rw [conditionShape.visits_eq]
    · exact contexts_both (yesIh blocks declared) (noIh blocks) (declarations_visits blocks yes)
  | @loop condition body mark conditionShape bodyShape bodyIh =>
    intro blocks declared
    rw [visits, occurrences]
    refine contexts_both ?_ (bodyIh blocks) (declarations_visits blocks condition)
    rw [conditionShape.visits_eq]
  | block mark bodyShape ih =>
    intro blocks declared
    rw [visits, occurrences]
    exact contexts_all (fun n member => ih n member (mark.id :: blocks)) declared

end Node

/-- A place of a tree breaks a rule by the declarations in front of it in the source. -/
def Offence (tree : Node) (u : Occurrence) (cause : Cause) : Prop :=
  -- The order is that of the source, where a target comes before its value.
  ∃ before after, tree.occurrences [] = before ++ u :: after ∧
    Offends (declarations before) u cause

/-- A place that breaks a rule is found with the declarations in front of it. -/
theorem offence_iff {tree : Node} {u : Occurrence} {cause : Cause} : Offence tree u cause ↔
    ∃ known, (known, u) ∈ contexts [] (tree.occurrences []) ∧ Offends known u cause := by
  -- A split of the places at one of them is the context of that place.
  constructor
  · intro ⟨before, after, split, offends⟩
    exact ⟨_, mem_contexts.mpr ⟨before, after, split, rfl⟩, offends⟩
  · intro ⟨known, member, offends⟩
    obtain ⟨before, after, split, rfl⟩ := mem_contexts.mp member
    exact ⟨before, after, split, offends⟩

/-- The symbols of the first declarations are the first symbols. -/
theorem symbolsOf_isPrefix (declared more : List Occurrence) :
    symbolsOf declared <+: symbolsOf (declared ++ more) := by
  -- The number of a symbol is its index, which does not change with more behind it.
  unfold symbolsOf
  rw [List.mapIdx_append]
  exact List.prefix_append _ _

/-- The places of a program are looked at once each, and the order does not change what is declared
before each of them. -/
theorem Node.parse_contexts {tokens : List Token} {tree : Node}
    (parsed : Node.parse tokens = .ok tree) :
    (contexts [] (tree.visits [])).Perm (contexts [] (tree.occurrences [])) ∧
      (tree.visits []).Nodup := by
  obtain ⟨mark, body, rfl, shape, distinct⟩ := Node.parse_program parsed
  -- Places are told apart by the numbers of their nodes.
  refine ⟨Node.contexts_all (fun n member => (shape n member).contexts_perm []) [], ?_⟩
  rw [(Node.visits_perm [] _).nodup_iff]
  exact (distinct.sublist (Node.placed [] _).named).of_map

/-- Resolution fails if a place breaks a rule, and it blames the first one that does, in the order
in which the places are looked at. The variables known by then are those declared in front of that
place in the source, with the slots that they have among all declarations; they are also what is
kept of the source text. Operators are gone through as on a stack of their operands. -/
theorem analysis_first_offence {tokens : List Token} {tree : Node}
    (parsed : Node.parse tokens = .ok tree) :
    ((∃ failure known, Analysis.empty.program tree = .error (failure, known)) ↔
      ∃ u cause, Offence tree u cause) ∧
    (∀ failure known, Analysis.empty.program tree = .error (failure, known) →
      ∃ before u after cause, tree.occurrences [] = before ++ u :: after ∧
        Offends (declarations before) u cause ∧
        failure = .rejected ⟨cause, some u.name.position⟩ ∧
        (∃ front back, tree.visits [] = front ++ u :: back ∧
          ∀ v ∈ front, ∀ other, ¬ Offence tree v other) ∧
        known.symbols.toList = symbolsOf (declarations before) ∧
        symbolsOf (declarations before) <+: symbolsOf (declarations (tree.occurrences [])) ∧
        ∀ source, tokenize source = .ok tokens → Compilation.ofSource source =
          .ok { tokens, tree := some tree, symbols := known.symbols,
                diagnostics := [Rejection.diagnostic ⟨cause, some u.name.position⟩] }) ∧
    ∀ (a : Analysis) (n : Node), a.visit n = a.visitPending [n] := by
  obtain ⟨same, distinct⟩ := Node.parse_contexts parsed
  have judged := Analysis.program_judged parsed
  refine ⟨⟨?_, ?_⟩, ?_, Analysis.visit_eq_visitPending⟩
  · intro ⟨failure, known, failed⟩
    rw [failed] at judged
    cases judged with
    | @blamed front back u cause _ split clean offends symbols =>
      -- The place that is blamed has the same declarations before it in the source.
      refine ⟨u, cause, offence_iff.mpr ⟨_, same.mem_iff.mp ?_, offends⟩⟩
      exact mem_contexts.mpr ⟨front, back, split, rfl⟩
  · intro ⟨u, cause, offence⟩
    obtain ⟨known, member, offends⟩ := offence_iff.mp offence
    cases outcome : Analysis.empty.program tree with
    | error e => exact ⟨e.1, e.2, rfl⟩
    | ok a =>
      -- A walk that gets through has found nothing wrong.
      rw [outcome] at judged
      cases judged with
      | clean clean =>
        have fine := clean_iff.mp clean known u (same.mem_iff.mpr member) cause
        exact absurd offends fine
  · intro failure known failed
    rw [failed] at judged
    cases judged with
    | @blamed front back u cause _ split clean offends symbols =>
      have member : (declarations front, u) ∈ contexts [] (tree.occurrences []) :=
        same.mem_iff.mp (mem_contexts.mpr ⟨front, back, split, rfl⟩)
      obtain ⟨before, after, placed, equal⟩ := mem_contexts.mp member
      -- What is known in the order of the walk is what is declared in front in the source.
      rw [List.nil_append] at equal offends symbols
      rw [equal] at offends symbols
      refine ⟨before, u, after, cause, placed, offends, rfl, ⟨front, back, split, ?_⟩, symbols,
        ?_, ?_⟩
      · intro v inside other offence
        obtain ⟨declared, found, wrong⟩ := offence_iff.mp offence
        replace found := same.mem_iff.mpr found
        rw [split, contexts_append, List.mem_append] at found
        rcases found with found | found
        · exact clean_iff.mp clean declared v found other wrong
        · -- No place is looked at twice.
          rw [split] at distinct
          exact List.disjoint_of_nodup_append distinct inside (mem_of_contexts found)
      · rw [placed, declarations_append]
        exact symbolsOf_isPrefix _ _
      · intro source scanned
        simp [Compilation.ofSource, scanned, parsed, failed, Compilation.reject]

/-- A program with five places that break a rule, three of them in one assignment. -/
def offendingSource : String :=
  "int a; \x7b int b; c = b + d * e; int b; \x7d int a;"

/-- Of those places an operand is blamed, before the target of the assignment, and the two variables
declared in front of it are known. -/
theorem analysis_first_offence_nested : ∃ tokens tree made u front back,
    tokenize offendingSource = .ok tokens ∧ Node.parse tokens = .ok tree ∧
    Compilation.ofSource offendingSource = .ok made ∧
    made.symbols.map (fun s => (s.name, s.slot)) = #[("a", 0), ("b", 1)] ∧
    Offence tree u (.undeclared "d") ∧ tree.visits [] = front ++ u :: back ∧
    ∀ v ∈ front, ∀ cause, ¬ Offence tree v cause := by
  -- The three stages are run in one go, and what they come to is taken apart afterwards.
  have stopped : ((tokenize offendingSource).toOption.bind fun tokens =>
      (Node.parse tokens).toOption.bind fun tree =>
        Except.casesOn (motive := fun _ => Option (Failure × Array (String × Nat)))
          (Analysis.empty.program tree)
          (fun e => some (e.1, e.2.symbols.map fun s => (s.name, s.slot))) fun _ => none) =
      some (.rejected ⟨.undeclared "d", some ⟨1, 25⟩⟩, #[("a", 0), ("b", 1)]) := by decide +kernel
  cases scanned : tokenize offendingSource with
  | error failure => simp [scanned, Except.toOption] at stopped
  | ok tokens =>
    cases parsed : Node.parse tokens with
    | error failure => simp [scanned, parsed, Except.toOption] at stopped
    | ok tree =>
      cases failed : Analysis.empty.program tree with
      | ok a => simp [scanned, parsed, failed, Except.toOption] at stopped
      | error e =>
        obtain ⟨before, u, after, cause, placed, offends, same, ⟨front, back, split, first⟩, _, _,
          kept⟩ := (analysis_first_offence parsed).2.1 e.1 e.2 failed
        obtain ⟨blamed, known⟩ : e.1 = .rejected ⟨.undeclared "d", some ⟨1, 25⟩⟩ ∧
            e.2.symbols.map (fun s => (s.name, s.slot)) = #[("a", 0), ("b", 1)] := by
          simpa [scanned, parsed, failed, Except.toOption] using stopped
        obtain rfl : cause = .undeclared "d" := by
          simp only [same, Failure.rejected.injEq, Rejection.mk.injEq] at blamed
          exact blamed.1
        exact ⟨tokens, tree, _, u, front, back, rfl, parsed, kept _ scanned, known,
          ⟨before, after, placed, offends⟩, split, first⟩

end BlockCode
