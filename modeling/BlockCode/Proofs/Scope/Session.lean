import Mathlib.Data.List.Nodup
import BlockCode.Failure
import BlockCode.Scope

/-! A table of scopes under any row of operations: which slots it gives out, what it binds, and what
is left when a block that was opened is closed again. -/

namespace BlockCode

namespace ScopeTable

/-- What can be asked of a table. -/
inductive Operation where
  | enter
  | leave
  | declare (name : String)
  | lookup (name : String)
deriving DecidableEq, Repr

/-- What a table answers. -/
inductive Answer where
  /-- A block was opened or closed. -/
  | done
  /-- The operation was not possible. -/
  | failed (defect : Defect)
  /-- The slot of a name that was to be declared; none if it is declared already. -/
  | declared (slot : Option Nat)
  /-- The slot of a name that was looked up; none if it is not bound. -/
  | found (slot : Option Nat)
deriving DecidableEq, Repr

/-- The slot that a declaration was given. -/
def Answer.given? : Answer → Option Nat
  -- A name that was declared before is given no slot.
  | declared slot => slot
  | _ => none

variable {t t' : ScopeTable} {name : String} {slot : Nat}

/-- Only the program's own scope cannot be closed. -/
theorem leave?_eq_none : t.leave? = none ↔ t.outer = [] := by
  -- The scopes around the innermost one decide.
  unfold leave?
  cases t.outer <;> simp

/-- Closing a block brings back the one around it. -/
theorem leave?_eq_some : t.leave? = some t' ↔
    ∃ scope outer, t.outer = scope :: outer ∧ t' = ⟨scope, outer, t.slotCount⟩ := by
  -- The scope that comes back is the first of those around.
  unfold leave?
  cases t.outer <;> simp [eq_comm]

/-- A name is refused if the innermost block has a slot for it. -/
theorem declare?_eq_none : t.declare? name = none ↔ ∃ slot, t.inner.lookup name = some slot := by
  -- A search of the innermost scope decides, whatever the scopes around it bind.
  unfold declare?
  cases t.inner.lookup name <;> simp

/-- A name that is new to the innermost block is bound there to the next slot. -/
theorem declare?_eq_some : t.declare? name = some (slot, t') ↔
    t.inner.lookup name = none ∧ slot = t.slotCount ∧
      t' = { t with inner := (name, t.slotCount) :: t.inner, slotCount := t.slotCount + 1 } := by
  -- The new slot is the number of slots given out so far.
  unfold declare?
  cases t.inner.lookup name <;> simp [eq_comm]

/-- All bindings of a table, the innermost ones first. -/
def bindings (t : ScopeTable) : List (String × Nat) := (t.inner :: t.outer).flatten

/-- The order in which the scopes are listed makes no difference to what is bound. -/
theorem bindings_perm (t : ScopeTable) : t.scopes.flatten.Perm t.bindings :=
  (List.reverse_perm (t.inner :: t.outer)).flatten

/-- A table is in order: no scope binds a name twice, no slot is bound twice, and no slot is bound
that was not given out. -/
structure Tidy (t : ScopeTable) : Prop where
  names : ∀ scope ∈ t.inner :: t.outer, (scope.map (·.1)).Nodup
  slots : (t.bindings.map (·.2)).Nodup
  below : ∀ binding ∈ t.bindings, binding.2 < t.slotCount

namespace Tidy

/-- The table of a fresh program binds nothing. -/
theorem empty : Tidy ScopeTable.empty := by
  refine ⟨?_, ?_, ?_⟩ <;> simp [ScopeTable.empty, bindings]

/-- A new block binds nothing either. -/
theorem enter (tidy : Tidy t) : Tidy t.enter := by
  -- An empty scope adds no binding to those that are there.
  have same : t.enter.bindings = t.bindings := by simp [bindings, ScopeTable.enter]
  refine ⟨?_, by rw [same]; exact tidy.slots, by rw [same]; exact tidy.below⟩
  exact List.forall_mem_cons.mpr ⟨List.nodup_nil, tidy.names⟩

/-- A block that is closed takes its bindings with it. -/
theorem leave (tidy : Tidy t) (left : t.leave? = some t') : Tidy t' := by
  obtain ⟨scope, outer, around, rfl⟩ := leave?_eq_some.mp left
  -- What stays bound is the end of what was bound.
  have fewer : t.bindings = t.inner ++ (⟨scope, outer, t.slotCount⟩ : ScopeTable).bindings := by
    simp [bindings, around]
  refine ⟨?_, ?_, ?_⟩
  · intro other member
    exact tidy.names other (by rw [around]; exact .tail _ member)
  · have slots := tidy.slots
    rw [fewer, List.map_append] at slots
    exact slots.of_append_right
  · intro binding member
    exact tidy.below binding (by rw [fewer]; exact List.mem_append_right _ member)

/-- A declaration binds a new name of its block to a slot that nothing else has. -/
theorem declare (tidy : Tidy t) (declared : t.declare? name = some (slot, t')) : Tidy t' := by
  obtain ⟨unbound, rfl, rfl⟩ := declare?_eq_some.mp declared
  obtain ⟨inner, others⟩ := List.forall_mem_cons.mp tidy.names
  refine ⟨?_, ?_, ?_⟩
  · -- The name is looked for in the block before it is bound there.
    refine List.forall_mem_cons.mpr ⟨?_, others⟩
    rw [List.map_cons, List.nodup_cons]
    refine ⟨?_, inner⟩
    intro member
    obtain ⟨binding, inside, same⟩ := List.mem_map.mp member
    have absent := List.lookup_eq_none_iff.mp unbound binding inside
    simp [same] at absent
  · -- All slots that are bound lie below the next one.
    show (t.slotCount :: t.bindings.map (·.2)).Nodup
    rw [List.nodup_cons]
    refine ⟨?_, tidy.slots⟩
    intro member
    obtain ⟨binding, inside, same⟩ := List.mem_map.mp member
    have bound := tidy.below binding inside
    omega
  · show ∀ binding ∈ (name, t.slotCount) :: t.bindings, binding.2 < t.slotCount + 1
    refine List.forall_mem_cons.mpr ⟨Nat.lt_succ_self _, ?_⟩
    intro binding inside
    have bound := tidy.below binding inside
    omega

/-- In a table that is in order, what a scope finds for a name is what it binds the name to. -/
theorem lookup_iff {scope : Scope} (tidy : Tidy t) (member : scope ∈ t.inner :: t.outer) :
    scope.lookup name = some slot ↔ (name, slot) ∈ scope := by
  constructor
  · intro found
    obtain ⟨front, back, split, _⟩ := List.lookup_eq_some_iff.mp found
    simp [split]
  · -- A binding before this one has another name.
    intro bound
    obtain ⟨front, back, split⟩ := List.append_of_mem bound
    refine List.lookup_eq_some_iff.mpr ⟨front, back, split, ?_⟩
    intro binding before
    have distinct := tidy.names scope member
    rw [split, List.map_append, List.map_cons] at distinct
    have apart := List.disjoint_of_nodup_append distinct
    have other : binding.1 ≠ name := fun same =>
      apart (List.mem_map_of_mem before) (by simp [same])
    simpa using Ne.symm other

/-- A scope finds nothing for the names that it does not bind. -/
theorem lookup_none {scope : Scope} :
    scope.lookup name = none ↔ ∀ slot, (name, slot) ∉ scope := by
  -- The search compares names, so a binding of another name does not stop it.
  rw [List.lookup_eq_none_iff]
  constructor
  · intro absent slot bound
    have other := absent _ bound
    simp at other
  · intro absent binding member
    have other : name ≠ binding.1 := by
      rintro rfl
      exact absent binding.2 member
    simpa using other

/-- A name is refused exactly if the innermost scope binds it. -/
theorem declare?_none (tidy : Tidy t) :
    t.declare? name = none ↔ ∃ slot, (name, slot) ∈ t.inner := by
  -- In a scope without double names, what is found is what is bound.
  rw [declare?_eq_none]
  exact exists_congr fun slot => tidy.lookup_iff (.head _)

/-- A name is looked up in the innermost of the scopes that bind it. -/
theorem lookup?_some (tidy : Tidy t) : t.lookup? name = some slot ↔
    ∃ around scope within, t.scopes = around ++ scope :: within ∧ (name, slot) ∈ scope ∧
      ∀ other ∈ within, ∀ slot', (name, slot') ∉ other := by
  unfold lookup?
  rw [List.findSome?_eq_some_iff]
  constructor
  · -- The search goes from the inside out, the list from the outside in.
    rintro ⟨within, scope, around, split, found, passed⟩
    refine ⟨around.reverse, scope, within.reverse, by simp [scopes, split], ?_, ?_⟩
    · exact (tidy.lookup_iff (by rw [split]; simp)).mp found
    · intro other member
      exact lookup_none.mp (passed other (List.mem_reverse.mp member))
  · rintro ⟨around, scope, within, split, bound, passed⟩
    have inward : t.inner :: t.outer = within.reverse ++ scope :: around.reverse := by
      have turned := congrArg List.reverse split
      simpa [scopes] using turned
    refine ⟨within.reverse, scope, around.reverse, inward, ?_, ?_⟩
    · exact (tidy.lookup_iff (by rw [inward]; simp)).mpr bound
    · intro other member
      exact lookup_none.mpr (passed other (List.mem_reverse.mp member))

/-- A name is not found exactly if no scope binds it. -/
theorem lookup?_none :
    t.lookup? name = none ↔ ∀ scope ∈ t.scopes, ∀ slot, (name, slot) ∉ scope := by
  -- The search goes from the inside out, and ends without an answer in every scope.
  unfold lookup?
  rw [List.findSome?_eq_none_iff]
  simp only [scopes, List.mem_reverse]
  exact forall₂_congr fun scope member => lookup_none

end Tidy

/-- A table in use. -/
structure Session where
  table : ScopeTable
  /-- The depth that each open scope was given when it was opened, from the outside in. -/
  depths : List Nat
  /-- All answers so far. -/
  answers : List Answer
deriving DecidableEq, Repr

namespace Session

/-- A fresh table, of which nothing was asked. -/
def fresh : Session := ⟨.empty, [ScopeTable.empty.depth], []⟩

/-- Carries out one operation. -/
def step (s : Session) : Operation → Session
  | .enter => ⟨s.table.enter, s.depths ++ [s.table.enter.depth], s.answers ++ [.done]⟩
  -- Leaving the outermost scope fails, and changes nothing.
  | .leave =>
    match s.table.leave? with
    | some table => ⟨table, s.depths.dropLast, s.answers ++ [.done]⟩
    | none => { s with answers := s.answers ++ [.failed .outermostScope] }
  | .declare name =>
    -- A slot is taken only if the name is new in its scope.
    match s.table.declare? name with
    | some (slot, table) =>
      { s with table := table, answers := s.answers ++ [.declared (some slot)] }
    | none => { s with answers := s.answers ++ [.declared none] }
  | .lookup name => { s with answers := s.answers ++ [.found (s.table.lookup? name)] }

/-- Carries out some operations in turn. -/
def run (s : Session) (operations : List Operation) : Session := operations.foldl step s

/-- The slots that declarations were given, in order. -/
def given (s : Session) : List Nat := s.answers.filterMap Answer.given?

/-- Everything that an operation can do. -/
inductive Effect (s : Session) : Operation → Session → Prop where
  | entered : Effect s .enter
      ⟨s.table.enter, s.depths ++ [s.table.enter.depth], s.answers ++ [.done]⟩
  | left {scope : Scope} {outer : List Scope} (around : s.table.outer = scope :: outer) :
      Effect s .leave
        ⟨⟨scope, outer, s.table.slotCount⟩, s.depths.dropLast, s.answers ++ [.done]⟩
  | outermost (alone : s.table.outer = []) :
      Effect s .leave { s with answers := s.answers ++ [.failed .outermostScope] }
  | declared {name : String} (unbound : s.table.inner.lookup name = none) :
      Effect s (.declare name)
        ⟨⟨(name, s.table.slotCount) :: s.table.inner, s.table.outer, s.table.slotCount + 1⟩,
          s.depths, s.answers ++ [.declared (some s.table.slotCount)]⟩
  | refused {name : String} {slot : Nat} (bound : s.table.inner.lookup name = some slot) :
      Effect s (.declare name) { s with answers := s.answers ++ [.declared none] }
  | lookedUp {name : String} : Effect s (.lookup name)
      { s with answers := s.answers ++ [.found (s.table.lookup? name)] }

/-- An operation does nothing else. -/
theorem effect (s : Session) (op : Operation) : Effect s op (s.step op) := by
  -- Opening and looking up cannot fail; for the others the table tells which way they go.
  cases op with
  | enter => exact .entered
  | lookup name => exact .lookedUp
  | leave =>
    simp only [step]
    cases left : s.table.leave? with
    | none => exact .outermost (leave?_eq_none.mp left)
    | some table =>
      obtain ⟨scope, outer, around, rfl⟩ := leave?_eq_some.mp left
      exact .left around
  | declare name =>
    simp only [step]
    cases declared : s.table.declare? name with
    | none =>
      obtain ⟨slot, bound⟩ := declare?_eq_none.mp declared
      exact .refused bound
    | some pair =>
      obtain ⟨slot, table⟩ := pair
      obtain ⟨unbound, rfl, rfl⟩ := declare?_eq_some.mp declared
      exact .declared unbound

/-- What holds all the time: the table is in order, the depths of the scopes count from zero, and
the slots given out are all numbers below their number, in order. -/
structure Sound (s : Session) : Prop where
  tidy : Tidy s.table
  depths : s.depths = List.range (s.table.depth + 1)
  given : s.given = List.range s.table.slotCount

variable {s s' : Session} {op : Operation} {operations : List Operation}

/-- A fresh table is sound. -/
theorem sound_fresh : Sound fresh :=
  ⟨.empty, rfl, rfl⟩

/-- An answer adds the slot that it gives out, if it gives one. -/
theorem given_append (answers : List Answer) (answer : Answer) :
    (answers ++ [answer]).filterMap Answer.given? =
      answers.filterMap Answer.given? ++ answer.given?.toList := by
  -- Only the last answer is new.
  rw [List.filterMap_append, List.filterMap_cons]
  cases answer.given? <;> rfl

/-- An operation keeps a session sound. -/
theorem Sound.step (sound : Sound s) (effect : Effect s op s') : Sound s' := by
  obtain ⟨tidy, depths, given⟩ := sound
  rw [Session.given] at given
  -- What was given out so far changes with a declaration only.
  have same : ∀ answer : Answer, answer.given? = none →
      (s.answers ++ [answer]).filterMap Answer.given? = List.range s.table.slotCount := by
    intro answer nothing
    rw [given_append, given, nothing]
    exact List.append_nil _
  cases effect with
  | entered =>
    refine ⟨tidy.enter, ?_, same _ rfl⟩
    -- The new scope lies one deeper than the last one.
    show s.depths ++ [s.table.depth + 1] = List.range (s.table.depth + 1 + 1)
    rw [depths, ← List.range_succ]
  | @left scope outer around =>
    refine ⟨tidy.leave (leave?_eq_some.mpr ⟨_, _, around, rfl⟩), ?_, same _ rfl⟩
    -- The depth that goes is the last one.
    show s.depths.dropLast = List.range (outer.length + 1)
    rw [depths, depth, around, List.length_cons, List.range_succ]
    exact List.dropLast_concat
  | declared unbound =>
    refine ⟨tidy.declare (declare?_eq_some.mpr ⟨unbound, rfl, rfl⟩), depths, ?_⟩
    -- The slot is the number of those given out before.
    show (s.answers ++ [_]).filterMap Answer.given? = List.range (s.table.slotCount + 1)
    rw [given_append, given, List.range_succ]
    rfl
  | outermost | refused | lookedUp =>
    exact ⟨tidy, depths, same _ rfl⟩

/-- Any row of operations keeps a session sound. -/
theorem Sound.run (sound : Sound s) (operations : List Operation) : Sound (s.run operations) := by
  -- Each operation starts from the sound session that the one before it has left.
  induction operations generalizing s with
  | nil => exact sound
  | cons op operations ih => exact ih (sound.step (s.effect op))

/-- No operation takes a slot back. -/
theorem Effect.slotCount_le (effect : Effect s op s') :
    s.table.slotCount ≤ s'.table.slotCount := by
  -- A declaration gives out one more, and no other operation touches the count.
  cases effect with
  | declared unbound => exact Nat.le_succ _
  | entered | left | outermost | refused | lookedUp => exact Nat.le_refl _

/-- No row of operations takes a slot back. -/
theorem slotCount_run (s : Session) (operations : List Operation) :
    s.table.slotCount ≤ (s.run operations).table.slotCount := by
  -- The count only ever grows from one operation to the next.
  induction operations generalizing s with
  | nil => exact Nat.le_refl _
  | cons op operations ih => exact Nat.le_trans (s.effect op).slotCount_le (ih (s.step op))

/-- Operations that close as many blocks as they open, and never one that was open before. -/
structure Matched (operations : List Operation) : Prop where
  closed : operations.count .leave = operations.count .enter
  inside : ∀ front, front <+: operations → front.count .leave ≤ front.count .enter

/-- Some scopes are open inside of others. -/
def Inside (older : List Scope) (level : Nat) (t : ScopeTable) : Prop :=
  ∃ newer, t.inner :: t.outer = newer ++ older ∧ newer.length = level

/-- An operation that closes no older scope leaves all of them as they are. -/
theorem Inside.step {older : List Scope} {level : Nat} (within : Inside older (level + 1) s.table)
    (stays : op = .leave → 0 < level) (effect : Effect s op s') :
    Inside older (level + 1 + [op].count .enter - [op].count .leave) s'.table := by
  obtain ⟨newer, split, length⟩ := within
  -- The innermost scope is one of the newer ones.
  cases newer with
  | nil => simp at length
  | cons inner newer =>
    obtain ⟨rfl, around⟩ := List.cons.inj split
    rw [List.length_cons, Nat.add_right_cancel_iff] at length
    cases effect with
    | entered => exact ⟨[] :: s.table.inner :: newer, congrArg ([] :: ·) split, by simp [length]⟩
    | left outside =>
      -- There is another newer scope, which becomes the innermost one.
      have more := stays rfl
      cases newer with
      | nil =>
        rw [List.length_nil] at length
        omega
      | cons scope newer =>
        obtain ⟨rfl, rfl⟩ := List.cons.inj (outside.symm.trans around)
        exact ⟨_ :: newer, rfl, by simp [← length]⟩
    | outermost alone =>
      -- The scopes around the newer ones cannot be none.
      have more := stays rfl
      have none : newer.length = 0 := by
        simp [(List.append_eq_nil_iff.mp (around.symm.trans alone)).1]
      omega
    | @declared name unbound =>
      refine ⟨((name, s.table.slotCount) :: s.table.inner) :: newer, ?_, by simp [length]⟩
      exact congrArg (((name, s.table.slotCount) :: s.table.inner) :: ·) around
    | refused | lookedUp => exact ⟨s.table.inner :: newer, split, by simp [length]⟩

/-- Operations that close no older scope leave all of them as they are. -/
theorem Inside.run {older : List Scope} {level : Nat} (within : Inside older (level + 1) s.table)
    (stays : ∀ front, front <+: operations → front.count .leave ≤ level + front.count .enter) :
    Inside older (level + 1 + operations.count .enter - operations.count .leave)
      (s.run operations).table := by
  -- The newer scopes are counted along the operations.
  induction operations generalizing s level with
  | nil => exact within
  | cons op operations ih =>
    have counted : ∀ (x : Operation) (rest : List Operation),
        (op :: rest).count x = [op].count x + rest.count x :=
      fun x rest => (List.count_append : ([op] ++ rest).count x = _)
    have first := stays [op] (by simp)
    have next := within.step (fun closes => by subst closes; simp at first; omega) (s.effect op)
    rw [show level + 1 + [op].count .enter - [op].count .leave =
      level + [op].count .enter - [op].count .leave + 1 by omega] at next
    have further := ih next fun front begins => by
      have longer := stays (op :: front) (List.cons_prefix_cons.mpr ⟨rfl, begins⟩)
      rw [counted .leave front, counted .enter front] at longer
      omega
    have total := stays (op :: operations) List.prefix_rfl
    rw [counted .leave operations, counted .enter operations] at total ⊢
    rwa [show level + [op].count .enter - [op].count .leave + 1 + operations.count .enter -
      operations.count .leave = level + 1 + ([op].count .enter + operations.count .enter) -
        ([op].count .leave + operations.count .leave) by omega] at further

/-- A block that is opened and closed again leaves the scopes around it as they were. -/
theorem scopes_segment (s : Session) {middle : List Operation} (matched : Matched middle) :
    (s.run (.enter :: middle ++ [.leave])).table.inner = s.table.inner ∧
      (s.run (.enter :: middle ++ [.leave])).table.outer = s.table.outer := by
  -- Before the last operation only the scope of the block is left inside of the older ones.
  have opened : Inside (s.table.inner :: s.table.outer) (0 + 1) (s.step .enter).table :=
    ⟨[[]], rfl, rfl⟩
  have within := opened.run fun front begins => by
    have inside := matched.inside front begins
    omega
  obtain ⟨newer, split, length⟩ := within
  have single : newer.length = 1 := by
    have closed := matched.closed
    omega
  obtain ⟨scope, rfl⟩ := List.length_eq_one_iff.mp single
  obtain ⟨_, around⟩ := List.cons.inj split
  -- The last operation closes it.
  have ran : s.run (.enter :: middle ++ [.leave]) = ((s.step .enter).run middle).step .leave := by
    simp [run, List.foldl_append]
  rw [ran]
  have last := ((s.step .enter).run middle).effect .leave
  generalize ((s.step .enter).run middle).step .leave = s' at last
  cases last with
  | left outside =>
    obtain ⟨rfl, rfl⟩ := List.cons.inj (outside.symm.trans around)
    exact ⟨rfl, rfl⟩
  | outermost alone => simp [around] at alone

/-- Whatever a fresh table is asked, its declarations are given the slots in order, its scopes have
the depths of their places, and no slot is bound twice or before it was given out. A name is refused
exactly if the innermost scope binds it, and found in the innermost scope that binds it. What is
refused or only looked up changes nothing, and a block that is opened and closed again leaves all
older scopes as they were. -/
theorem session_invariant {operations : List Operation} {s : Session}
    (ran : fresh.run operations = s) :
    s.given = List.range s.table.slotCount ∧
    (s.table.scopes ≠ [] ∧ s.depths = List.range s.table.scopes.length) ∧
    ((s.table.scopes.flatten.map (·.2)).Nodup ∧
      (∀ binding ∈ s.table.scopes.flatten, binding.2 < s.table.slotCount) ∧
      ∀ scope ∈ s.table.scopes, (scope.map (·.1)).Nodup) ∧
    (∀ name, s.table.declare? name = none ↔ ∃ slot, (name, slot) ∈ s.table.inner) ∧
    (∀ name slot t, s.table.declare? name = some (slot, t) → t.lookup? name = some slot ∧
      ∀ other, other ≠ name → t.lookup? other = s.table.lookup? other) ∧
    (∀ name slot, s.table.lookup? name = some slot ↔
      ∃ around scope within, s.table.scopes = around ++ scope :: within ∧ (name, slot) ∈ scope ∧
        ∀ other ∈ within, ∀ slot', (name, slot') ∉ other) ∧
    (∀ name, s.table.lookup? name = none ↔
      ∀ scope ∈ s.table.scopes, ∀ slot, (name, slot) ∉ scope) ∧
    (∀ op, (s.step op).answers ∈ [s.answers ++ [.declared none],
        s.answers ++ [.failed .outermostScope]] ∨ (∃ name, op = .lookup name) →
      (s.step op).table = s.table) ∧
    ((s.step .leave).answers = s.answers ++ [.failed .outermostScope] ↔
      s.table.scopes.length = 1) ∧
    ∀ middle, Matched middle →
      (s.run (.enter :: middle ++ [.leave])).table.scopes = s.table.scopes ∧
      (∀ name, (s.run (.enter :: middle ++ [.leave])).table.lookup? name = s.table.lookup? name) ∧
      s.table.slotCount ≤ (s.run (.enter :: middle ++ [.leave])).table.slotCount := by
  have sound : Sound s := ran ▸ sound_fresh.run operations
  have length : s.table.scopes.length = s.table.depth + 1 := by simp [scopes, depth]
  have bound := s.table.bindings_perm
  refine ⟨sound.given, ⟨by simp [scopes], by rw [length]; exact sound.depths⟩, ⟨?_, ?_, ?_⟩,
    fun name => sound.tidy.declare?_none, ?_, fun name slot => sound.tidy.lookup?_some,
    fun name => Tidy.lookup?_none, ?_, ?_, ?_⟩
  · exact (bound.map (·.2)).nodup_iff.mpr sound.tidy.slots
  · intro binding member
    exact sound.tidy.below binding (bound.mem_iff.mp member)
  · intro scope member
    exact sound.tidy.names scope (List.mem_reverse.mp member)
  · intro name slot t declared
    obtain ⟨_, rfl, rfl⟩ := declare?_eq_some.mp declared
    refine ⟨by simp [lookup?], ?_⟩
    intro other different
    have apart : (other == name) = false := by simpa using different
    simp [lookup?, List.findSome?_cons, List.lookup_cons, apart]
  · -- Only a lookup and a refusal give these answers.
    intro op answered
    have effect := s.effect op
    generalize s.step op = s' at effect answered
    cases effect with
    | entered | left | declared => simp at answered
    | outermost | refused | lookedUp => rfl
  · rw [length]
    have effect := s.effect .leave
    generalize s.step .leave = s' at effect
    cases effect with
    | outermost alone => simp [depth, alone]
    | left around => simp [depth, around]
  · intro middle matched
    obtain ⟨inner, outer⟩ := s.scopes_segment matched
    refine ⟨by simp only [scopes, inner, outer], ?_, s.slotCount_run _⟩
    intro name
    simp only [lookup?, inner, outer]

/-- A name of the program that is shadowed in a block, and looked up inside and behind it. -/
def shadowing : List Operation :=
  [.declare "a", .enter, .declare "a", .declare "a", .lookup "a", .leave, .lookup "a", .leave]

/-- The block gives the name a slot of its own for a time, the second declaration there is refused,
and so is closing the program's own scope. -/
theorem session_invariant_shadowing : (fresh.run shadowing).answers =
      [.declared (some 0), .done, .declared (some 1), .declared none, .found (some 1), .done,
        .found (some 0), .failed .outermostScope] ∧
    (fresh.run shadowing).given = List.range 2 ∧
    (fresh.run (shadowing ++ [.enter, .declare "b", .leave])).table.lookup? "a" = some 0 := by
  -- The general facts are asked about the row, and about a block that is put behind it.
  obtain ⟨given, _, _, _, _, _, _, _, _, segment⟩ :=
    @session_invariant shadowing (fresh.run shadowing) rfl
  have matched : Matched [.declare "b"] := by
    refine ⟨by decide, ?_⟩
    intro front begins
    have none : front.count .leave = 0 :=
      Nat.le_zero.mp (Nat.le_trans (begins.sublist.count_le _) (by decide))
    omega
  obtain ⟨_, resolved, _⟩ := segment [.declare "b"] matched
  refine ⟨by decide, given, ?_⟩
  have split : fresh.run (shadowing ++ [.enter, .declare "b", .leave]) =
      (fresh.run shadowing).run (.enter :: [.declare "b"] ++ [.leave]) := by
    simp [run, List.foldl_append]
  rw [split, resolved]
  decide

end Session

end ScopeTable

end BlockCode
