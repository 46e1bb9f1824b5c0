import BlockCode.Proofs.Attempt
import BlockCode.Proofs.Scope.Walk

/-! The walk through a tree as a row of actions, one after the other. The place of an action in the
row tells the node at which a walk stops, also in trees that use a number twice. -/

namespace BlockCode

/-- What is done at a node of a tree. -/
inductive Action where
  /-- A variable is declared. -/
  | declare (mark : Mark) (name : Token)
  /-- A variable is referred to. -/
  | refer (mark : Mark) (name : Token)
  /-- A block is opened. -/
  | enter (mark : Mark)
  /-- A block is closed. -/
  | leave (mark : Mark)
  /-- A node that has no meaning in its place is refused. -/
  | refuse (mark : Mark) (variant : String)
deriving DecidableEq, Repr

/-- The mark of the node at which something is done. -/
def Action.mark : Action → Mark
  | declare mark _ | refer mark _ | enter mark | leave mark | refuse mark _ => mark

namespace Node

mutual

/-- What is done at the nodes of a tree, in turn. -/
def actions : Node → List Action
  | declare mark name => [.declare mark name]
  -- The target is referred to when the value is done.
  | assign mark name value => value.actions ++ [.refer mark name]
  | print _ value => value.actions
  -- The block is left at its end, whether anything was declared in it or not.
  | block mark body => .enter mark :: (actionsAll body ++ [.leave mark])
  | choose _ condition yes => condition.actions ++ yes.actions
  | chooseElse _ condition yes no => condition.actions ++ (yes.actions ++ no.actions)
  | loop _ condition body => condition.actions ++ body.actions
  | binary _ left _ right => left.actions ++ right.actions
  | use mark name => [.refer mark name]
  | literal .. => []
  -- A program inside a tree has no meaning, and what is in it is not looked at.
  | program mark body => [.refuse mark (program mark body).variant]
  | unknown mark variant => [.refuse mark variant]

/-- What is done at the nodes of some trees, in turn. -/
def actionsAll : List Node → List Action
  -- Nothing is done between two trees.
  | [] => []
  | n :: ns => n.actions ++ actionsAll ns

end

end Node

namespace Analysis

/-- Carries out an action. -/
def perform (a : Analysis) : Action → Step
  -- Entering a block is the one action that cannot fail.
  | .declare mark name => a.declare mark name
  | .refer mark name => a.refer mark name
  | .enter _ => .ok a.enter
  | .leave _ => a.leave
  | .refuse _ variant => .error (.defect (.unsupported variant), a)

/-- Carries out some actions in turn. -/
def performAll (a : Analysis) : List Action → Step
  -- The first action that fails is the last one.
  | [] => .ok a
  | action :: actions => do
    let a ← a.perform action
    a.performAll actions

variable {a known : Analysis} {actions : List Action} {failure : Failure}

/-- Actions that follow others go on from what those leave. -/
theorem performAll_append (a : Analysis) (actions more : List Action) :
    a.performAll (actions ++ more) = a.performAll actions >>= (·.performAll more) := by
  -- An action that fails ends both rows.
  induction actions generalizing a with
  | nil => rfl
  | cons action actions ih => simp only [List.cons_append, performAll, ih, bind_assoc]

/-- One action is carried out by itself. -/
theorem performAll_singleton (a : Analysis) (action : Action) :
    a.performAll [action] = a.perform action := by
  -- Nothing follows the action that could fail.
  rw [performAll]
  cases a.perform action <;> rfl

mutual

/-- To go through a tree is to carry out its actions. -/
theorem visit_eq_performAll (a : Analysis) : (n : Node) → a.visit n = a.performAll n.actions
  | .declare mark name => (performAll_singleton a (.declare mark name)).symm
  | .use mark name => (performAll_singleton a (.refer mark name)).symm
  | .program mark body =>
    (performAll_singleton a (.refuse mark (Node.program mark body).variant)).symm
  | .unknown mark variant => (performAll_singleton a (.refuse mark variant)).symm
  | .literal .. => rfl
  | .print _ value => visit_eq_performAll a value
  | .assign mark name value => by
    rw [visit_assign, Node.actions, performAll_append, visit_eq_performAll a value]
    exact bind_congr fun a => (performAll_singleton a (.refer mark name)).symm
  | .block mark body => by
    rw [visit_block, Node.actions, visitAll_eq_performAll a.enter body]
    -- The first action only opens the block.
    show _ = a.enter.performAll (Node.actionsAll body ++ [.leave mark])
    rw [performAll_append]
    exact bind_congr fun a => (performAll_singleton a (.leave mark)).symm
  | .choose _ condition yes => by
    rw [visit_choose, Node.actions, performAll_append, visit_eq_performAll a condition]
    exact bind_congr fun a => visit_eq_performAll a yes
  | .chooseElse _ condition yes no => by
    rw [visit_chooseElse, Node.actions, performAll_append, visit_eq_performAll a condition]
    refine bind_congr fun a => ?_
    rw [performAll_append, visit_eq_performAll a yes]
    exact bind_congr fun a => visit_eq_performAll a no
  | .loop _ condition body => by
    rw [visit_loop, Node.actions, performAll_append, visit_eq_performAll a condition]
    exact bind_congr fun a => visit_eq_performAll a body
  | .binary _ left _ right => by
    rw [visit_binary, Node.actions, performAll_append, visit_eq_performAll a left]
    exact bind_congr fun a => visit_eq_performAll a right

/-- To go through some trees is to carry out their actions. -/
theorem visitAll_eq_performAll (a : Analysis) :
    (ns : List Node) → a.visitAll ns = a.performAll (Node.actionsAll ns)
  -- The actions of trees in turn are put behind each other.
  | [] => rfl
  | n :: ns => by
    rw [visitAll_cons, Node.actionsAll, performAll_append, visit_eq_performAll a n]
    exact bind_congr fun a => visitAll_eq_performAll a ns

end

/-- An action that fails leaves what was known before it. -/
theorem known_of_perform {action : Action} (failed : a.perform action = .error (failure, known)) :
    known = a := by
  -- Every action looks before it changes anything.
  cases action with
  | declare mark name =>
    simp only [perform, declare] at failed
    split at failed <;> cases failed
    rfl
  | refer mark name =>
    simp only [perform, refer] at failed
    split at failed <;> cases failed
    rfl
  | enter mark => cases failed
  | leave mark =>
    simp only [perform, leave] at failed
    split at failed <;> cases failed
    rfl
  | refuse mark variant =>
    cases failed
    rfl

/-- Resolving a program stops at one of its actions: all actions before it are carried out, and it
fails on what is known by then. -/
structure StopsAt (tree : Node) (place : Nat) (action : Action) (failure : Failure) : Prop where
  there : (Node.actionsAll tree.body)[place]? = some action
  failed : ∃ known, empty.performAll ((Node.actionsAll tree.body).take place) = .ok known ∧
    known.perform action = .error (failure, known) ∧
    empty.program tree = .error (failure, known)

/-- Actions that fail stop at one of them. -/
theorem exists_stop (failed : a.performAll actions = .error (failure, known)) :
    ∃ place action, actions[place]? = some action ∧
      a.performAll (actions.take place) = .ok known ∧
      known.perform action = .error (failure, known) := by
  induction actions generalizing a with
  | nil => cases failed
  | cons action actions ih =>
    rw [performAll] at failed
    cases performed : a.perform action with
    | error e =>
      -- The first action stops them all.
      rw [performed] at failed
      cases failed
      obtain rfl := known_of_perform performed
      exact ⟨0, action, rfl, rfl, performed⟩
    | ok a₁ =>
      rw [performed] at failed
      obtain ⟨place, later, there, passed, stopped⟩ := ih failed
      refine ⟨place + 1, later, there, ?_, stopped⟩
      rw [List.take_succ_cons, performAll, performed]
      exact passed

/-- Resolving a program stops somewhere if it fails. -/
theorem exists_stopsAt {tree : Node} (failed : empty.program tree = .error (failure, known)) :
    ∃ place action, StopsAt tree place action failure := by
  -- A program is gone through as its actions are carried out, and one of them fails.
  have walked := failed
  rw [program, visitAll_eq_performAll] at walked
  obtain ⟨place, action, there, passed, stopped⟩ := exists_stop walked
  exact ⟨place, action, there, known, passed, stopped, failed⟩

end Analysis

end BlockCode
