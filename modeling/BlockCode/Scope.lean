/-! Block scopes: which names are bound where, and the slots they are bound to. -/

namespace BlockCode

/-- The names bound in one block with their slots, the latest first. -/
abbrev Scope := List (String × Nat)

/-- The blocks that are open at some place. One counter serves all of them, and a slot is never
given out twice. -/
structure ScopeTable where
  /-- The innermost block. -/
  inner : Scope
  /-- The blocks around it, from the inside out. -/
  outer : List Scope
  /-- How many slots have been given out. -/
  slotCount : Nat
deriving DecidableEq, Repr

namespace ScopeTable

/-- Only the program's own scope, without a name. -/
def empty : ScopeTable := ⟨[], [], 0⟩

/-- How many blocks are around the innermost one. -/
def depth (t : ScopeTable) : Nat := t.outer.length

/-- All open scopes, from the outside in. -/
def scopes (t : ScopeTable) : List Scope := (t.inner :: t.outer).reverse

/-- Opens a block. -/
def enter (t : ScopeTable) : ScopeTable :=
  { t with inner := [], outer := t.inner :: t.outer }

/-- Closes the innermost block; the program's own scope stays open. -/
def leave? (t : ScopeTable) : Option ScopeTable :=
  -- The slots that the block has given out are not taken back.
  match t.outer with
  | [] => none
  | scope :: outer => some { t with inner := scope, outer := outer }

/-- Binds a name in the innermost block to a fresh slot, unless it is bound there already. -/
def declare? (t : ScopeTable) (name : String) : Option (Nat × ScopeTable) :=
  -- Other blocks may bind the name, and hide it or be hidden by this one.
  match t.inner.lookup name with
  | some _ => none
  | none =>
    some (t.slotCount,
      { t with inner := (name, t.slotCount) :: t.inner, slotCount := t.slotCount + 1 })

/-- The slot of a name in the innermost block that binds it. -/
def lookup? (t : ScopeTable) (name : String) : Option Nat :=
  (t.inner :: t.outer).findSome? (·.lookup name)

end ScopeTable

end BlockCode
