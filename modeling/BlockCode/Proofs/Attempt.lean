/-! Attempts in a row: when they succeed together, each of them does. -/

namespace BlockCode

variable {ε ε' α β : Type}

/-- Two attempts in a row succeed when the first does and the second does with its result. -/
theorem bind_eq_ok {x : Except ε α} {f : α → Except ε β} {b : β} :
    (x >>= f) = .ok b ↔ ∃ a, x = .ok a ∧ f a = .ok b := by
  -- A failure of the first attempt is a failure of both.
  cases x with
  | error e => simp [Bind.bind, Except.bind]
  | ok a => simp [Bind.bind, Except.bind]

/-- Two attempts in a row succeed if the first does and the second cannot fail. -/
theorem exists_bind_eq_ok {x : Except ε α} {f : α → Except ε β} (first : ∃ a, x = .ok a)
    (following : ∀ a, ∃ b, f a = .ok b) : ∃ b, (x >>= f) = .ok b := by
  -- The second attempt starts from what the first one gives.
  obtain ⟨a, done⟩ := first
  obtain ⟨b, done'⟩ := following a
  exact ⟨b, bind_eq_ok.mpr ⟨a, done, done'⟩⟩

/-- What is made of the result of an attempt comes from a result. -/
theorem map_eq_ok {x : Except ε α} {f : α → β} {b : β} :
    x.map f = .ok b ↔ ∃ a, x = .ok a ∧ f a = b := by
  -- A failure stays a failure.
  cases x with
  | error e => simp [Except.map]
  | ok a => simp [Except.map]

/-- An attempt with a result has succeeded. -/
theorem toOption_eq_some {x : Except ε α} {a : α} : x.toOption = some a ↔ x = .ok a := by
  -- The reason of a failure is all that is forgotten.
  cases x with
  | error e => simp [Except.toOption]
  | ok a' => simp [Except.toOption]

/-- What succeeds is not touched by another wording of failures. -/
@[simp] theorem mapError_ok (f : ε → ε') (a : α) : (Except.ok a).mapError f = .ok a := rfl

/-- A failure is put in other words. -/
@[simp] theorem mapError_error (f : ε → ε') (e : ε) :
    (Except.error e : Except ε α).mapError f = .error (f e) := rfl

end BlockCode
