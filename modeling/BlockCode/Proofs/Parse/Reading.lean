import BlockCode.Node.Parse
import BlockCode.Proofs.Grammar.Production

/-! What reading parts in a row comes to before an end mark, and how readers in turn read one part
after the other. -/

namespace BlockCode

open Grammar

variable {α β : Type} {room room' : Nat} {part : Part} {parts parts' : List Part}

/-- Tokens that reading can pass: no end marks, and no numbers that cannot be read. -/
structure Token.Plain (t : Token) : Prop where
  unmarked : t.kind ≠ .finish
  readable : t.kind = .number → ∃ value, Numeral.read t.lexeme = .ok value

/-- A token that is neither an end mark nor a number can be passed. -/
theorem Token.Plain.of_kind {t : Token} {kind : Kind} (same : t.kind = kind)
    (other : kind ≠ .finish ∧ kind ≠ .number) : t.Plain := by
  -- Only numbers have to have a value, and the kind is another one.
  subst same
  exact ⟨other.1, fun number => absurd number other.2⟩

namespace Node

/-- The kinds of token that open a level of nesting. -/
def openings : List Kind := [.kwIf, .kwWhile, .openBrace, .openParen]

/-- Why a token is refused. -/
inductive Reason where
  /-- Something else is expected. -/
  | unexpected (expected : String)
  /-- It is a number that cannot be read. -/
  | unread (error : NumeralError)
  /-- It opens a level too many. -/
  | tooDeep
deriving DecidableEq, Repr

namespace Reason

/-- The failure at a token that is refused. -/
def failure : Reason → Token → Failure
  -- The text of the failure depends on the reason, and its place on the token.
  | unexpected expected, t => t.refuse expected
  -- A numeral that cannot be read has no place.
  | unread error, _ => .numeral error
  | tooDeep, t => .rejected ⟨.tooDeep maxNesting, some t.position⟩

/-- A rejection names the place of the token that is refused. -/
theorem position_failure {reason : Reason} {t : Token} {rejection : Rejection}
    (failed : reason.failure t = .rejected rejection) : rejection.position = some t.position := by
  -- The place is that of the token in all rejections, and a number without a value is none.
  cases reason with
  | unexpected expected => rw [← Failure.rejected.inj failed]
  | unread e => cases failed
  | tooDeep => rw [← Failure.rejected.inj failed]

/-- A token is refused for its kind, or as the number that it is. -/
def Concerns : Reason → (t u : Token) → Prop
  -- The digits of a number matter, while other tokens are judged by their kinds.
  | unread _, t, u => u = t
  | unexpected _, t, u | tooDeep, t, u => u.kind = t.kind

/-- A token that is refused like another one is of the same kind. -/
theorem Concerns.kind_eq {reason : Reason} {t u : Token} (concerns : reason.Concerns t u) :
    u.kind = t.kind := by
  -- A number without a value concerns that token only; the other reasons look at kinds.
  cases reason with
  | unread => rw [concerns]
  | unexpected => exact concerns
  | tooDeep => exact concerns

/-- A token is refused like itself. -/
theorem Concerns.refl (reason : Reason) (t : Token) : reason.Concerns t t := by
  cases reason <;> rfl

end Reason

/-- Parts in a row are not read on at a token, behind some tokens that begin such a row. -/
inductive Refuses (parts : List Part) (room : Nat) (front : List Token) (t : Token) : Reason → Prop
  | unexpected (expected : String) (completes : Completes parts room front) :
    Refuses parts room front t (.unexpected expected)
  /-- The number would have gone on with the row. -/
  | unread {e : NumeralError} (number : t.kind = .number)
      (failed : Numeral.read t.lexeme = .error e)
      (completes : Completes parts room (front ++ [t])) : Refuses parts room front t (.unread e)
  /-- With one level more, the token would have gone on with the row. -/
  | tooDeep (opens : t.kind ∈ openings) (completes : Completes parts room front)
      (further : Completes parts (room + 1) (front ++ [t])) : Refuses parts room front t .tooDeep

/-- What was read before a token that is refused begins a row. -/
theorem Refuses.completes {front : List Token} {t : Token} {reason : Reason}
    (refuses : Refuses parts room front t reason) : Completes parts room front := by
  -- A number that cannot be read was at its place, so the token itself is part of the beginning.
  cases refuses with
  | unexpected expected completes => exact completes
  | unread number failed completes => exact completes.before
  | tooDeep opens completes further => exact completes

/-- A refusal stays one where all beginnings that it speaks of are kept. -/
theorem Refuses.map {front front' : List Token} {t : Token} {reason : Reason}
    (refuses : Refuses parts room front t reason)
    (here : Completes parts room front → Completes parts' room' front')
    (passed : Completes parts room (front ++ [t]) → Completes parts' room' (front' ++ [t]))
    (deeper : Completes parts (room + 1) (front ++ [t]) →
      Completes parts' (room' + 1) (front' ++ [t])) : Refuses parts' room' front' t reason := by
  -- Each reason speaks of the beginnings that it needs: the tokens so far, or those with the token.
  cases refuses with
  | unexpected expected completes => exact .unexpected expected (here completes)
  | unread number failed completes => exact .unread number failed (passed completes)
  | tooDeep opens completes further => exact .tooDeep opens (here completes) (deeper further)

/-- What reading parts in a row comes to at some pending tokens. Where no end mark is to come,
nothing is said. -/
inductive Reading (parts : List Part) (room : Nat)
    (run : List Token → Except Failure (α × Cursor)) (pending : List Token) : Prop
  /-- A row of the parts is read, and the kind of one token behind it has been looked at. -/
  | read (used : List Token) (t : Token) (rest : List Token) (a : α) (next : Nat)
      (split : pending = used ++ t :: rest) (spelled : Spells parts room used t)
      (plain : ∀ u ∈ used, u.Plain)
      (same : ∀ u rest, u.kind = t.kind → run (used ++ u :: rest) = .ok (a, ⟨u :: rest, next⟩))
  /-- A token is refused, and no token behind it has been looked at. -/
  | refused (front : List Token) (t : Token) (rest : List Token) (reason : Reason)
      (split : pending = front ++ t :: rest) (refuses : Refuses parts room front t reason)
      (plain : ∀ u ∈ front, u.Plain)
      (same : ∀ u rest, reason.Concerns t u → run (front ++ u :: rest) = .error (reason.failure u))
  | unmarked (none : ∀ t ∈ pending, t.kind ≠ .finish)

namespace Reading

variable {run run' : List Token → Except Failure (α × Cursor)} {pending : List Token}

/-- What is returned without reading is read from no tokens. -/
theorem done (a : α) (next : Nat) (pending : List Token) :
    Reading [] room (fun p => .ok (a, ⟨p, next⟩)) pending := by
  -- Without a token there is no mark, which the tokens of a source always have.
  cases pending with
  | nil => exact .unmarked (by simp)
  | cons t rest => exact .read [] t rest a next rfl rfl (by simp) fun _ _ _ => rfl

/-- A list keeps the kind of its first token when a token gives way to one of its kind, whatever
stands behind that. -/
theorem exists_first {t t' u : Token} {rest used rest' : List Token}
    (split : t :: rest = used ++ t' :: rest') (alike : u.kind = t'.kind) (more : List Token) :
    ∃ v p, used ++ u :: more = v :: p ∧ v.kind = t.kind := by
  -- If no tokens were used, the token that gives way is the first one.
  cases used with
  | nil =>
    cases split
    exact ⟨u, more, rfl, alike⟩
  | cons v used =>
    cases split
    exact ⟨_, _, rfl, rfl⟩

/-- What is the same behind a first token comes to the same there. -/
theorem congr {t : Token} {rest : List Token} (reading : Reading parts room run (t :: rest))
    (same : ∀ u p, u.kind = t.kind → run' (u :: p) = run (u :: p)) :
    Reading parts room run' (t :: rest) := by
  -- The run is only ever asked about lists with a first token of this kind.
  cases reading with
  | read used t' rest' a next split spelled plain ran =>
    refine .read used t' rest' a next split spelled plain fun u rest alike => ?_
    obtain ⟨v, p, first, kind⟩ := exists_first split alike rest
    rw [← ran u rest alike, first, same v p kind]
  | refused front t' rest' reason split refuses plain ran =>
    refine .refused front t' rest' reason split refuses plain fun u rest alike => ?_
    obtain ⟨v, p, first, kind⟩ := exists_first split alike.kind_eq rest
    rw [← ran u rest alike, first, same v p kind]
  | unmarked none => exact .unmarked none

/-- What is read as some parts is read as others whose rows include theirs, perhaps with more
levels. -/
theorem deepen {levels : Nat} (reading : Reading parts room run pending)
    (included : ∀ room row next, Spells parts room row next →
      Spells parts' (room + levels) row next) : Reading parts' (room + levels) run pending := by
  -- The rows are among the others', and so are the beginnings of rows.
  cases reading with
  | read used t rest a next split spelled plain same =>
    exact .read used t rest a next split (included _ _ _ spelled) plain same
  | refused front t rest reason split refuses plain same =>
    refine .refused front t rest reason split (refuses.map ?_ ?_ ?_) plain same
    · exact (·.widen (included room))
    · exact (·.widen (included room))
    · rw [Nat.add_right_comm]
      exact (·.widen (included (room + 1)))
  | unmarked none => exact .unmarked none

/-- What is read as some parts is read as others whose rows include theirs. -/
theorem widen (reading : Reading parts room run pending)
    (included : ∀ room row next, Spells parts room row next → Spells parts' room row next) :
    Reading parts' room run pending := by
  -- No level is added, which is one way of adding levels.
  have widened : Reading parts' (room + 0) run pending := reading.deepen included
  exact widened

/-- Behind a token that is a part of its own the other parts are read. -/
theorem behind {t : Token} {rest : List Token} (taken : ∀ room next, part.Spells room [t] next)
    (plain : t.Plain) (reading : Reading parts room run rest)
    (same : ∀ p, run' (t :: p) = run p) : Reading (part :: parts) room run' (t :: rest) := by
  -- The token stands in front of whatever the other parts begin with.
  have completes : ∀ {room front}, Completes parts room front →
      Completes (part :: parts) room (t :: front) := by
    rintro room front ⟨more, spelled⟩
    exact ⟨more, fun next other => ⟨[t], front ++ more, rfl, taken _ _, spelled next other⟩⟩
  cases reading with
  | read used t' rest' a next split spelled plain' ran =>
    refine .read (t :: used) t' rest' a next (by simp [split])
      ⟨[t], used, rfl, taken _ _, spelled⟩ (by simpa using ⟨plain, plain'⟩) fun u rest alike => ?_
    rw [List.cons_append, same, ran u rest alike]
  | refused front t' rest' reason split refuses plain' ran =>
    refine .refused (t :: front) t' rest' reason (by simp [split])
      (refuses.map completes completes completes) (by simpa using ⟨plain, plain'⟩)
      fun u rest alike => ?_
    rw [List.cons_append, same, ran u rest alike]
  | unmarked none => exact .unmarked (by simpa using ⟨plain.unmarked, none⟩)

/-- Behind a token of a kind the other parts are read. -/
theorem take {t : Token} {rest : List Token} {kind : Kind} (own : t.kind = kind)
    (other : kind ≠ .finish ∧ kind ≠ .number) (reading : Reading parts room run rest)
    (same : ∀ p, run' (t :: p) = run p) : Reading (.token kind :: parts) room run' (t :: rest) :=
  .behind (fun _ _ => ⟨t, rfl, own⟩) (.of_kind own other) reading same

/-- The first token is refused. -/
theorem reject {t : Token} {rest : List Token} (expected : String)
    (starts : parts.all Part.starts = true)
    (same : ∀ u p, u.kind = t.kind → run (u :: p) = .error (u.refuse expected)) :
    Reading parts room run (t :: rest) :=
  -- Nothing was read before it, and nothing is the beginning of any row that starts somewhere.
  .refused [] t rest (.unexpected expected) rfl (.unexpected expected (.nil starts room)) (by simp)
    same

/-- Behind a token that opens a level the other parts are read with one level less, and the token is
refused where there is none. -/
theorem nested {t : Token} {rest : List Token} {kind : Kind} (own : t.kind = kind)
    (opens : kind ∈ openings) (starts : parts.all Part.starts = true)
    (starts' : parts'.all Part.starts = true)
    (included : ∀ room row next, Spells (.token kind :: parts) room row next →
      Spells parts' (room + 1) row next)
    (missing : room = 0 → ∀ u p, u.kind = kind →
      run (u :: p) = .error (.rejected ⟨.tooDeep maxNesting, some u.position⟩))
    (deeper : ∀ lower, room = lower + 1 →
      ∃ inner, Reading parts lower inner rest ∧ ∀ p, run (t :: p) = inner p) :
    Reading parts' room run (t :: rest) := by
  cases room with
  | zero =>
    -- With one level more, the token would have begun what is read.
    have taken : (Part.token kind).Spells 0 [t] t := ⟨t, rfl, own⟩
    have further : Completes parts' 1 [t] := .widen (.stop taken starts) (included 0)
    have refuses : Refuses parts' 0 [] t .tooDeep :=
      .tooDeep (own ▸ opens) (.nil starts' 0) further
    exact .refused [] t rest .tooDeep rfl refuses (by simp)
      fun u p alike => missing rfl u p (Eq.trans alike own)
  | succ lower =>
    obtain ⟨inner, reading, same⟩ := deeper lower rfl
    have others : ∀ kind ∈ openings, kind ≠ .finish ∧ kind ≠ .number := by decide
    exact (reading.take own (others kind opens) same).deepen included

/-- Behind a first part that was read the other parts are read. -/
theorem prepend {used : List Token} {t : Token} {rest : List Token}
    (spelled : part.Spells room used t) (plain : ∀ u ∈ used, u.Plain)
    (stops : Completes (part :: parts) room used) (reading : Reading parts room run (t :: rest))
    (same : ∀ u rest, u.kind = t.kind → run' (used ++ u :: rest) = run (u :: rest)) :
    Reading (part :: parts) room run' (used ++ t :: rest) := by
  -- Whatever the other parts come to, the first one stands in front of the same token.
  cases reading with
  | read used' t' rest' a next split spelled' plain' ran =>
    have head : used'.headD t' = t := by cases used' <;> cases split <;> rfl
    refine .read (used ++ used') t' rest' a next (by simp [split])
      ⟨used, used', rfl, head ▸ spelled, spelled'⟩
      (by simpa [or_imp, forall_and] using ⟨plain, plain'⟩) fun u rest alike => ?_
    obtain ⟨v, p, first, kind⟩ := exists_first split alike rest
    rw [← ran u rest alike, List.append_assoc, first, same v p kind]
  | refused front t' rest' reason split refuses plain' ran =>
    have head : (front ++ [t']).head? = some t := by cases front <;> cases split <;> rfl
    have completes : ∀ more, room ≤ more → ∀ front', front'.head? = some t →
        Completes parts more front' → Completes (part :: parts) more (used ++ front') :=
      fun more enough front' head viable => viable.behind (spelled.mono enough) head
    refine .refused (used ++ front) t' rest' reason (by simp [split]) (refuses.map ?_ ?_ ?_)
      (by simpa [or_imp, forall_and] using ⟨plain, plain'⟩) fun u rest alike => ?_
    · -- With no token of the other parts read, it is the first part alone that begins the row.
      intro viable
      cases front with
      | nil => simpa using stops
      | cons v front => exact completes room (Nat.le_refl _) _ (by simpa using head) viable
    · intro viable
      simpa using completes room (Nat.le_refl _) _ head viable
    · intro viable
      simpa using completes (room + 1) (Nat.le_succ _) _ head viable
    · obtain ⟨v, p, first, kind⟩ := exists_first split alike.kind_eq rest
      rw [← ran u rest alike, List.append_assoc, first, same v p kind]
  | unmarked none =>
    refine .unmarked fun u member => ?_
    rcases List.mem_append.mp member with member | member
    · exact (plain u member).unmarked
    · exact none u member

/-- A first part is read, and then the others from where it ends. -/
theorem bindWith {x : List Token → Except Failure (α × Cursor)}
    {f : α × Cursor → Except Failure (β × Cursor)} (first : Reading [part] room x pending)
    (starts : parts.all Part.starts = true)
    (following : ∀ a next used t rest, pending = used ++ t :: rest → part.Spells room used t →
      Reading parts room (fun p => f (a, ⟨p, next⟩)) (t :: rest)) :
    Reading (part :: parts) room (fun p => x p >>= f) pending := by
  -- A refusal inside the first part is one of the whole, since the others can still be found.
  cases first with
  | read used t rest a next split spelled plain same =>
    have own := spells_singleton.mp spelled
    rw [split]
    refine prepend own plain (.stop own starts) (following a next used t rest split own)
      fun u rest alike => ?_
    simp [same u rest alike, Bind.bind, Except.bind]
  | refused front t rest reason split refuses plain same =>
    refine .refused front t rest reason split
      (refuses.map (·.first starts) (·.first starts) (·.first starts)) plain fun u rest alike => ?_
    simp [same u rest alike, Bind.bind, Except.bind]
  | unmarked none => exact .unmarked none

/-- A first part is read, and then the others, wherever it ends. -/
theorem bind {x : List Token → Except Failure (α × Cursor)}
    {f : α × Cursor → Except Failure (β × Cursor)} (first : Reading [part] room x pending)
    (starts : parts.all Part.starts = true)
    (following : ∀ a next pending, Reading parts room (fun p => f (a, ⟨p, next⟩)) pending) :
    Reading (part :: parts) room (fun p => x p >>= f) pending :=
  first.bindWith starts fun a next _ t rest _ _ => following a next (t :: rest)

end Reading

/-- A reader reads parts in a row, wherever it starts. -/
def Obeys (parts : List Part) (room : Nat) (r : Reader α) : Prop :=
  ∀ pending next, Reading parts room (fun p => r ⟨p, next⟩) pending

/-- A token other than the mark and than a number is expected. -/
theorem obeys_expect (kind : Kind) (other : kind ≠ .finish ∧ kind ≠ .number) (expected : String) :
    Obeys [.token kind] room fun c => c.expect kind expected := by
  intro pending next
  cases pending with
  | nil => exact .unmarked (by simp)
  | cons t rest =>
    by_cases same : t.kind = kind
    · refine .take same other (.done t next rest) fun p => ?_
      simp [Cursor.expect, same]
    · -- A token of the kind would have been a row of its own.
      have completes : Completes [.token kind] room [] :=
        ⟨[(Terminal.typical kind).val], fun _ _ => spells_singleton.mpr ⟨_, rfl, rfl⟩⟩
      have refuses : Refuses [.token kind] room [] t (.unexpected expected) :=
        .unexpected expected completes
      refine .refused [] t rest (.unexpected expected) rfl refuses (by simp) fun u rest alike => ?_
      simp [Cursor.expect, same, alike.kind_eq, Reason.failure]

/-- A token is expected, and behind it the other parts are read. -/
theorem Reading.expect {f : Token × Cursor → Except Failure (β × Cursor)} {pending : List Token}
    {next : Nat} {expected : String} (kind : Kind) (other : kind ≠ .finish ∧ kind ≠ .number)
    (starts : parts.all Part.starts = true)
    (following : ∀ t next pending, Reading parts room (fun p => f (t, ⟨p, next⟩)) pending) :
    Reading (.token kind :: parts) room (fun p => Cursor.expect ⟨p, next⟩ kind expected >>= f)
      pending :=
  .bind (obeys_expect kind other expected pending next) starts following

end Node

end BlockCode
