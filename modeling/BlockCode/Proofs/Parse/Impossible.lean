import BlockCode.Proofs.Grammar.Relabel
import BlockCode.Proofs.Parse
import BlockCode.Proofs.Parse.Room

/-! A list that is not parsed is refused at its first impossible token: what stands before it begins
a program, and with it no list that begins like this is accepted. -/

namespace BlockCode

open Grammar

/-- A number that can be read in the place of one that cannot. -/
def Token.mended (t : Token) : Token :=
  if t.kind = .number ∧ ¬ Numeral.Legible t.lexeme then { t with lexeme := "0" } else t

namespace Token

/-- Mending keeps the kind. -/
theorem kind_mended (t : Token) : t.mended.kind = t.kind := by
  -- Mending changes the text alone.
  unfold mended
  split <;> rfl

/-- A mended number can be read. -/
theorem legible_mended (t : Token) (number : t.mended.kind = .number) :
    Numeral.Legible t.mended.lexeme := by
  -- A legible number is left as it is, and any other one becomes a single digit.
  rw [kind_mended] at number
  by_cases legible : Numeral.Legible t.lexeme
  · simp [mended, legible]
  · simp only [mended, number, legible, not_false_eq_true, and_self, if_true]
    decide

/-- Nothing is mended where numbers can be read. -/
theorem mended_eq {t : Token} (legible : t.kind = .number → Numeral.Legible t.lexeme) :
    t.mended = t := by
  -- Only a number without a value would be mended.
  unfold mended
  rw [if_neg]
  rintro ⟨number, unreadable⟩
  exact unreadable (legible number)

end Token

namespace Node

/-- Some tokens begin a list that is accepted. -/
def Completable (front : List Token) : Prop :=
  ∃ more tree, parse (front ++ more) = .ok tree

/-- Numbers of a list that can all be read need no mending. -/
theorem map_mended {tokens : List Token}
    (legible : ∀ t ∈ tokens, t.kind = .number → Numeral.Legible t.lexeme) :
    tokens.map Token.mended = tokens := by
  -- Mending every token is doing nothing to every token.
  conv => rhs; rw [← List.map_id tokens]
  exact List.map_congr_left fun t member => Token.mended_eq (legible t member)

/-- What begins a program begins, when it is mended, one whose numbers can all be read. -/
theorem exists_legible {d : Derivation .body} {mark : Terminal .finish} {front : List Token}
    (begins : front <+: d.tokens ++ [mark.val]) :
    ∃ d' : Derivation .body, front.map Token.mended <+: d'.tokens ++ [mark.val] ∧ d'.Legible ∧
      d'.depth = d.depth ∧ (d.Nearest → d'.Nearest) := by
  -- The same derivation, with its numbers mended, has the mended tokens.
  have unchanged : mark.val.mended = mark.val := Token.mended_eq (by simp)
  refine ⟨d.relabel Token.kind_mended, ?_, ?_, d.depth_relabel _, d.nearest_relabel _⟩
  · have mended := begins.map Token.mended
    rwa [List.map_append, List.map_singleton, unchanged,
      ← d.tokens_relabel Token.kind_mended] at mended
  · intro t member number
    rw [d.tokens_relabel] at member
    obtain ⟨u, _, rfl⟩ := List.mem_map.mp member
    exact u.legible_mended number

/-- A mark behind the tokens of a legible derivation makes an admissible list, which it reads. -/
theorem admissible_derivation {d : Derivation .body} (legible : d.Legible)
    (mark : Terminal .finish) : Admissible (d.tokens ++ [mark.val]) ∧
      programTokens (d.tokens ++ [mark.val]) = d.tokens := by
  -- The mark is no number, so only the tokens of the derivation are asked about.
  refine ⟨⟨⟨_, _, rfl, mark.property⟩, ?_⟩, programTokens_append d.not_finish mark.property⟩
  intro t member number
  rcases List.mem_append.mp member with inside | last
  · exact legible t inside number
  · rw [List.mem_singleton] at last
    rw [last, mark.property] at number
    cases number

/-- Where tokens can be completed to a body, they begin a program. -/
theorem exists_begins {room : Nat} {front : List Token}
    (completes : Completes [.phrase .body] room front) :
    ∃ (d : Derivation .body) (mark : Terminal .finish), d.Nearest ∧ d.depth ≤ room ∧
      front <+: d.tokens ++ [mark.val] := by
  -- An end mark may follow what is completed.
  obtain ⟨more, spelled⟩ := completes
  have row := spelled (Terminal.typical .finish).val (by decide)
  obtain ⟨d, covers, fits⟩ := spells_singleton.mp row
  refine ⟨d, .typical .finish, fits.nearest, fits.shallow, ?_⟩
  rw [← covers, List.append_assoc]
  exact List.prefix_append _ _

/-- What can be completed to a body within the bound on nesting begins, when it is mended, an
accepted list. -/
theorem completable_mended {front : List Token}
    (completes : Completes [.phrase .body] maxNesting front) :
    Completable (front.map Token.mended) := by
  -- A derivation that can be read comes from mending, and the parser reads all of it.
  obtain ⟨d, mark, own, shallow, begins⟩ := exists_begins completes
  obtain ⟨d', ⟨more, split⟩, legible, depth, nearest⟩ := exists_legible begins
  obtain ⟨admissible, covers⟩ := admissible_derivation legible mark
  obtain ⟨tree, read⟩ := parse_complete admissible ⟨covers.symm, nearest own⟩ (depth ▸ shallow)
  rw [← split] at read
  exact ⟨more, tree, read⟩

/-- What the grammar derives is accepted, or refused for its levels alone. -/
theorem parse_derivation {d : Derivation .body} (legible : d.Legible) (mark : Terminal .finish) :
    (∃ tree, parse (d.tokens ++ [mark.val]) = .ok tree) ∨ ∃ place,
      parse (d.tokens ++ [mark.val]) = .error (.rejected ⟨.tooDeep maxNesting, place⟩) := by
  -- With levels enough for the derivation all of its statements are read.
  have legible' : d.nearest.Legible := by
    unfold Derivation.Legible
    rw [d.tokens_nearest]
    exact legible
  have read := reads d.nearest d.nearest_nearest legible' (· = .finish)
    (max maxNesting d.nearest.depth) 1 [mark.val] (d.tokens ++ [mark.val]) (by simp)
    (Nat.le_max_right _ _) ⟨mark.val, [], rfl, by simp⟩ (by rw [d.tokens_nearest])
  rw [d.tokens_nearest] at read
  -- With fewer levels they are read in the same way, or a level is missing.
  have spares : Spares (statements (· = .finish) (statement maxNesting) (d.tokens ++ [mark.val])
      ⟨d.tokens ++ [mark.val], 1⟩) _ :=
    spares_statements (agreeing_statement_le (Nat.le_max_left _ d.nearest.depth)) _ _
  rw [read] at spares
  have closed : Closed (d.tokens ++ [mark.val]) := ⟨_, _, rfl, mark.property⟩
  rw [closed.parse_eq_statements]
  rcases spares with enough | ⟨place, missing⟩
  · rw [enough]
    exact .inl ⟨_, rfl⟩
  · rw [missing]
    exact .inr ⟨place, rfl⟩

section Refused

variable {front : List Token} {t : Token} {failure : Failure}
  (same : ∀ rest, Closed (front ++ t :: rest) → parse (front ++ t :: rest) = .error failure)

include same

/-- A token that is always refused ends every hope for the tokens before it. -/
theorem not_completable : ¬ Completable (front ++ [t]) := by
  -- It would be accepted with the token in it, and it is refused with anything behind that.
  rintro ⟨more, tree, read⟩
  rw [List.append_assoc, List.singleton_append] at read
  rw [same more (.of_parse read)] at read
  cases read

/-- A closed list that begins like this up to the token is refused as well. -/
theorem parse_beginning {other : List Token}
    (agrees : other.take (front.length + 1) = front ++ [t]) (closed : Closed other) :
    parse other = .error failure := by
  -- Up to the token the two lists are the same, and what follows does not matter.
  have split : other = front ++ t :: other.drop (front.length + 1) := by
    conv => lhs; rw [← List.take_append_drop (front.length + 1) other, agrees]
    simp
  rw [split, same _ (split ▸ closed)]

/-- A token that is refused for another reason than its level does not go on with a program. -/
theorem not_begins (legible : ∀ u ∈ front ++ [t], u.kind = .number → Numeral.Legible u.lexeme)
    (other : ∀ place, failure ≠ .rejected ⟨.tooDeep maxNesting, place⟩) (d : Derivation .body)
    (mark : Terminal .finish) : ¬ front ++ [t] <+: d.tokens ++ [mark.val] := by
  -- A program that began like this would be accepted, or refused for its levels.
  intro begins
  obtain ⟨d', ⟨more, split⟩, legible', _⟩ := exists_legible begins
  rw [map_mended legible, List.append_assoc, List.singleton_append] at split
  have refused := same more ⟨d'.tokens, mark.val, split, mark.property⟩
  rw [split] at refused
  rcases parse_derivation legible' mark with ⟨tree, read⟩ | ⟨place, deep⟩
  · cases read.symm.trans refused
  · exact other place (Except.error.inj (refused.symm.trans deep))

end Refused

/-- A list with legible numbers that is not parsed is refused at a token. What stands before it can
be completed to an accepted list, and with it no more. The reason is a level too many if a program
of any depth goes on with the token, and otherwise that something else was expected. The tokens
behind it make no difference. -/
theorem parse_first_impossible {tokens : List Token} {failure : Failure}
    (admissible : Admissible tokens) (refused : parse tokens = .error failure) :
    ∃ (k : Nat) (t : Token) (cause : Cause), tokens[k]? = some t ∧
      failure = .rejected ⟨cause, some t.position⟩ ∧
      Completable (tokens.take k) ∧ ¬ Completable (tokens.take (k + 1)) ∧
      (cause = .tooDeep maxNesting ↔ ∃ (d : Derivation .body) (mark : Terminal .finish),
        tokens.take (k + 1) <+: d.tokens ++ [mark.val]) ∧
      (cause = .tooDeep maxNesting ∧ t.kind ∈ openings ∨ ∃ expected, cause = .unexpected expected
        (if t.kind = .finish then "end of input" else "'" ++ t.lexeme ++ "'")) ∧
      ∀ other, other.take (k + 1) = tokens.take (k + 1) → Closed other →
        parse other = parse tokens := by
  cases admissible.closed.verdict with
  | accepted used t rest tree split ended spelled plain same =>
    rw [split, same rest (split ▸ admissible.closed)] at refused
    cases refused
  | refused front t rest reason split refuses plain blind =>
    have same := fun rest => blind t rest (.refl _ _)
    obtain rfl : reason.failure t = failure := by
      rw [split, same rest (split ▸ admissible.closed)] at refused
      exact Except.error.inj refused
    have found : tokens[front.length]? = some t := by simp [split]
    have before : tokens.take front.length = front := by simp [split]
    have upTo : tokens.take (front.length + 1) = front ++ [t] := by simp [split, List.take_append]
    have legible : ∀ u ∈ front ++ [t], u.kind = .number → Numeral.Legible u.lexeme := by
      intro u member
      rw [← upTo] at member
      exact admissible.legible u (List.mem_of_mem_take member)
    have possible : Completable (tokens.take front.length) := by
      rw [before, ← map_mended fun u member => legible u (List.mem_append_left _ member)]
      exact completable_mended refuses.completes
    have impossible : ¬ Completable (tokens.take (front.length + 1)) := by
      rw [upTo]
      exact not_completable same
    have alike : ∀ other, other.take (front.length + 1) = tokens.take (front.length + 1) →
        Closed other → parse other = parse tokens := by
      intro other agrees closed
      rw [refused, parse_beginning same (agrees.trans upTo) closed]
    cases refuses with
    | unexpected expected completes =>
      have ended := not_begins same legible (by simp [Reason.failure, Token.refuse])
      rw [← upTo] at ended
      refine ⟨front.length, t, _, found, rfl, possible, impossible, ?_, .inr ⟨expected, ?_⟩, alike⟩
      · simpa using ended
      · simp [Token.found, toString]
    | unread number failed completes =>
      -- The numbers of the list are legible.
      rw [Numeral.read_legible (legible t (by simp) number)] at failed
      cases failed
    | tooDeep opens completes further =>
      obtain ⟨d, mark, _, _, begins⟩ := exists_begins further
      rw [← upTo] at begins
      refine ⟨front.length, t, _, found, rfl, possible, impossible, ?_, .inl ⟨rfl, opens⟩, alike⟩
      simpa using ⟨d, mark, mark.property, begins⟩

/-- A choice whose alternative is missing behind its keyword, with the tokens in a row. -/
def brokenTokens : List Token :=
  -- The brace stands where the statement of the alternative should begin.
  [(.kwIf, "if"), (.openParen, "("), (.name, "a"), (.closeParen, ")"), (.kwPrint, "print"),
    (.openParen, "("), (.number, "1"), (.closeParen, ")"), (.semicolon, ";"), (.kwElse, "else"),
    (.closeBrace, "\x7d"), (.semicolon, ";"), (.finish, "")].zipIdx.map
      fun ((kind, lexeme), column) => ⟨kind, lexeme, ⟨1, column⟩⟩

/-- The choice can be completed up to its keyword, and not with the brace behind it, which no level
too many explains. -/
theorem parse_first_impossible_brace : Admissible brokenTokens ∧
    parse brokenTokens = .error (.rejected ⟨.unexpected "a statement" "'\x7d'", some ⟨1, 10⟩⟩) ∧
    Completable (brokenTokens.take 10) ∧ ¬ Completable (brokenTokens.take 11) ∧
    ¬ ∃ (d : Derivation .body) (mark : Terminal .finish),
      brokenTokens.take 11 <+: d.tokens ++ [mark.val] := by
  have admissible : Admissible brokenTokens :=
    ⟨⟨_, _, (List.dropLast_append_getLast (by decide)).symm, by decide⟩, by decide⟩
  have refused : parse brokenTokens =
      .error (.rejected ⟨.unexpected "a statement" "'\x7d'", some ⟨1, 10⟩⟩) := rfl
  obtain ⟨k, t, cause, found, reported, before, upTo, deep, _⟩ :=
    parse_first_impossible admissible refused
  simp only [Failure.rejected.injEq, Rejection.mk.injEq, Option.some.injEq] at reported
  -- Only one token stands at the reported place.
  have inside : k < 13 := (List.getElem?_eq_some_iff.mp found).choose
  have place : (brokenTokens[k]?).map (·.position) = some ⟨1, 10⟩ := by simp [found, reported.2]
  have only : ∀ k < 13, (brokenTokens[k]?).map (·.position) = some ⟨1, 10⟩ → k = 10 := by decide
  obtain rfl := only k inside place
  refine ⟨admissible, refused, before, upTo, ?_⟩
  rw [← deep, ← reported.1]
  simp

end Node

end BlockCode
