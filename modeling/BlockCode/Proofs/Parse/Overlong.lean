import BlockCode.Proofs.Parse.Impossible

/-! When a number has too many digits to be read: the parser fails for that reason exactly if it
gets to the first such number. -/

namespace BlockCode

namespace Token

/-- A number with too many digits. -/
def Overlong (t : Token) : Prop :=
  t.kind = .number ∧ Numeral.maxDigits < t.lexeme.toList.length

instance (t : Token) : Decidable t.Overlong :=
  inferInstanceAs (Decidable (_ ∧ _))

/-- A single digit in the place of too many. -/
def shortened (t : Token) : Token :=
  if t.Overlong then { t with lexeme := "0" } else t

/-- Mending keeps the place. -/
theorem position_mended (t : Token) : t.mended.position = t.position := by
  -- Mending changes the text of a number and nothing else.
  unfold mended
  split <;> rfl

end Token

namespace Node

/-- The parser reports an error at the token with some index. -/
def ErrorAt (tokens : List Token) (k : Nat) : Prop :=
  ∃ t cause, tokens[k]? = some t ∧ parse tokens = .error (.rejected ⟨cause, some t.position⟩)

/-- Where more tokens can be completed, so can fewer. -/
theorem Completable.take {tokens : List Token} {i j : Nat}
    (completable : Completable (tokens.take j)) (fewer : i ≤ j) :
    Completable (tokens.take i) := by
  -- What was cut off joins what is still to come.
  obtain ⟨more, tree, read⟩ := completable
  have split : tokens.take j = tokens.take i ++ (tokens.take j).drop i := by
    conv => lhs; rw [← List.take_append_drop i (tokens.take j)]
    rw [List.take_take, Nat.min_eq_left fewer]
  rw [split, List.append_assoc] at read
  exact ⟨_, tree, read⟩

/-- The first number with too many digits has some index. -/
def FirstOverlong (tokens : List Token) (k : Nat) : Prop :=
  (∃ t, tokens[k]? = some t ∧ t.Overlong) ∧
    -- No number before it has too many digits, and those behind it do not matter.
    ∀ j < k, ∀ t, tokens[j]? = some t → ¬ t.Overlong

/-- Token lists as they are cut from a source text: an end mark stands at their end and nowhere
else, numbers are rows of digits, and no two tokens stand at the same place. -/
structure Scanned (tokens : List Token) : Prop where
  ended : ∃ before mark, tokens = before ++ [mark] ∧ mark.kind = .finish ∧
    ∀ t ∈ before, t.kind ≠ .finish
  digits : ∀ t ∈ tokens, t.kind = .number →
    t.lexeme.toList ≠ [] ∧ ∀ c ∈ t.lexeme.toList, c.isDigit = true
  apart : (tokens.map (·.position)).Nodup

namespace Scanned

variable {tokens : List Token} {t : Token}

/-- An end mark closes the list. -/
theorem closed (scanned : Scanned tokens) : Closed tokens := by
  -- Of what is known about the mark, only that it is last is needed here.
  obtain ⟨before, mark, split, ended, _⟩ := scanned.ended
  exact ⟨before, mark, split, ended⟩

/-- A number is legible if it has not too many digits. -/
theorem legible (scanned : Scanned tokens) (member : t ∈ tokens) (short : ¬ t.Overlong)
    (number : t.kind = .number) : Numeral.Legible t.lexeme := by
  -- The scanner leaves only digits in a number, so its length decides.
  obtain ⟨nonempty, digits⟩ := scanned.digits t member number
  exact ⟨nonempty, Nat.le_of_not_lt fun long => short ⟨number, long⟩, digits⟩

/-- A number that has too many digits cannot be read. -/
theorem unread (scanned : Scanned tokens) (member : t ∈ tokens) (overlong : t.Overlong) :
    Numeral.read t.lexeme = .error (.overlong t.lexeme.toList.length) :=
  Numeral.read_overlong (scanned.digits t member overlong.1).2 overlong.2

/-- A token that reading can pass has not too many digits. -/
theorem not_overlong (scanned : Scanned tokens) (member : t ∈ tokens) (plain : t.Plain) :
    ¬ t.Overlong := by
  -- A number with too many digits has no value, and reading would have given it one.
  intro overlong
  obtain ⟨value, read⟩ := plain.readable overlong.1
  cases read.symm.trans (scanned.unread member overlong)

/-- Too many digits are all there is to mend. -/
theorem map_shortened (scanned : Scanned tokens) :
    tokens.map Token.shortened = tokens.map Token.mended := by
  -- A number that is short enough is legible, so mending leaves it alone as well.
  apply List.map_congr_left
  intro t member
  by_cases overlong : t.Overlong
  · have illegible : ¬ Numeral.Legible t.lexeme :=
      fun legible => Nat.not_lt.mpr legible.short overlong.2
    simp [Token.shortened, Token.mended, overlong, overlong.1, illegible]
  · rw [Token.mended_eq (scanned.legible member overlong)]
    simp [Token.shortened, overlong]

/-- A mended list is admissible. -/
theorem admissible_mended (scanned : Scanned tokens) : Admissible (tokens.map Token.mended) := by
  -- The mark stays one, and all numbers have been mended.
  obtain ⟨before, mark, rfl, ended⟩ := scanned.closed
  refine ⟨⟨before.map Token.mended, mark.mended, by simp, by rw [mark.kind_mended, ended]⟩, ?_⟩
  intro t member number
  obtain ⟨u, _, rfl⟩ := List.mem_map.mp member
  exact u.legible_mended number

/-- A token of a mended list is known by its place. -/
theorem index_eq (scanned : Scanned tokens) {i j : Nat} {t u : Token}
    (here : (tokens.map Token.mended)[i]? = some t) (there : (tokens.map Token.mended)[j]? = some u)
    (same : t.position = u.position) : i = j := by
  -- Mending keeps places, and no two tokens of a source share one.
  have places : (tokens.map Token.mended).map (·.position) = tokens.map (·.position) := by
    simp [List.map_map, Function.comp_def, Token.position_mended]
  have nodup := scanned.apart
  rw [← places] at nodup
  have inside : i < ((tokens.map Token.mended).map (·.position)).length := by
    obtain ⟨inside, _⟩ := List.getElem?_eq_some_iff.mp here
    simpa using inside
  refine (List.getElem?_inj inside nodup).mp ?_
  rw [List.getElem?_map, here, List.getElem?_map, there, Option.map_some, Option.map_some, same]

/-- The end mark is the last token. -/
theorem last (scanned : Scanned tokens) {i : Nat} (found : tokens[i]? = some t)
    (marks : t.kind = .finish) : i + 1 = tokens.length := by
  -- No token in front of the mark is one, so the index is not among theirs.
  obtain ⟨before, mark, rfl, _, others⟩ := scanned.ended
  obtain ⟨inside, _⟩ := List.getElem?_eq_some_iff.mp found
  by_cases earlier : i < before.length
  · rw [List.getElem?_append_left earlier] at found
    exact absurd marks (others t (List.mem_of_getElem? found))
  · simp only [List.length_append, List.length_singleton] at inside ⊢
    omega

/-- Numbers that reading has passed need no mending. -/
theorem map_plain {front back : List Token} (scanned : Scanned tokens)
    (split : tokens = front ++ back) (plain : ∀ u ∈ front, u.Plain) :
    front.map Token.mended = front := by
  -- A number that was passed has a value, so it has not too many digits.
  apply map_mended
  intro u member
  have inside : u ∈ tokens := by simp [split, member]
  exact scanned.legible inside (scanned.not_overlong inside (plain u member))

/-- Up to the token that the parser reports, a mended list cannot be completed. -/
theorem not_completable (scanned : Scanned tokens) {j : Nat}
    (error : ErrorAt (tokens.map Token.mended) j) :
    ¬ Completable ((tokens.map Token.mended).take (j + 1)) := by
  have closed := scanned.admissible_mended.closed
  obtain ⟨u, cause, found, reported⟩ := error
  cases closed.verdict with
  | accepted used t rest tree split ended spelled plain same =>
    rw [split, same rest (split ▸ closed)] at reported
    cases reported
  | refused front t rest reason split refuses plain same =>
    rw [split, same t rest (.refl _ _) (split ▸ closed), Except.error.injEq] at reported
    -- The reported place is the one of the token that is refused.
    have place := Option.some.inj (Reason.position_failure reported)
    have here : (tokens.map Token.mended)[front.length]? = some t := by simp [split]
    obtain rfl := scanned.index_eq here found place.symm
    have upTo : (tokens.map Token.mended).take (front.length + 1) = front ++ [t] := by
      simp [split, List.take_append]
    rw [upTo]
    exact Node.not_completable fun rest => same t rest (.refl _ _)

/-- Where the parser fails for a number, that number is the first one with too many digits, and the
mended list has no error up to it. -/
theorem of_numeral {e : NumeralError} (scanned : Scanned tokens)
    (failed : parse tokens = .error (.numeral e)) :
    (∃ digits, e = .overlong digits) ∧
      ∃ k, FirstOverlong tokens k ∧ ∀ j ≤ k, ¬ ErrorAt (tokens.map Token.mended) j := by
  cases scanned.closed.verdict with
  | accepted used t rest tree split ended spelled plain same =>
    rw [split, same rest (split ▸ scanned.closed)] at failed
    cases failed
  | refused front t rest reason split refuses plain same =>
    have member : t ∈ tokens := by simp [split]
    rw [split, same t rest (.refl _ _) (split ▸ scanned.closed)] at failed
    cases refuses with
    | unexpected => cases failed
    | tooDeep => cases failed
    | unread number unreadable completes =>
      cases failed
      have overlong : t.Overlong := by
        by_contra short
        rw [Numeral.read_legible (scanned.legible member short number)] at unreadable
        cases unreadable
      have counted := unreadable.symm.trans (scanned.unread member overlong)
      refine ⟨⟨_, Except.error.inj counted⟩, front.length, ⟨⟨t, by simp [split], overlong⟩, ?_⟩, ?_⟩
      · -- What stands before it was passed.
        intro j before u found
        rw [split, List.getElem?_append_left before] at found
        have passed := List.mem_of_getElem? found
        exact scanned.not_overlong (by simp [split, passed]) (plain u passed)
      · -- With the number in its place, the mended list can be completed.
        intro j upTo error
        have completable := completable_mended completes
        have same : (front ++ [t]).map Token.mended =
            (tokens.map Token.mended).take (front.length + 1) := by
          rw [← List.map_take]
          simp [split, List.take_append]
        rw [same] at completable
        exact scanned.not_completable error (completable.take (Nat.succ_le_succ upTo))

/-- If the mended list has no error up to the first number with too many digits, the parser fails
for a number. -/
theorem numeral_of {k : Nat} (scanned : Scanned tokens) (first : FirstOverlong tokens k)
    (passes : ∀ j ≤ k, ¬ ErrorAt (tokens.map Token.mended) j) :
    ∃ e, parse tokens = .error (.numeral e) := by
  obtain ⟨⟨u, found, overlong⟩, _⟩ := first
  have member := List.mem_of_getElem? found
  cases scanned.closed.verdict with
  | accepted used t rest tree split ended spelled plain same =>
    -- All tokens before the end mark were passed.
    have marks : tokens[used.length]? = some t := by simp [split]
    have length := scanned.last marks ended
    obtain ⟨inside, _⟩ := List.getElem?_eq_some_iff.mp found
    rcases Nat.lt_or_ge k used.length with before | behind
    · rw [split, List.getElem?_append_left before] at found
      exact absurd overlong (scanned.not_overlong member (plain u (List.mem_of_getElem? found)))
    · obtain rfl : k = used.length := by omega
      rw [marks, Option.some.injEq] at found
      rw [found, overlong.1] at ended
      cases ended
  | refused front t rest reason split refuses plain same =>
    have upTo : front.length ≤ k := by
      by_contra before
      rw [split, List.getElem?_append_left (by omega)] at found
      exact scanned.not_overlong member (plain u (List.mem_of_getElem? found)) overlong
    -- Refused for its kind, the token would be refused in the mended list as well.
    have mended : tokens.map Token.mended = front ++ t.mended :: rest.map Token.mended := by
      have passed := scanned.map_plain split plain
      rw [split, List.map_append, passed, List.map_cons]
    have closed := scanned.admissible_mended.closed
    have here : (tokens.map Token.mended)[front.length]? = some t.mended := by simp [mended]
    rw [mended] at closed
    have again := same t.mended (rest.map Token.mended)
    rw [← mended] at again closed
    cases refuses with
    | unexpected expected completes =>
      exact absurd ⟨t.mended, _, here, again t.kind_mended closed⟩ (passes _ upTo)
    | unread number unreadable completes =>
      exact ⟨_, by rw [split, same t rest (.refl _ _) (split ▸ scanned.closed)]; rfl⟩
    | tooDeep opens completes further =>
      exact absurd ⟨t.mended, _, here, again t.kind_mended closed⟩ (passes _ upTo)

/-- The parser fails for a number exactly if it gets to the first one with too many digits when it
is given one digit in the place of too many. -/
theorem numeral_iff (scanned : Scanned tokens) : (∃ e, parse tokens = .error (.numeral e)) ↔
    ∃ k, FirstOverlong tokens k ∧ ∀ j ≤ k, ¬ ErrorAt (tokens.map Token.shortened) j := by
  -- Short tokens in place of long ones are what mending leaves.
  rw [scanned.map_shortened]
  constructor
  · rintro ⟨e, failed⟩
    exact (scanned.of_numeral failed).2
  · rintro ⟨k, first, passes⟩
    exact scanned.numeral_of first passes

end Scanned

end Node

end BlockCode
