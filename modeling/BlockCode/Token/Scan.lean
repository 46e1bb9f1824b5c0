import BlockCode.Token

/-! A source text cut into tokens, the longest one at each place. -/

namespace BlockCode.Token

/-- Characters that start a word. -/
def isWordStart (c : Char) : Bool :=
  c.isAlpha || c == '_'

/-- Characters that continue a word. -/
def isWordPart (c : Char) : Bool :=
  isWordStart c || c.isDigit

/-- Characters between tokens that stay on their line. -/
def isGap (c : Char) : Bool :=
  c == ' ' || c == '\t' || c == '\r'

/-- Tells whether a comment starts with this character and those that follow. -/
def startsComment (c : Char) (rest : List Char) : Bool :=
  c == '/' && rest.head? == some '/'

/-- The lexeme at the front of a text with its kind, and what follows; none at a stray character. -/
def firstLexeme? (c : Char) (rest : List Char) : Option (Kind × List Char × List Char) :=
  if isWordStart c then
    let word := c :: rest.takeWhile isWordPart
    some (.ofWord word, word, rest.dropWhile isWordPart)
  else if c.isDigit then
    some (.number, c :: rest.takeWhile Char.isDigit, rest.dropWhile Char.isDigit)
  else
    -- A symbol of two signs goes before its first sign alone.
    match rest with
    | [] => (Kind.ofSymbol? [c]).map fun kind => (kind, [c], [])
    | d :: more =>
      match Kind.ofSymbol? [c, d] with
      | some kind => some (kind, [c, d], more)
      | none => (Kind.ofSymbol? [c]).map fun kind => (kind, [c], d :: more)

/-- Dropping characters leaves no more than there were. -/
theorem length_dropWhile_le (p : Char → Bool) (cs : List Char) :
    (cs.dropWhile p).length ≤ cs.length := by
  -- What is left is a suffix.
  exact (List.dropWhile_suffix p).length_le

/-- A lexeme takes at least its first character. -/
theorem length_rest_le {c : Char} {rest text more : List Char} {kind : Kind}
    (found : firstLexeme? c rest = some (kind, text, more)) : more.length ≤ rest.length := by
  -- Words and numbers leave a suffix, and a symbol leaves the text behind one or two signs.
  unfold firstLexeme? at found
  split at found
  · simp only [Option.some.injEq, Prod.mk.injEq] at found
    exact found.2.2 ▸ length_dropWhile_le _ _
  split at found
  · simp only [Option.some.injEq, Prod.mk.injEq] at found
    exact found.2.2 ▸ length_dropWhile_le _ _
  split at found
  · simp only [Option.map_eq_some_iff, Prod.mk.injEq] at found
    obtain ⟨_, _, _, _, rfl⟩ := found
    exact Nat.le_refl _
  · split at found
    · simp only [Option.some.injEq, Prod.mk.injEq] at found
      simp [← found.2.2]
    · simp only [Option.map_eq_some_iff, Prod.mk.injEq] at found
      obtain ⟨_, _, _, _, rfl⟩ := found
      exact Nat.le_refl _

/-- The tokens of a text that begins at a given place, closed by the end mark. -/
def scanFrom (here : Position) : List Char → Except Rejection (List Token)
  | [] => .ok [⟨.finish, "", here⟩]
  | c :: rest =>
    if c = '\n' then scanFrom here.nextLine rest
    else if isGap c then scanFrom (here.right 1) rest
    else if startsComment c rest then
      -- The line break that ends a comment is not part of it.
      let comment := rest.takeWhile (· != '\n')
      scanFrom (here.right (comment.length + 1)) (rest.dropWhile (· != '\n'))
    else
      match _found : firstLexeme? c rest with
      | none => .error ⟨.stray (String.singleton c), some here⟩
      | some (kind, text, more) => do
        let tokens ← scanFrom (here.right text.length) more
        return ⟨kind, String.ofList text, here⟩ :: tokens
termination_by cs => cs.length
decreasing_by
  all_goals simp only [List.length_cons]
  · omega
  · omega
  · exact Nat.lt_succ_of_le (length_dropWhile_le _ _)
  · exact Nat.lt_succ_of_le (length_rest_le _found)

/-- The tokens of a source text, closed by the end mark. -/
def scan (source : String) : Except Rejection (List Token) :=
  scanFrom .start source.toList

end BlockCode.Token
