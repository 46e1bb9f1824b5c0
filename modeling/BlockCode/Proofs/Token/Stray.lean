import BlockCode.Proofs.Token.Lexeme

/-! Where scanning fails: at the first character that starts no token, behind a text that can be
scanned by itself. -/

namespace BlockCode.Token

variable {here : Position} {c d : Char} {cs rest behind : List Char} {tokens : List Token}

/-- The text behind the last break. -/
def lastLine (cs : List Char) : List Char := cs.rtakeWhile (· ≠ '\n')

/-- No comment is open at the end of a text: there are no two slashes in a row behind the last
break. -/
def Uncommented (cs : List Char) : Prop := ¬ ['/', '/'] <:+: lastLine cs

instance (cs : List Char) : Decidable (Uncommented cs) :=
  inferInstanceAs (Decidable (¬ ['/', '/'] <:+: lastLine cs))

/-- A character starts no token in front of a text: an exclamation mark without an equals sign, or a
character that is no blank, no part of a word and no symbol. -/
def IsStray (c : Char) (behind : List Char) : Prop :=
  -- An exclamation mark is a symbol only together with the sign behind it.
  c = '!' ∧ behind.head? ≠ some '=' ∨
  c ≠ '!' ∧ c ∉ [' ', '\t', '\r', '\n'] ∧ isWordPart c = false ∧ [c] ∉ Kind.symbols.map (·.1)

/-- A source is split at a stray character: what stands before it can be scanned, with the end mark
at the place of the character, and no comment is open there. -/
structure StrayAt (source before : String) (c : Char) (behind : String) (place : Position) :
    Prop where
  split : source = before ++ String.singleton c ++ behind
  scanned : ∃ tokens, scan before = .ok (tokens ++ [⟨.finish, "", place⟩])
  uncommented : Uncommented before.toList
  stray : IsStray c behind.toList

/-- A text without breaks is one line. -/
theorem lastLine_inline (inline : '\n' ∉ cs) : lastLine cs = cs :=
  Position.Reached.rtakeWhile_first inline

/-- What stands before a break is on no last line. -/
theorem lastLine_break (front cs : List Char) : lastLine (front ++ '\n' :: cs) = lastLine cs := by
  by_cases broken : '\n' ∈ cs
  · -- Behind the last break, which is the first one from the end, both lines are the same.
    obtain ⟨part, lines, split, inside⟩ :=
      List.eq_append_cons_of_mem (List.mem_reverse.mpr broken)
    have inline : '\n' ∉ part.reverse := by simpa using inside
    obtain rfl : cs = lines.reverse ++ '\n' :: part.reverse := by
      rw [← cs.reverse_reverse, split]
      simp
    rw [← List.cons_append, ← List.append_assoc]
    exact (Position.Reached.rtakeWhile_later inline _).trans
      (Position.Reached.rtakeWhile_later inline _).symm
  · rw [lastLine_inline broken]
    exact Position.Reached.rtakeWhile_later broken front

/-- A character in front is on the last line if the text behind it has no break. -/
theorem lastLine_cons (other : c ≠ '\n') (rest : List Char) :
    lastLine (c :: rest) = if '\n' ∈ rest then lastLine rest else c :: rest := by
  -- A break farther on decides; without one, all of the text is the last line.
  split
  · rename_i broken
    obtain ⟨front, back, rfl⟩ := List.append_of_mem broken
    rw [← List.cons_append, lastLine_break, lastLine_break]
  · rename_i inline
    apply lastLine_inline
    simpa [inline] using other.symm

/-- There are two slashes in a row in front, or farther on. -/
theorem slashes_cons (c : Char) (rest : List Char) : ['/', '/'] <:+: c :: rest ↔
    startsComment c rest = true ∨ ['/', '/'] <:+: rest := by
  -- Two slashes in front are what starts a comment.
  have front : ['/', '/'] <+: c :: rest ↔ startsComment c rest = true := by
    cases rest with
    | nil => simp [startsComment]
    | cons d rest =>
      simp only [List.cons_prefix_cons, List.nil_prefix, and_true, startsComment, List.head?_cons,
        Bool.and_eq_true, beq_iff_eq, Option.some.injEq]
      exact and_congr eq_comm eq_comm
  rw [List.infix_cons_iff, front]

namespace Uncommented

/-- A break ends all comments before it. -/
theorem of_break (front : List Char) :
    Uncommented (front ++ '\n' :: cs) ↔ Uncommented cs := by
  rw [Uncommented, Uncommented, lastLine_break]

/-- Text in front is of no use for the last line. -/
theorem tail (uncommented : Uncommented (c :: rest)) : Uncommented rest := by
  -- A break in front was no part of the last line; any other character may have been its first.
  by_cases breaks : c = '\n'
  · subst breaks
    exact (of_break []).mp uncommented
  · rw [Uncommented, lastLine_cons breaks] at uncommented
    split at uncommented
    · exact uncommented
    · rename_i inline
      rw [slashes_cons, not_or] at uncommented
      rw [Uncommented, lastLine_inline inline]
      exact uncommented.2

/-- A character that does not start a comment may stand in front. -/
theorem cons (uncommented : Uncommented rest) (code : startsComment c rest = false) :
    Uncommented (c :: rest) := by
  -- A break in front is no part of the last line; any other character may become its first.
  by_cases breaks : c = '\n'
  · subst breaks
    exact (of_break []).mpr uncommented
  · rw [Uncommented, lastLine_cons breaks]
    split
    · exact uncommented
    · rename_i inline
      rw [Uncommented, lastLine_inline inline] at uncommented
      simp [slashes_cons, code, uncommented]

/-- Behind text that is taken away the last line is the same or shorter. -/
theorem right {front : List Char} (uncommented : Uncommented (front ++ cs)) : Uncommented cs := by
  -- The text in front is dropped one character at a time.
  induction front with
  | nil => exact uncommented
  | cons c front ih => exact ih uncommented.tail

/-- A comment is open until there is a break. -/
theorem mem_break (uncommented : Uncommented (c :: rest)) (starts : startsComment c rest = true) :
    '\n' ∈ rest := by
  by_contra inline
  -- The slashes are on the last line if nothing but that line is there.
  have slash : c ≠ '\n' := by
    rintro rfl
    simp [startsComment] at starts
  rw [Uncommented, lastLine_cons slash, if_neg inline, slashes_cons] at uncommented
  exact uncommented (.inl starts)

/-- A lexeme may stand in front, if it is not the first half of a comment. -/
theorem lexeme {kind : Kind} {text : List Char} (uncommented : Uncommented cs)
    (lexeme : Lexeme kind text) (code : text = ['/'] → cs.head? ≠ some '/') :
    Uncommented (text ++ cs) := by
  by_cases slash : '/' ∈ text
  · obtain rfl := lexeme.eq_slash slash
    exact uncommented.cons (by simp [startsComment, code rfl])
  · -- No character of the lexeme starts a comment.
    clear lexeme code
    induction text with
    | nil => exact uncommented
    | cons c text ih =>
      rw [List.mem_cons, not_or] at slash
      exact (ih slash.2).cons (by simp [startsComment, Ne.symm slash.1])

end Uncommented

/-- No lexeme is cut off exactly in front of a character that is no part of a word, and no symbol
alone or with the next one. -/
theorem firstLexeme?_eq_none_iff : firstLexeme? c rest = none ↔ isWordPart c = false ∧
    Kind.ofSymbol? [c] = none ∧ ∀ d, rest.head? = some d → Kind.ofSymbol? [c, d] = none := by
  unfold firstLexeme?
  by_cases starts : isWordStart c = true
  · simp [starts, isWordPart]
  by_cases digit : c.isDigit = true
  · simp [digit, starts, isWordPart]
  have part : isWordPart c = false := by simpa [isWordPart, starts] using digit
  rw [if_neg starts, if_neg digit]
  cases rest with
  | nil => simp [part]
  | cons d rest =>
    -- The pair is looked up before the sign alone.
    cases pair : Kind.ofSymbol? [c, d] <;> simp [part, pair]

/-- Nothing is found among the symbols for what does not stand there. -/
theorem ofSymbol?_eq_none {text : List Char} (absent : text ∉ Kind.symbols.map (·.1)) :
    Kind.ofSymbol? text = none := by
  -- Whatever is found stands in the table.
  cases found : Kind.ofSymbol? text with
  | none => rfl
  | some kind => exact absurd (List.mem_map_of_mem (mem_symbols found)) absent

/-- A pair of signs begins with a symbol, or with the sign that has no meaning of its own. -/
theorem first_sign {kind : Kind} (found : Kind.ofSymbol? [c, d] = some kind) :
    c = '!' ∨ [c] ∈ Kind.symbols.map (·.1) := by
  -- The table is searched: every first sign but one is a symbol by itself.
  have table : (Kind.symbols.all fun entry =>
      entry.1.head?.all fun c => c == '!' || decide ([c] ∈ Kind.symbols.map (·.1))) = true := by
    decide
  simpa using List.all_eq_true.mp table _ (mem_symbols found)

/-- Scanning stops at stray characters and nowhere else. -/
theorem isStray_iff : IsStray c rest ↔ c ≠ '\n' ∧ isGap c = false ∧
    startsComment c rest = false ∧ firstLexeme? c rest = none := by
  rw [firstLexeme?_eq_none_iff]
  constructor
  · rintro (⟨rfl, alone⟩ | ⟨other, blank, part, symbol⟩)
    · -- Only an equals sign could be the second half of a symbol.
      refine ⟨by decide, by decide, by simp [startsComment], by decide, by decide, ?_⟩
      intro d follows
      cases found : Kind.ofSymbol? ['!', d] with
      | none => rfl
      | some kind => exact absurd (second_sign found ▸ follows) alone
    · simp only [List.mem_cons, List.not_mem_nil, or_false, not_or] at blank
      obtain ⟨space, tab, carriage, breaks⟩ := blank
      have slash : c ≠ '/' := by
        rintro rfl
        exact symbol (by decide)
      refine ⟨breaks, by simp [isGap, space, tab, carriage], by simp [startsComment, slash], part,
        ofSymbol?_eq_none symbol, ?_⟩
      intro d _
      cases found : Kind.ofSymbol? [c, d] with
      | none => rfl
      | some kind => exact absurd (first_sign found) (by simp [other, symbol])
  · rintro ⟨breaks, gap, _, part, single, pair⟩
    by_cases mark : c = '!'
    · subst mark
      refine .inl ⟨rfl, fun follows => ?_⟩
      exact absurd (pair '=' follows) (by decide)
    · refine .inr ⟨mark, ?_, part, ?_⟩
      · simpa [isGap, breaks, and_assoc] using gap
      · intro symbol
        obtain ⟨⟨_, kind⟩, known, rfl⟩ := List.mem_map.mp symbol
        rw [ofSymbol?_entry _ known] at single
        cases single

/-- A stray character continues no lexeme and is not the second half of a comment. -/
theorem IsStray.stops (stray : IsStray c rest) (text : List Char) :
    continues text c = false ∧ c ≠ '/' := by
  obtain ⟨_, _, _, none⟩ := isStray_iff.mp stray
  obtain ⟨part, single, _⟩ := firstLexeme?_eq_none_iff.mp none
  -- The equals sign and the slash are symbols.
  refine ⟨continues_other part ?_ text, ?_⟩ <;> rintro rfl <;> exact absurd single (by decide)

/-- Scanning fails at a stray character. -/
theorem scanFrom_isStray (stray : IsStray c rest) (here : Position) :
    scanFrom here (c :: rest) = .error ⟨.stray (String.singleton c), some here⟩ := by
  -- None of the rules applies, so the one that fails is reached.
  obtain ⟨breaks, gap, code, none⟩ := isStray_iff.mp stray
  rw [scanFrom, if_neg breaks, if_neg (by simp [gap]), if_neg (by simp [code])]
  split
  · rfl
  · rename_i found
    cases none.symm.trans found

/-- Where a text can be scanned and no comment is open at its end, a character that belongs to
nothing before it is scanned from the place of the end mark on. -/
theorem scanFrom_front (scanned : scanFrom here cs = .ok tokens) (uncommented : Uncommented cs)
    (stops : ∀ text, continues text d = false) (other : d ≠ '/') :
    ∃ front place, tokens = front ++ [⟨.finish, "", place⟩] ∧ ∀ others,
      scanFrom here (cs ++ d :: others) = (scanFrom place (d :: others)).map (front ++ ·) := by
  -- The scanner takes the same way through the text as if nothing were behind it.
  fun_induction scanFrom here cs generalizing tokens with
  | case1 here =>
    cases scanned
    refine ⟨[], here, rfl, fun others => ?_⟩
    rw [List.nil_append]
    cases scanFrom here (d :: others) <;> rfl
  | case2 here rest ih =>
    obtain ⟨front, place, split, behind⟩ := ih scanned uncommented.tail
    refine ⟨front, place, split, fun others => ?_⟩
    rw [List.cons_append, scanFrom, if_pos rfl, behind]
  | case3 here c rest breaks gap ih =>
    obtain ⟨front, place, split, behind⟩ := ih scanned uncommented.tail
    refine ⟨front, place, split, fun others => ?_⟩
    rw [List.cons_append, scanFrom, if_neg breaks, if_pos gap, behind]
  | case4 here c rest breaks gap comment text =>
    rename_i ih
    -- The comment ends in the text, since none is open at the end.
    obtain ⟨body, after, rfl, inside⟩ := List.eq_append_cons_of_mem (uncommented.mem_break comment)
    obtain ⟨taken, left⟩ := takeWhile_line inside after
    rw [left] at ih scanned
    rw [← List.cons_append, Uncommented.of_break] at uncommented
    obtain ⟨front, place, split, behind⟩ := ih scanned ((Uncommented.of_break []).mpr uncommented)
    refine ⟨front, place, split, fun others => ?_⟩
    have passed : scanFrom here (c :: (body ++ '\n' :: (after ++ d :: others))) =
        scanFrom (here.right (body.length + 1)).nextLine (after ++ d :: others) := by
      apply scanFrom_comment _ inside
      rwa [← List.cons_append, ← List.append_assoc, startsComment_append other]
    rw [← behind, List.cons_append, List.append_assoc, List.cons_append, passed, scanFrom,
      if_pos rfl]
    simp only [text, taken]
  | case5 here c rest breaks gap comment stray => cases scanned
  | case6 here c rest breaks gap comment kind text more found ih =>
    obtain ⟨others, further, same⟩ := bind_eq_ok.mp scanned
    cases same
    obtain ⟨_, _, split⟩ := lexeme_firstLexeme? found
    rw [split] at uncommented
    obtain ⟨front, place, rfl, behind⟩ := ih further uncommented.right
    refine ⟨_ :: front, place, rfl, fun others => ?_⟩
    -- The lexeme is not made longer by what follows.
    rw [List.cons_append, scanFrom_lexeme breaks (by simpa using gap)
      (by rw [startsComment_append other]; simpa using comment)
      (firstLexeme?_append found (stops text) others), behind]
    cases scanFrom place (d :: others) <;> rfl

/-- Where scanning fails, the text is split at a stray character: what stands before it can be
scanned, up to the place that is told, and no comment is open there. -/
theorem scanFrom_stray {e : Rejection} (failed : scanFrom here cs = .error e) :
    ∃ front c behind tokens place, cs = front ++ c :: behind ∧
      e = ⟨.stray (String.singleton c), some place⟩ ∧
      scanFrom here front = .ok (tokens ++ [⟨.finish, "", place⟩]) ∧ Uncommented front ∧
      IsStray c behind := by
  fun_induction scanFrom here cs generalizing e with
  | case1 here => cases failed
  | case2 here rest ih =>
    obtain ⟨front, c, behind, tokens, place, rfl, told, scanned, uncommented, stray⟩ := ih failed
    refine ⟨'\n' :: front, c, behind, tokens, place, rfl, told, ?_, ?_, stray⟩
    · rw [scanFrom, if_pos rfl, scanned]
    · exact uncommented.cons (by simp [startsComment])
  | case3 here c rest breaks gap ih =>
    obtain ⟨front, d, behind, tokens, place, rfl, told, scanned, uncommented, stray⟩ := ih failed
    refine ⟨c :: front, d, behind, tokens, place, rfl, told, ?_, ?_, stray⟩
    · rw [scanFrom, if_neg breaks, if_pos gap, scanned]
    · have slash : c ≠ '/' := by
        rintro rfl
        simp [isGap] at gap
      exact uncommented.cons (by simp [startsComment, slash])
  | case4 here c rest breaks gap comment text =>
    rename_i ih
    obtain ⟨front, d, behind, tokens, place, split, told, scanned, uncommented, stray⟩ := ih failed
    -- The comment ends before the failure, since a break is not stray.
    have first : ∀ e, (front ++ d :: behind).head? = some e → e = '\n' := by
      intro e follows
      rw [← split] at follows
      simpa using head?_dropWhile follows
    obtain ⟨after, rfl⟩ : ∃ after, front = '\n' :: after := by
      cases front with
      | nil => exact absurd (first d rfl) (isStray_iff.mp stray).1
      | cons e after => exact ⟨after, by rw [first e rfl]⟩
    have inside : '\n' ∉ text := by
      intro member
      exact absurd (List.mem_takeWhile_imp member) (by decide)
    have whole : rest = text ++ '\n' :: after ++ d :: behind := by
      rw [List.append_assoc, ← split, List.takeWhile_append_dropWhile]
    refine ⟨c :: (text ++ '\n' :: after), d, behind, tokens, place, congrArg (c :: ·) whole, told,
      ?_, ?_, stray⟩
    · rw [scanFrom, if_pos rfl] at scanned
      rw [← scanned]
      apply scanFrom_comment _ inside
      rwa [← startsComment_append (stray.stops []).2 c _ behind, ← whole]
    · rw [← List.cons_append, Uncommented.of_break]
      exact uncommented.tail
  | case5 here c rest breaks gap comment stray =>
    cases failed
    refine ⟨[], c, rest, [], here, rfl, rfl, by rw [scanFrom]; rfl, by simp [Uncommented, lastLine],
      ?_⟩
    exact isStray_iff.mpr ⟨breaks, by simpa using gap, by simpa using comment, stray⟩
  | case6 here c rest breaks gap comment kind text more found ih =>
    -- The failure is behind the lexeme, which is cut off as well if the text ends before it.
    have further : scanFrom (here.right text.length) more = .error e := by
      cases outcome : scanFrom (here.right text.length) more with
      | error e' => simpa [outcome, Bind.bind, Except.bind] using failed
      | ok tokens => simp [outcome, Bind.bind, Except.bind, Pure.pure, Except.pure] at failed
    obtain ⟨front, d, behind, tokens, place, rfl, told, scanned, uncommented, stray⟩ := ih further
    obtain ⟨lexeme, ends, split⟩ := lexeme_firstLexeme? found
    obtain ⟨first, others, rfl⟩ := lexeme.exists_cons
    obtain ⟨rfl, rfl⟩ := List.cons.inj split
    have code : startsComment c (others ++ front) = false := by
      rw [← startsComment_append (stray.stops []).2 c _ behind, List.append_assoc]
      simpa using comment
    refine ⟨c :: others ++ front, d, behind, ⟨kind, String.ofList (c :: others), here⟩ :: tokens,
      place, by simp, told, ?_, ?_, stray⟩
    · have cut := firstLexeme?_lexeme lexeme ends.cut rfl
      rw [List.cons_append, scanFrom_lexeme breaks (by simpa using gap) code cut, scanned]
      rfl
    · apply uncommented.lexeme lexeme
      rintro single
      obtain ⟨rfl, rfl⟩ := List.cons.inj single
      simpa [startsComment] using code

namespace StrayAt

variable {source before behind : String} {place : Position}

/-- Scanning a source that is split at a stray character fails there, whatever stands behind it. -/
theorem scan_eq (split : StrayAt source before c behind place) {other : String}
    (stray : IsStray c other.toList) : scan (before ++ String.singleton c ++ other) =
      .error ⟨.stray (String.singleton c), some place⟩ := by
  obtain ⟨tokens, scanned⟩ := split.scanned
  -- The text before the character is passed, up to the end mark.
  obtain ⟨front, reached, same, further⟩ := scanFrom_front scanned split.uncommented
    (fun text => (stray.stops text).1) (stray.stops []).2
  obtain ⟨rfl, rfl⟩ : tokens = front ∧ place = reached := by simpa using same
  have joined : (before ++ String.singleton c ++ other).toList =
      before.toList ++ c :: other.toList := by simp
  rw [scan, joined, further, scanFrom_isStray stray]
  rfl

/-- Scanning the source fails at the stray character. -/
theorem scan_source (split : StrayAt source before c behind place) :
    scan source = .error ⟨.stray (String.singleton c), some place⟩ := by
  rw [split.split, split.scan_eq split.stray]

/-- The characters of the source. -/
theorem toList_eq (split : StrayAt source before c behind place) :
    source.toList = before.toList ++ c :: behind.toList := by
  -- The source is put together from its three parts.
  rw [split.split]
  simp

/-- No split reaches beyond the stray character of another one. -/
theorem eq_nil {before' behind' : String} {c' : Char} {place' : Position} {more : List Char}
    (split : StrayAt source before c behind place)
    (split' : StrayAt source before' c' behind' place')
    (longer : before'.toList = before.toList ++ more)
    (same : c :: behind.toList = more ++ c' :: behind'.toList) : more = [] := by
  cases more with
  | nil => rfl
  | cons first rest =>
    rw [List.cons_append] at same
    obtain ⟨rfl, joined⟩ := List.cons.inj same
    -- The character is stray inside the longer text too: what follows it is the same, or nothing.
    have stray : IsStray c (String.ofList rest).toList := by
      rw [String.toList_ofList]
      rcases split.stray with ⟨mark, alone⟩ | other
      · refine .inl ⟨mark, fun follows => alone ?_⟩
        rw [joined, List.head?_append, follows]
        rfl
      · exact .inr other
    -- So scanning the longer text fails, but it was scanned.
    have text : before' = before ++ String.singleton c ++ String.ofList rest := by
      rw [← String.toList_inj, longer]
      simp
    obtain ⟨tokens, scanned⟩ := split'.scanned
    rw [text, split.scan_eq stray] at scanned
    cases scanned

/-- A source is split at one stray character at most. -/
theorem unique {before' behind' : String} {c' : Char} {place' : Position}
    (split : StrayAt source before c behind place)
    (split' : StrayAt source before' c' behind' place') :
    before = before' ∧ c = c' ∧ behind = behind' ∧ place = place' := by
  have texts : before.toList = before'.toList ∧
      c :: behind.toList = c' :: behind'.toList := by
    -- One of the texts before the character begins with the other one.
    have same := split.toList_eq.symm.trans split'.toList_eq
    rcases List.append_eq_append_iff.mp same with ⟨more, longer, rest⟩ | ⟨more, longer, rest⟩
    · obtain rfl := split.eq_nil split' longer rest
      exact ⟨by simpa using longer.symm, rest⟩
    · obtain rfl := split'.eq_nil split longer rest
      exact ⟨by simpa using longer, rest.symm⟩
  obtain ⟨rfl, behinds⟩ := List.cons.inj texts.2
  -- The places are those of one failure.
  have failures := split.scan_source.symm.trans split'.scan_source
  refine ⟨String.toList_inj.mp texts.1, rfl, String.toList_inj.mp behinds, ?_⟩
  simpa using failures

/-- Where scanning a source fails, it is split there. -/
theorem of_error {e : Rejection} (failed : scan source = .error e) :
    ∃ before c behind place, e = ⟨.stray (String.singleton c), some place⟩ ∧
      StrayAt source before c behind place := by
  -- The split is made on characters, and is said of texts here.
  obtain ⟨front, c, behind, tokens, place, split, told, scanned, uncommented, stray⟩ :=
    scanFrom_stray failed
  refine ⟨String.ofList front, c, String.ofList behind, place, told, ?_, ⟨tokens, ?_⟩, ?_, ?_⟩
  · rw [← String.toList_inj, split]
    simp
  · rwa [scan, String.toList_ofList]
  · rwa [String.toList_ofList]
  · rwa [String.toList_ofList]

end StrayAt

/-- Scanning fails exactly at stray characters. It fails with a character and a place if the source
is split there: the text before the character can be scanned by itself with the end mark at that
place, and no comment is open. There is at most one such split, there is no other failure, and
what stands behind the character makes no difference as long as the character is stray before
it. -/
theorem scan_stray (source : String) :
    (∀ c place, scan source = .error ⟨.stray (String.singleton c), some place⟩ ↔
      ∃ before behind, StrayAt source before c behind place) ∧
    (∀ before c behind place before' c' behind' place', StrayAt source before c behind place →
      StrayAt source before' c' behind' place' →
      before = before' ∧ c = c' ∧ behind = behind' ∧ place = place') ∧
    (∀ e, scan source = .error e → ∃ c place, e = ⟨.stray (String.singleton c), some place⟩) ∧
    ∀ before c behind place, StrayAt source before c behind place → ∀ other,
      IsStray c other.toList → scan (before ++ String.singleton c ++ other) = scan source := by
  refine ⟨?_, ?_, ?_, ?_⟩
  · intro c place
    constructor
    · intro failed
      obtain ⟨before, d, behind, there, same, split⟩ := StrayAt.of_error failed
      -- The failure tells the character and the place of the split.
      obtain ⟨single, rfl⟩ : String.singleton c = String.singleton d ∧ place = there := by
        simpa using same
      obtain rfl : c = d := by simpa using congrArg String.toList single
      exact ⟨before, behind, split⟩
    · rintro ⟨before, behind, split⟩
      exact split.scan_source
  · intro before c behind place before' c' behind' place' split split'
    exact split.unique split'
  · intro e failed
    obtain ⟨before, c, behind, place, same, _⟩ := StrayAt.of_error failed
    exact ⟨c, place, same⟩
  · intro before c behind place split other stray
    rw [split.scan_eq stray, split.scan_source]

/-- An exclamation mark on the line behind a comment, directly behind a sign that could be the first
half of a symbol. -/
def strayMark : String := "// a\na <!b"

/-- The mark is refused at its place, also if nothing follows it. -/
theorem scan_stray_mark : StrayAt strayMark "// a\na <" '!' "b" ⟨2, 4⟩ ∧
    scan strayMark = .error ⟨.stray "!", some ⟨2, 4⟩⟩ ∧ scan "// a\na <!" = scan strayMark := by
  -- The text in front of the mark is scanned, and both texts are split there.
  have scanned : scan "// a\na <" = .ok ([⟨.name, "a", ⟨2, 1⟩⟩, ⟨.less, "<", ⟨2, 3⟩⟩] ++
      [⟨.finish, "", ⟨2, 4⟩⟩]) := by
    decide +kernel
  have split : StrayAt strayMark "// a\na <" '!' "b" ⟨2, 4⟩ :=
    ⟨rfl, ⟨_, scanned⟩, by decide +kernel, .inl ⟨rfl, by decide +kernel⟩⟩
  obtain ⟨fails, _, _, same⟩ := scan_stray strayMark
  exact ⟨split, (fails '!' _).mpr ⟨_, _, split⟩,
    same _ _ _ _ split "" (.inl ⟨rfl, by decide +kernel⟩)⟩

end BlockCode.Token
