import BlockCode.Proofs.Token.Cover

/-! The texts that are lexemes, and what may follow them: a lexeme is cut off in front of a text
exactly if the next character does not continue it. -/

namespace BlockCode.Token

variable {here : Position} {c d : Char} {rest text others more : List Char} {kind : Kind}
variable {p : Char → Bool}

/-- A text is a lexeme of a kind: it stands in the table of keywords or of symbols, it is a word
that is no keyword, or it is a row of digits. -/
inductive Lexeme : Kind → List Char → Prop where
  | keyword {kind : Kind} {text : List Char} (known : (text, kind) ∈ Kind.keywords) :
      Lexeme kind text
  | symbol {kind : Kind} {text : List Char} (known : (text, kind) ∈ Kind.symbols) :
      Lexeme kind text
  | name {first : Char} {others : List Char} (starts : isWordStart first = true)
      (parts : ∀ c ∈ others, isWordPart c = true)
      (other : first :: others ∉ Kind.keywords.map (·.1)) : Lexeme .name (first :: others)
  | number {first : Char} {others : List Char} (digit : first.isDigit = true)
      (digits : ∀ c ∈ others, c.isDigit = true) : Lexeme .number (first :: others)

/-- Tells whether a character makes a longer lexeme of the one that it follows. -/
def continues (text : List Char) (d : Char) : Bool :=
  match text with
  | [] => false
  | c :: others =>
    if isWordStart c then isWordPart d
    else if c.isDigit then d.isDigit
    -- Only a symbol of one sign can be the first half of another one.
    else others.isEmpty && (Kind.ofSymbol? [c, d]).isSome

/-- A text ends a lexeme before it: it is empty, or its first character does not continue the
lexeme. -/
def Ends (text more : List Char) : Prop := ∀ d, more.head? = some d → continues text d = false

/-- A word is a lexeme, of the kind that the table of keywords tells. -/
theorem lexeme_word (starts : isWordStart c = true) (parts : ∀ d ∈ rest, isWordPart d = true) :
    Lexeme (.ofWord (c :: rest)) (c :: rest) := by
  -- The table decides between a keyword and a name.
  rcases ofWord_cases (c :: rest) with keyword | ⟨name, other⟩
  · exact .keyword keyword
  · rw [name]
    exact .name starts parts other

/-- A word that is no keyword is a name. -/
theorem ofWord_name (other : text ∉ Kind.keywords.map (·.1)) : Kind.ofWord text = .name := by
  -- A word that the table knows is in the table.
  rcases ofWord_cases text with keyword | ⟨name, _⟩
  · exact absurd (List.mem_map_of_mem keyword) other
  · exact name

/-- A keyword is a word of its own kind. -/
theorem word_keyword (known : (text, kind) ∈ Kind.keywords) :
    ∃ first others, text = first :: others ∧ isWordStart first = true ∧
      (∀ c ∈ others, isWordPart c = true) ∧ kind = .ofWord text := by
  -- The table is gone through once.
  have table : (Kind.keywords.all fun entry => entry.1.head?.any isWordStart &&
      entry.1.tail.all isWordPart && decide (entry.2 = .ofWord entry.1)) = true := by decide
  have entry := List.all_eq_true.mp table _ known
  cases text with
  | nil => simp at entry
  | cons first others =>
    simp only [List.head?_cons, Option.any_some, List.tail_cons, Bool.and_eq_true,
      List.all_eq_true, decide_eq_true_eq] at entry
    exact ⟨first, others, rfl, entry.1.1, entry.1.2, entry.2⟩

/-- The characters of a class in front of a text that does not go on with them are taken. -/
theorem takeWhile_run (run : ∀ c ∈ others, p c = true)
    (stops : ∀ d, more.head? = some d → p d = false) :
    (others ++ more).takeWhile p = others ∧ (others ++ more).dropWhile p = more := by
  -- The run is taken as a whole, and what comes first behind it is left where it is.
  rw [List.takeWhile_append_of_pos run, List.dropWhile_append_of_pos run]
  cases more with
  | nil => simp
  | cons d more => simp [stops d rfl]

/-- A word is cut off where it ends. -/
theorem firstLexeme?_word (starts : isWordStart c = true)
    (parts : ∀ d ∈ others, isWordPart d = true) (ends : Ends (c :: others) more) :
    firstLexeme? c (others ++ more) = some (.ofWord (c :: others), c :: others, more) := by
  -- A word goes on with the characters of words, so the next character is none.
  have stops : ∀ d, more.head? = some d → isWordPart d = false := by
    intro d follows
    simpa [continues, starts] using ends d follows
  obtain ⟨taken, left⟩ := takeWhile_run parts stops
  unfold firstLexeme?
  rw [if_pos starts, taken, left]

/-- Where the characters that start words stand among all characters. -/
theorem toNat_wordStart (starts : isWordStart c = true) : 65 ≤ c.toNat ∧ c.toNat ≤ 122 := by
  -- There are the letters in two rows, and the underscore between them.
  have letters : c.isAlpha = (decide (c.val ≥ 65 ∧ c.val ≤ 90) ||
      (decide (c.val ≥ 97) && decide (c.val ≤ 122))) := rfl
  simp only [isWordStart, letters, Bool.or_eq_true, Bool.and_eq_true, decide_eq_true_eq,
    beq_iff_eq] at starts
  rcases starts with (upper | lower) | rfl
  · have range : 65 ≤ c.toNat ∧ c.toNat ≤ 90 := upper
    omega
  · have range : 97 ≤ c.toNat ∧ c.toNat ≤ 122 := lower
    omega
  · decide

/-- Where the characters of words stand among all characters. -/
theorem toNat_wordPart (part : isWordPart c = true) : 48 ≤ c.toNat ∧ c.toNat ≤ 122 := by
  -- A part of a word is what may start one, or a digit.
  rcases Bool.or_eq_true _ _ |>.mp part with starts | digit
  · have range := toNat_wordStart starts
    omega
  · have range := Char.isDigit_iff_toNat.mp digit
    have first : '0'.toNat = 48 := rfl
    have last : '9'.toNat = 57 := rfl
    omega

/-- No digit starts a word. -/
theorem isWordStart_digit (digit : c.isDigit = true) : isWordStart c = false := by
  -- The digits come before all letters.
  have range := Char.isDigit_iff_toNat.mp digit
  have last : '9'.toNat = 57 := rfl
  cases starts : isWordStart c with
  | false => rfl
  | true =>
    have letters := toNat_wordStart starts
    omega

/-- A row of digits is cut off where it ends. -/
theorem firstLexeme?_digits (digit : c.isDigit = true) (digits : ∀ d ∈ others, d.isDigit = true)
    (ends : Ends (c :: others) more) :
    firstLexeme? c (others ++ more) = some (.number, c :: others, more) := by
  -- A digit starts no word, so the rules for words are not tried.
  have letter := isWordStart_digit digit
  have stops : ∀ d, more.head? = some d → d.isDigit = false := by
    intro d follows
    simpa [continues, letter, digit] using ends d follows
  obtain ⟨taken, left⟩ := takeWhile_run digits stops
  unfold firstLexeme?
  rw [if_neg (by simp [letter]), if_pos digit, taken, left]

/-- The signs of symbols neither start a word nor are they digits. -/
theorem sign_symbol (known : (text, kind) ∈ Kind.symbols) (member : c ∈ text) :
    isWordStart c = false ∧ c.isDigit = false := by
  -- The table is short enough to be searched through.
  have table : (Kind.symbols.all fun entry =>
      entry.1.all fun c => !isWordStart c && !c.isDigit) = true := by decide
  have entry := List.all_eq_true.mp table _ known
  simpa using List.all_eq_true.mp entry c member

/-- A symbol is cut off where it ends. -/
theorem firstLexeme?_symbol (known : (c :: others, kind) ∈ Kind.symbols)
    (ends : Ends (c :: others) more) :
    firstLexeme? c (others ++ more) = some (kind, c :: others, more) := by
  obtain ⟨letter, digit⟩ := sign_symbol known (.head _)
  have found : Kind.ofSymbol? (c :: others) = some kind := ofSymbol?_entry _ known
  unfold firstLexeme?
  rw [if_neg (by simp [letter]), if_neg (by simp [digit])]
  match others, more with
  | [], [] => simp [found]
  | [], d :: more =>
    -- With the next sign it would be a longer symbol, which would continue it.
    have alone : Kind.ofSymbol? [c, d] = none := by
      simpa [continues, letter, digit] using ends d rfl
    simp [alone, found]
  | [d], more => simp [found]
  | _ :: _ :: _, _ =>
    have short := (length_symbol _ known).2
    simp at short

/-- A lexeme is cut off where it ends. -/
theorem firstLexeme?_lexeme (lexeme : Lexeme kind text) (ends : Ends text more)
    (split : c :: rest = text ++ more) : firstLexeme? c rest = some (kind, text, more) := by
  -- Each kind of lexeme is cut off by the rule for it, and no rule before that one applies.
  cases lexeme with
  | keyword known =>
    obtain ⟨first, others, rfl, starts, parts, rfl⟩ := word_keyword known
    obtain ⟨rfl, rfl⟩ := List.cons.inj split
    exact firstLexeme?_word starts parts ends
  | @name first others starts parts other =>
    obtain ⟨rfl, rfl⟩ := List.cons.inj split
    have cut := firstLexeme?_word starts parts ends
    rwa [ofWord_name other] at cut
  | number digit digits =>
    obtain ⟨rfl, rfl⟩ := List.cons.inj split
    exact firstLexeme?_digits digit digits ends
  | symbol known =>
    cases text with
    | nil =>
      have long := (length_symbol _ known).1
      simp at long
    | cons first others =>
      obtain ⟨rfl, rfl⟩ := List.cons.inj split
      exact firstLexeme?_symbol known ends

/-- What is cut off in front of a text is a lexeme, and it ends there. -/
theorem lexeme_firstLexeme? (found : firstLexeme? c rest = some (kind, text, more)) :
    Lexeme kind text ∧ Ends text more ∧ c :: rest = text ++ more := by
  -- The rules in their order: words, numbers, symbols of two signs, symbols of one.
  unfold firstLexeme? at found
  split at found
  · -- A word, taken as far as it goes.
    rename_i starts
    cases found
    refine ⟨lexeme_word starts fun d inside => List.mem_takeWhile_imp inside, ?_, by simp⟩
    intro d follows
    simpa [continues, starts] using head?_dropWhile follows
  rename_i letter
  split at found
  · -- A number, in front of which no letter stands.
    rename_i digit
    cases found
    refine ⟨.number digit fun d inside => List.mem_takeWhile_imp inside, ?_, by simp⟩
    intro d follows
    simpa [continues, letter, digit] using head?_dropWhile follows
  rename_i digit
  split at found
  · -- At the end of the text there is no second sign.
    simp only [Option.map_eq_some_iff] at found
    obtain ⟨_, single, same⟩ := found
    cases same
    exact ⟨.symbol (mem_symbols single), by simp [Ends], rfl⟩
  · rename_i d rest
    split at found
    · -- The longer symbol is taken where there is one, and nothing continues it.
      rename_i pair
      cases found
      refine ⟨.symbol (mem_symbols pair), ?_, rfl⟩
      intro d follows
      simp [continues, letter, digit]
    · -- A single sign ends where the second one makes no symbol with it.
      rename_i alone
      simp only [Option.map_eq_some_iff] at found
      obtain ⟨_, single, same⟩ := found
      cases same
      refine ⟨.symbol (mem_symbols single), ?_, rfl⟩
      intro e follows
      obtain rfl : d = e := by simpa using follows
      simp [continues, letter, digit, alone]

/-- Where nothing follows yet, a character that does not continue the lexeme may come. -/
theorem Ends.append (ends : Ends text more) (stops : continues text d = false)
    (others : List Char) : Ends text (more ++ d :: others) := by
  -- If nothing followed so far, the new character is the first to follow.
  intro e follows
  cases more with
  | nil =>
    obtain rfl : d = e := by simpa using follows
    exact stops
  | cons first more => exact ends e (by simpa using follows)

/-- A lexeme ends as well if less follows. -/
theorem Ends.cut (ends : Ends text (more ++ others)) : Ends text more := by
  -- What follows first is the same as long as anything does.
  intro d follows
  cases more with
  | nil => simp at follows
  | cons first more => exact ends d (by simpa using follows)

/-- A lexeme is cut off as well if more follows that does not continue it. -/
theorem firstLexeme?_append (found : firstLexeme? c rest = some (kind, text, more))
    (stops : continues text d = false) (others : List Char) :
    firstLexeme? c (rest ++ d :: others) = some (kind, text, more ++ d :: others) := by
  -- The lexeme and its end are known, and the end stays one with more behind it.
  obtain ⟨lexeme, ends, split⟩ := lexeme_firstLexeme? found
  refine firstLexeme?_lexeme lexeme (ends.append stops others) ?_
  rw [← List.cons_append, split, List.append_assoc]

/-- A lexeme is a word or a number throughout, or a symbol. -/
theorem Lexeme.parts_or_symbol (lexeme : Lexeme kind text) :
    (∀ c ∈ text, isWordPart c = true) ∨ (text, kind) ∈ Kind.symbols := by
  -- The characters of keywords, names and numbers are all parts of words.
  cases lexeme with
  | keyword known =>
    obtain ⟨first, others, rfl, starts, parts, _⟩ := word_keyword known
    exact .inl (List.forall_mem_cons.mpr ⟨by simp [isWordPart, starts], parts⟩)
  | symbol known => exact .inr known
  | name starts parts other =>
    exact .inl (List.forall_mem_cons.mpr ⟨by simp [isWordPart, starts], parts⟩)
  | number digit digits =>
    refine .inl (List.forall_mem_cons.mpr ⟨by simp [isWordPart, digit], ?_⟩)
    intro c member
    simp [isWordPart, digits c member]

/-- A lexeme has a first character. -/
theorem Lexeme.exists_cons (lexeme : Lexeme kind text) : ∃ c rest, text = c :: rest := by
  -- Words and numbers are given with their first character, and no symbol is empty.
  cases lexeme with
  | keyword known =>
    obtain ⟨first, others, split, _⟩ := word_keyword known
    exact ⟨first, others, split⟩
  | symbol known =>
    exact List.exists_cons_of_length_pos (length_symbol _ known).1
  | name => exact ⟨_, _, rfl⟩
  | number => exact ⟨_, _, rfl⟩

/-- There are no blanks in a lexeme. -/
theorem Lexeme.not_blank (lexeme : Lexeme kind text) (member : c ∈ text) :
    c ∉ [' ', '\t', '\r', '\n'] := by
  -- Blanks are no parts of words, and the table of symbols has none.
  have parts : ([' ', '\t', '\r', '\n'].all fun c => !isWordPart c) = true := by decide
  have table : (Kind.symbols.all fun entry =>
      entry.1.all fun c => decide (c ∉ [' ', '\t', '\r', '\n'])) = true := by decide
  intro blank
  rcases lexeme.parts_or_symbol with word | known
  · have other := List.all_eq_true.mp parts c blank
    simp [word c member] at other
  · have entry := List.all_eq_true.mp (List.all_eq_true.mp table _ known) c member
    exact of_decide_eq_true entry blank

/-- A lexeme with a slash in it is nothing but the slash. -/
theorem Lexeme.eq_slash (lexeme : Lexeme kind text) (member : '/' ∈ text) : text = ['/'] := by
  -- No word has a slash in it, and in the table only the division sign does.
  have table : (Kind.symbols.all fun entry =>
      decide ('/' ∉ entry.1) || decide (entry.1 = ['/'])) = true := by decide
  rcases lexeme.parts_or_symbol with word | known
  · exact absurd (word _ member) (by decide)
  · have entry := List.all_eq_true.mp table _ known
    simpa [member] using entry

/-- All symbols of two signs have the same second one. -/
theorem second_sign (found : Kind.ofSymbol? [c, d] = some kind) : d = '=' := by
  -- In the table only an equals sign is ever second.
  have table : (Kind.symbols.all fun entry => entry.1.tail.all (· == '=')) = true := by decide
  simpa using List.all_eq_true.mp table _ (mem_symbols found)

/-- Nothing is continued by a character that is no part of a word and no second sign. -/
theorem continues_other (part : isWordPart d = false) (sign : d ≠ '=') (text : List Char) :
    continues text d = false := by
  -- Words go on with parts of words, numbers with digits, and a sign with a second one only.
  cases text with
  | nil => rfl
  | cons c others =>
    have digit : d.isDigit = false := (Bool.or_eq_false_iff.mp part).2
    have single : Kind.ofSymbol? [c, d] = none := by
      cases found : Kind.ofSymbol? [c, d] with
      | none => rfl
      | some kind => exact absurd (second_sign found) sign
    simp [continues, part, digit, single]

/-- The longest token at an offset is a lexeme of its kind. -/
theorem Longest.isLexeme {source : List Char} {t : Token} {start : Nat}
    (longest : Longest source t start) : Lexeme t.kind t.lexeme.toList := by
  -- What is longest at an offset is described as a number, a word or a symbol.
  cases longest with
  | number kind nonempty digits before behind =>
    obtain ⟨first, others, spelled⟩ := List.exists_cons_of_ne_nil nonempty
    rw [spelled, List.forall_mem_cons] at digits
    rw [kind, spelled]
    exact .number digits.1 digits.2
  | word spelled starts parts behind kind =>
    rcases kind with keyword | ⟨name, other⟩
    · exact .keyword keyword
    · rw [spelled] at other
      rw [name, spelled]
      exact .name starts parts other
  | symbol known longest slash => exact .symbol known

/-- A lexeme is put in front of the tokens behind it. -/
theorem scanFrom_lexeme (inline : c ≠ '\n') (plain : isGap c = false)
    (code : startsComment c rest = false) (found : firstLexeme? c rest = some (kind, text, more)) :
    scanFrom here (c :: rest) =
      (scanFrom (here.right text.length) more).map (⟨kind, String.ofList text, here⟩ :: ·) := by
  -- Neither a break nor a gap nor a comment comes first, so a lexeme is looked for.
  rw [scanFrom, if_neg inline, if_neg (by simp [plain]), if_neg (by simp [code])]
  split
  · rename_i stray
    cases stray.symm.trans found
  · rename_i kind' text' more' found'
    cases found'.symm.trans found
    cases scanFrom (here.right text.length) more <;> rfl

/-- A character other than a slash behind a text starts no comment there. -/
theorem startsComment_append (other : d ≠ '/') (c : Char) (rest others : List Char) :
    startsComment c (rest ++ d :: others) = startsComment c rest := by
  -- Only the character right behind decides, and it changes only where there was none.
  cases rest with
  | nil => simp [startsComment, other]
  | cons e rest => rfl

/-- The text up to the first break, and the text from there on. -/
theorem takeWhile_line {body : List Char} (inside : '\n' ∉ body) (more : List Char) :
    (body ++ '\n' :: more).takeWhile (· != '\n') = body ∧
      (body ++ '\n' :: more).dropWhile (· != '\n') = '\n' :: more := by
  -- No character of the line is a break, and the break itself ends it.
  apply takeWhile_run
  · intro c member
    have other : c ≠ '\n' := fun breaks => inside (breaks ▸ member)
    simpa using other
  · rintro d ⟨⟩
    rfl

/-- A comment is passed over up to the break that ends it, and the break is passed as well. -/
theorem scanFrom_comment {body : List Char}
    (comment : startsComment c (body ++ '\n' :: more) = true) (inside : '\n' ∉ body) :
    scanFrom here (c :: (body ++ '\n' :: more)) =
      scanFrom (here.right (body.length + 1)).nextLine more := by
  -- A comment starts with a slash, so the rules for breaks and gaps are not tried.
  obtain rfl : c = '/' := by
    simp only [startsComment, Bool.and_eq_true, beq_iff_eq] at comment
    exact comment.1
  obtain ⟨taken, left⟩ := takeWhile_line inside more
  rw [scanFrom, if_neg (by decide), if_neg (by decide), if_pos comment]
  simp only [taken, left]
  rw [scanFrom, if_pos rfl]

end BlockCode.Token
