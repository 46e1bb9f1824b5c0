import Mathlib.Data.List.TakeWhile
import BlockCode.Proofs.Attempt
import BlockCode.Proofs.Token.Offset
import BlockCode.Token.Scan

/-! The tokens of a source text cover it: each of them is the longest at its place, and there is
nothing but blanks and comments between them. -/

namespace BlockCode.Token

/-- The text between two offsets holds no token: there are blanks, and comments that run up to a
line break or to the end of the source. -/
inductive Gap (source : List Char) : Nat → Nat → Prop where
  | none (offset : Nat) : Gap source offset offset
  | blank {offset stop : Nat} {c : Char} (there : source[offset]? = some c)
      (blank : c ∈ [' ', '\t', '\r', '\n']) (further : Gap source (offset + 1) stop) :
      Gap source offset stop
  | comment {offset stop : Nat} {body rest : List Char}
      (there : source.drop offset = '/' :: '/' :: body ++ rest) (inside : '\n' ∉ body)
      (ends : ∀ c, rest.head? = some c → c = '\n')
      (further : Gap source (offset + body.length + 2) stop) : Gap source offset stop

/-- A token stands at an offset: its position leads there, and its lexeme is what the source goes on
with. -/
structure StandsAt (source : List Char) (t : Token) (start : Nat) : Prop where
  located : t.position.offset? source = some start
  spelled : t.lexeme.toList <+: source.drop start

/-- A token is the longest one at its offset: a run of digits or of the characters of words that
cannot be made longer, or the longest symbol that the text there begins with. -/
inductive Longest (source : List Char) (t : Token) (start : Nat) : Prop where
  | number (kind : t.kind = .number) (nonempty : t.lexeme.toList ≠ [])
      (digits : ∀ c ∈ t.lexeme.toList, c.isDigit = true)
      (before : ∀ i c, i + 1 = start → source[i]? = some c → c.isDigit = false)
      (behind : ∀ c, source[start + t.lexeme.toList.length]? = some c → c.isDigit = false)
  | word {first : Char} {others : List Char} (spelled : t.lexeme.toList = first :: others)
      (starts : isWordStart first = true) (parts : ∀ c ∈ others, isWordPart c = true)
      (behind : ∀ c, source[start + t.lexeme.toList.length]? = some c → isWordPart c = false)
      (kind : (t.lexeme.toList, t.kind) ∈ Kind.keywords ∨
        t.kind = .name ∧ t.lexeme.toList ∉ Kind.keywords.map (·.1))
  | symbol (known : (t.lexeme.toList, t.kind) ∈ Kind.symbols)
      (longest : ∀ entry ∈ Kind.symbols, entry.1 <+: source.drop start →
        entry.1.length ≤ t.lexeme.toList.length)
      (slash : t.kind = .slash → source[start + 1]? ≠ some '/')

/-- Tokens cover a source from an offset on: gaps and tokens by turns, and the end mark behind the
last character. -/
inductive Cover (source : List Char) : Nat → List Token → Prop where
  | finish {offset : Nat} {t : Token} (gap : Gap source offset source.length)
      (kind : t.kind = .finish) (lexeme : t.lexeme = "")
      (located : t.position.offset? source = some source.length) : Cover source offset [t]
  | token {offset start : Nat} {t : Token} {tokens : List Token} (gap : Gap source offset start)
      (stands : StandsAt source t start) (longest : Longest source t start)
      (others : Cover source (start + t.lexeme.toList.length) tokens) :
      Cover source offset (t :: tokens)

variable {source before rest text more : List Char} {c : Char} {kind : Kind} {here : Position}
variable {tokens : List Token}

/-- The character behind a text is the first one of what follows. -/
theorem getElem?_behind (before text more : List Char) :
    (before ++ (text ++ more))[before.length + text.length]? = more.head? := by
  -- The offset is the length of both texts, so it is the first index of what follows them.
  rw [← List.append_assoc, ← List.length_append, List.getElem?_append_right (Nat.le_refl _),
    Nat.sub_self, List.head?_eq_getElem?]

/-- No two digits meet at a place between two parts of a source. -/
def Apart (before rest : List Char) : Prop :=
  ∀ c d, before.getLast? = some c → rest.head? = some d → c.isDigit = true → d.isDigit = false

/-- The characters of a class in front of a text are followed by none of that class. -/
theorem head?_dropWhile {p : Char → Bool} {cs : List Char} {d : Char}
    (follows : (cs.dropWhile p).head? = some d) : p d = false := by
  -- Dropping stopped at this character, so it is not in the class.
  have stops := List.head?_dropWhile_not p cs
  rw [follows] at stops
  simpa using stops

/-- Digits that no digit stands before or behind are a number. -/
theorem longest_number (apart : Apart before (c :: rest)) (digit : c.isDigit = true) :
    Longest (before ++ c :: rest)
      ⟨.number, String.ofList (c :: rest.takeWhile Char.isDigit), here⟩ before.length := by
  have split : c :: rest =
      (c :: rest.takeWhile Char.isDigit) ++ rest.dropWhile Char.isDigit := by simp
  refine .number rfl (by simp) ?_ ?_ ?_
  · intro d member
    rw [String.toList_ofList, List.mem_cons] at member
    rcases member with rfl | inside
    · exact digit
    · exact List.mem_takeWhile_imp inside
  · -- The run begins with a digit, so the character before it is none.
    intro i d last there
    have same : before.getLast? = some d := by
      rw [List.getLast?_eq_getElem?, ← last, Nat.add_sub_cancel]
      rwa [List.getElem?_append_left (by omega)] at there
    cases other : d.isDigit with
    | false => rfl
    | true => exact absurd (apart d c same rfl other) (by simp [digit])
  · intro d there
    rw [String.toList_ofList, split, getElem?_behind] at there
    exact head?_dropWhile there

/-- The kind of a word is a keyword if the whole word is one, and a name otherwise. -/
theorem ofWord_cases (word : List Char) : (word, Kind.ofWord word) ∈ Kind.keywords ∨
    Kind.ofWord word = .name ∧ word ∉ Kind.keywords.map (·.1) := by
  -- The table is searched for the whole word.
  unfold Kind.ofWord
  cases found : Kind.keywords.lookup word with
  | some kind =>
    obtain ⟨front, back, split, _⟩ := List.lookup_eq_some_iff.mp found
    exact .inl (by simp [split])
  | none =>
    refine .inr ⟨rfl, ?_⟩
    intro member
    obtain ⟨entry, inside, rfl⟩ := List.mem_map.mp member
    have absent := List.lookup_eq_none_iff.mp found entry inside
    simp at absent

/-- The characters of a word that are followed by no further one are a name or a keyword. -/
theorem longest_word (starts : isWordStart c = true) :
    Longest (before ++ c :: rest)
      ⟨.ofWord (c :: rest.takeWhile isWordPart), String.ofList (c :: rest.takeWhile isWordPart),
        here⟩ before.length := by
  -- The word is split off from the text behind it, so that both can be read off.
  have split : c :: rest = (c :: rest.takeWhile isWordPart) ++ rest.dropWhile isWordPart := by simp
  refine .word (String.toList_ofList) starts (fun d member => List.mem_takeWhile_imp member) ?_ ?_
  · intro d there
    rw [String.toList_ofList, split, getElem?_behind] at there
    exact head?_dropWhile there
  · rw [String.toList_ofList]
    exact ofWord_cases _

/-- A text that is found among the symbols is one of them. -/
theorem mem_symbols (found : Kind.ofSymbol? text = some kind) : (text, kind) ∈ Kind.symbols := by
  -- Looking a text up leads to an entry with the text and the kind.
  obtain ⟨front, back, split, _⟩ := List.lookup_eq_some_iff.mp found
  simp [split]

/-- Every symbol is found. -/
theorem ofSymbol?_entry : ∀ entry ∈ Kind.symbols, Kind.ofSymbol? entry.1 = some entry.2 := by
  decide

/-- A symbol has one sign or two. -/
theorem length_symbol : ∀ entry ∈ Kind.symbols, 1 ≤ entry.1.length ∧ entry.1.length ≤ 2 := by
  decide

/-- The signs of symbols are neither digits nor line breaks. -/
theorem signs_symbol (known : (text, kind) ∈ Kind.symbols) {d : Char} (member : d ∈ text) :
    d.isDigit = false ∧ d ≠ '\n' := by
  -- The table is gone through once.
  have table : (Kind.symbols.all fun entry =>
      entry.1.all fun d => !d.isDigit && d != '\n') = true := by decide
  have entry := List.all_eq_true.mp table _ known
  simpa using List.all_eq_true.mp entry d member

/-- Only a slash has the kind of a slash. -/
theorem eq_slash : ∀ entry ∈ Kind.symbols, entry.2 = .slash → entry.1 = ['/'] := by
  decide

/-- Two signs that are a symbol are the longest one. -/
theorem longest_pair {d : Char} (found : Kind.ofSymbol? [c, d] = some kind) :
    Longest (before ++ c :: d :: more) ⟨kind, String.ofList [c, d], here⟩ before.length := by
  -- No symbol has more than two signs, and one with a slash has a single sign.
  have known := mem_symbols found
  refine .symbol (by rwa [String.toList_ofList]) ?_ ?_
  · intro entry member _
    rw [String.toList_ofList]
    exact (length_symbol entry member).2
  · intro slash
    have single := eq_slash _ known slash
    simp at single

/-- A sign that is a symbol alone, and not with the one behind it, is the longest one. -/
theorem longest_single (found : Kind.ofSymbol? [c] = some kind)
    (alone : ∀ d more, rest = d :: more → Kind.ofSymbol? [c, d] = none)
    (comment : startsComment c rest = false) :
    Longest (before ++ c :: rest) ⟨kind, String.ofList [c], here⟩ before.length := by
  have known := mem_symbols found
  refine .symbol (by rwa [String.toList_ofList]) ?_ ?_
  · -- A longer symbol would begin with the sign and the one behind it.
    rintro ⟨signs, other⟩ member longer
    rw [List.drop_left] at longer
    obtain ⟨_, short⟩ := length_symbol _ member
    match signs, rest with
    | [], _ | [_], _ => simp
    | [a, b], [] => simp at longer
    | [a, b], d :: more =>
      obtain ⟨rfl, rfl, -⟩ : a = c ∧ b = d ∧ True := by simpa using longer
      have pair := ofSymbol?_entry _ member
      rw [alone _ _ rfl] at pair
      cases pair
    | _ :: _ :: _ :: _, _ => simp at short
  · -- A second slash would have started a comment.
    intro slash second
    have single : [c] = ['/'] := eq_slash _ known slash
    have behind := getElem?_behind before [c] rest
    rw [List.singleton_append, List.length_singleton, second] at behind
    simp [startsComment, ← behind, List.cons.inj single] at comment

/-- What can be cut off in front of a text, and what is left of the text behind it. -/
structure CutOff (before : List Char) (c : Char) (rest : List Char) (kind : Kind)
    (text more : List Char) : Prop where
  split : c :: rest = text ++ more
  inline : '\n' ∉ text
  apart : Apart (before ++ text) more
  longest : ∀ here,
    Longest (before ++ c :: rest) ⟨kind, String.ofList text, here⟩ before.length

/-- A word is cut off. -/
theorem cutOff_word (starts : isWordStart c = true) :
    CutOff before c rest (.ofWord (c :: rest.takeWhile isWordPart))
      (c :: rest.takeWhile isWordPart) (rest.dropWhile isWordPart) := by
  refine ⟨by simp, ?_, ?_, fun _ => longest_word starts⟩
  · intro member
    rcases List.mem_cons.mp member with rfl | inside
    · exact absurd starts (by decide)
    · exact absurd (List.mem_takeWhile_imp inside) (by decide)
  · -- Digits are among the characters that continue a word.
    intro a d _ follows _
    have stops := head?_dropWhile follows
    simp only [isWordPart, Bool.or_eq_false_iff] at stops
    exact stops.2

/-- A number is cut off. -/
theorem cutOff_number (apart : Apart before (c :: rest)) (digit : c.isDigit = true) :
    CutOff before c rest .number (c :: rest.takeWhile Char.isDigit)
      (rest.dropWhile Char.isDigit) := by
  -- No digit is a slash, and the digits were taken up to the first character that is none.
  refine ⟨by simp, ?_, fun a d _ follows _ => head?_dropWhile follows,
    fun _ => longest_number apart digit⟩
  intro member
  rcases List.mem_cons.mp member with rfl | inside
  · exact absurd digit (by decide)
  · exact absurd (List.mem_takeWhile_imp inside) (by decide)

/-- A symbol is cut off if it is the longest one. -/
theorem cutOff_symbol (found : Kind.ofSymbol? text = some kind) (split : c :: rest = text ++ more)
    (longest : ∀ here,
      Longest (before ++ c :: rest) ⟨kind, String.ofList text, here⟩ before.length) :
    CutOff before c rest kind text more := by
  have known := mem_symbols found
  refine ⟨split, fun member => (signs_symbol known member).2 rfl, ?_, longest⟩
  -- The last sign of a symbol is no digit.
  intro a d last _ digit
  have nonempty : text ≠ [] := by
    rintro rfl
    have signs := (length_symbol _ known).1
    simp at signs
  have signs : a ∈ text := by
    rw [List.getLast?_append, List.getLast?_eq_some_getLast nonempty, Option.some_or] at last
    exact List.mem_of_getLast? (by rw [List.getLast?_eq_some_getLast nonempty, last])
  simp [(signs_symbol known signs).1] at digit

/-- The first lexeme of a text is cut off. -/
theorem cutOff_firstLexeme? (found : firstLexeme? c rest = some (kind, text, more))
    (comment : startsComment c rest = false) (apart : Apart before (c :: rest)) :
    CutOff before c rest kind text more := by
  unfold firstLexeme? at found
  split at found
  · rename_i starts
    cases found
    exact cutOff_word starts
  split at found
  · rename_i digit
    cases found
    exact cutOff_number apart digit
  split at found
  · -- Nothing follows that could make the symbol longer.
    simp only [Option.map_eq_some_iff] at found
    obtain ⟨_, single, same⟩ := found
    cases same
    exact cutOff_symbol single rfl fun _ => longest_single single (by simp) comment
  · rename_i d rest
    split at found
    · rename_i pair
      cases found
      exact cutOff_symbol pair rfl fun _ => longest_pair pair
    · rename_i alone
      simp only [Option.map_eq_some_iff] at found
      obtain ⟨_, single, same⟩ := found
      cases same
      refine cutOff_symbol single rfl fun _ => longest_single single ?_ comment
      intro e others same
      cases same
      exact alone

/-- What has no token in front may have more such text before it. -/
theorem Cover.widen {offset later : Nat} (cover : Cover source later tokens)
    (gap : ∀ stop, Gap source later stop → Gap source offset stop) :
    Cover source offset tokens := by
  -- Only the gap in front of the first token reaches further back.
  cases cover with
  | finish own kind lexeme located => exact .finish (gap _ own) kind lexeme located
  | token own stands longest others => exact .token (gap _ own) stands longest others

/-- A blank stands in front of what covers the rest. -/
theorem Cover.blank (cover : Cover (before ++ c :: rest) (before ++ [c]).length tokens)
    (blank : c ∈ [' ', '\t', '\r', '\n']) :
    Cover (before ++ c :: rest) before.length tokens := by
  -- The blank makes the gap longer by one character.
  refine cover.widen fun stop further => .blank ?_ blank (by simpa using further)
  simp

/-- A comment stands in front of what covers the rest. -/
theorem Cover.comment
    (cover : Cover (before ++ c :: rest) (before ++ c :: rest.takeWhile (· != '\n')).length tokens)
    (comment : startsComment c rest = true) :
    Cover (before ++ c :: rest) before.length tokens := by
  -- The second slash is the first character of what is passed over.
  simp only [startsComment, Bool.and_eq_true, beq_iff_eq] at comment
  obtain ⟨rfl, second⟩ := comment
  obtain ⟨more, rfl⟩ : ∃ more, rest = '/' :: more := List.head?_eq_some_iff.mp second
  refine cover.widen fun stop further => ?_
  refine @Gap.comment _ _ _ (more.takeWhile (· != '\n')) (more.dropWhile (· != '\n')) ?_ ?_ ?_ ?_
  · rw [List.drop_left, List.cons_append, List.cons_append, List.takeWhile_append_dropWhile]
  · intro member
    exact absurd (List.mem_takeWhile_imp member) (by decide)
  · intro d follows
    simpa using head?_dropWhile follows
  · simpa [Nat.add_assoc] using further

/-- Behind a character that is no digit, anything may come. -/
theorem apart_snoc (other : c.isDigit = false) : Apart (before ++ [c]) rest := by
  -- The last character in front is this one, and a number could only go on behind a digit.
  intro a d last _ digit
  obtain rfl : c = a := by simpa using last
  simp [other] at digit

/-- A break or nothing stands behind a comment. -/
theorem apart_comment (before cs : List Char) : Apart before (cs.dropWhile (· != '\n')) := by
  -- A comment is dropped up to a break, so what follows first is a break.
  intro a d _ follows _
  obtain rfl : d = '\n' := by simpa using head?_dropWhile follows
  rfl

/-- A comment ends before the next break. -/
theorem inline_comment (breaks : c ≠ '\n') (rest : List Char) :
    '\n' ∉ c :: rest.takeWhile (· != '\n') := by
  -- The first character is known to be none, and the others were taken up to a break.
  intro member
  rcases List.mem_cons.mp member with same | inside
  · exact breaks same.symm
  · exact absurd (List.mem_takeWhile_imp inside) (by decide)

/-- What is scanned from a place on covers the source from there. -/
theorem cover_scanFrom (scanned : scanFrom here rest = .ok tokens)
    (reached : here.Reached before) (apart : Apart before rest) :
    Cover (before ++ rest) before.length tokens := by
  fun_induction scanFrom here rest generalizing before tokens with
  | case1 here =>
    -- Nothing is left, so the mark stands at the end of the source.
    cases scanned
    have located := reached.offset?_eq []
    rw [List.append_nil] at located ⊢
    exact .finish (.none _) rfl rfl located
  | case2 here rest ih =>
    have further := ih scanned reached.nextLine (apart_snoc (by decide))
    rw [List.append_assoc, List.singleton_append] at further
    exact further.blank (by decide)
  | case3 here c rest breaks gap ih =>
    -- The blanks that stay on their line are three.
    have blank : c = ' ' ∨ c = '\t' ∨ c = '\r' := by simpa [isGap, or_assoc] using gap
    have other : c.isDigit = false := by rcases blank with rfl | rfl | rfl <;> decide
    have inline : '\n' ∉ [c] := by simpa [eq_comm] using breaks
    have moved := reached.right inline
    have further := ih scanned moved (apart_snoc other)
    rw [List.append_assoc, List.singleton_append] at further
    refine further.blank ?_
    rcases blank with rfl | rfl | rfl <;> decide
  | case4 here c rest breaks gap comment text =>
    rename_i ih
    have further := ih scanned (reached.right (inline_comment breaks rest)) (apart_comment _ _)
    rw [List.append_assoc, List.cons_append, List.takeWhile_append_dropWhile] at further
    exact further.comment comment
  | case5 here c rest breaks gap comment stray => cases scanned
  | case6 here c rest breaks gap comment kind text more found ih =>
    obtain ⟨others, further, same⟩ := bind_eq_ok.mp scanned
    cases same
    -- The lexeme is cut off, and the others cover what is left behind it.
    have cut := cutOff_firstLexeme? found (by simpa using comment) apart
    have covered := ih further (reached.right cut.inline) cut.apart
    rw [List.append_assoc, ← cut.split] at covered
    refine .token (.none _) ⟨reached.offset?_eq _, ?_⟩ (cut.longest here) ?_
    · rw [List.drop_left, String.toList_ofList, cut.split]
      exact List.prefix_append _ _
    · simpa using covered

/-- The tokens of a source cover it from its start. -/
theorem cover_scan {source : String} (scanned : scan source = .ok tokens) :
    Cover source.toList 0 tokens := by
  -- Nothing stands in front of the start, so nothing can go on there.
  have apart : Apart [] source.toList := by simp [Apart]
  exact cover_scanFrom scanned .start apart

/-- What scanning a source comes to: tokens with positions that are reached by going through the
text before them, or a stray character with such a position. -/
inductive Marked (source : List Char) : Except Rejection (List Token) → Prop where
  | tokens {tokens : List Token} (each : ∀ t ∈ tokens, ∃ before rest,
      source = before ++ rest ∧ t.position.Reached before) : Marked source (.ok tokens)
  | stray {before rest : List Char} {c : Char} {place : Position}
      (split : source = before ++ c :: rest) (reached : place.Reached before) :
      Marked source (.error ⟨.stray (String.singleton c), some place⟩)

/-- Scanning marks what it meets with its place. -/
theorem marked_scanFrom (reached : here.Reached before) :
    Marked (before ++ rest) (scanFrom here rest) := by
  -- The place is moved along with the text that is passed.
  fun_induction scanFrom here rest generalizing before with
  | case1 here =>
    refine .tokens fun t member => ⟨before, [], rfl, ?_⟩
    rw [List.mem_singleton.mp member]
    exact reached
  | case2 here rest ih =>
    have further := ih reached.nextLine
    rwa [List.append_assoc, List.singleton_append] at further
  | case3 here c rest breaks gap ih =>
    have inline : '\n' ∉ [c] := by simpa [eq_comm] using breaks
    have moved := reached.right inline
    have further := ih moved
    rwa [List.append_assoc, List.singleton_append] at further
  | case4 here c rest breaks gap comment text =>
    rename_i ih
    have further := ih (reached.right (inline_comment breaks rest))
    rwa [List.append_assoc, List.cons_append, List.takeWhile_append_dropWhile] at further
  | case5 here c rest breaks gap comment stray => exact .stray rfl reached
  | case6 here c rest breaks gap comment kind text more found ih =>
    have cut : CutOff [] c rest kind text more :=
      cutOff_firstLexeme? found (by simpa using comment) (by simp [Apart])
    have further := ih (reached.right cut.inline)
    rw [List.append_assoc, ← cut.split] at further
    -- A stray character behind the lexeme ends the scan, and other tokens follow the lexeme.
    generalize scanFrom (here.right text.length) more = outcome at further ⊢
    cases further with
    | stray split reached' => exact .stray split reached'
    | tokens each =>
      exact .tokens (List.forall_mem_cons.mpr ⟨⟨before, c :: rest, rfl, reached⟩, each⟩)

/-- Scanning a source marks what it meets with its place. -/
theorem marked_scan (source : String) : Marked source.toList (scan source) :=
  marked_scanFrom .start

/-- A token stands at one offset. -/
theorem StandsAt.unique {t : Token} {i j : Nat} (stands : StandsAt source t i)
    (stands' : StandsAt source t j) : i = j :=
  Option.some.inj (stands.located.symm.trans stands'.located)

/-- The text between two offsets ends behind its start. -/
theorem Gap.le {offset stop : Nat} (gap : Gap source offset stop) : offset ≤ stop := by
  -- A blank and a comment each lead further on.
  induction gap with
  | none => exact Nat.le_refl _
  | blank _ _ _ ih => omega
  | comment _ _ _ _ ih => omega

/-- The longest token at an offset is not empty. -/
theorem Longest.length_pos {t : Token} {start : Nat} (longest : Longest source t start) :
    0 < t.lexeme.toList.length := by
  -- A number is given as not empty, a word has a first letter, and no symbol is empty.
  cases longest with
  | number _ nonempty _ _ _ => exact List.length_pos_iff.mpr nonempty
  | word spelled _ _ _ _ => simp [spelled]
  | symbol known _ _ => exact (length_symbol _ known).1

/-- The longest token at an offset is not the end mark. -/
theorem Longest.kind_ne {t : Token} {start : Nat} (longest : Longest source t start) :
    t.kind ≠ .finish := by
  -- Neither table has the end mark among its kinds.
  have keywords : ∀ entry ∈ Kind.keywords, entry.2 ≠ .finish := by decide
  have symbols : ∀ entry ∈ Kind.symbols, entry.2 ≠ .finish := by decide
  cases longest with
  | number kind _ _ _ _ => simp [kind]
  | word _ _ _ _ kind =>
    rcases kind with keyword | ⟨name, _⟩
    · exact keywords _ keyword
    · simp [name]
  | symbol known _ _ => exact symbols _ known

namespace Cover

variable {offset : Nat}

/-- Every token of a cover stands at an offset behind its start. -/
theorem stands (cover : Cover source offset tokens) {t : Token} (member : t ∈ tokens) :
    ∃ start, offset ≤ start ∧ StandsAt source t start ∧
      (t.kind ≠ .finish → Longest source t start) := by
  -- The induction goes along the cover; tokens behind the first one start behind its gap.
  induction cover with
  | @finish offset last gap kind lexeme located =>
    obtain rfl := List.mem_singleton.mp member
    refine ⟨_, gap.le, ⟨located, by simp [lexeme]⟩, fun other => absurd kind other⟩
  | @token offset start first tokens gap stands longest others ih =>
    rcases List.mem_cons.mp member with rfl | behind
    · exact ⟨start, gap.le, stands, fun _ => longest⟩
    · obtain ⟨later, above, found⟩ := ih behind
      have passed := gap.le
      exact ⟨later, by omega, found⟩

/-- A cover ends with its only end mark, behind the last character. -/
theorem last (cover : Cover source offset tokens) :
    ∃ front last, tokens = front ++ [last] ∧ last.kind = .finish ∧ last.lexeme = "" ∧
      StandsAt source last source.length ∧ ∀ t ∈ front, t.kind ≠ .finish := by
  -- The end mark is what the cover stops at, and no token in front of it has its kind.
  induction cover with
  | @finish offset last gap kind lexeme located =>
    exact ⟨[], last, rfl, kind, lexeme, ⟨located, by simp [lexeme]⟩, by simp⟩
  | @token offset start first tokens gap stands longest others ih =>
    obtain ⟨front, last, rfl, kind, lexeme, located, words⟩ := ih
    exact ⟨first :: front, last, rfl, kind, lexeme, located,
      List.forall_mem_cons.mpr ⟨longest.kind_ne, words⟩⟩

/-- Each token of a cover ends before all later ones begin. -/
theorem pairwise (cover : Cover source offset tokens) :
    tokens.Pairwise fun t u => ∀ i j, StandsAt source t i → StandsAt source u j →
      i < j ∧ i + t.lexeme.toList.length ≤ j := by
  induction cover with
  | finish => simp
  | @token offset start first tokens gap stands longest others ih =>
    refine .cons ?_ ih
    intro u member i j here there
    obtain rfl := stands.unique here
    -- The later token stands in what is covered behind the first one.
    obtain ⟨later, above, found, _⟩ := others.stands member
    obtain rfl := found.unique there
    have positive := longest.length_pos
    omega

/-- There is no token in front of the first one. -/
theorem gap_first {t : Token} {others : List Token} {i : Nat}
    (cover : Cover source offset (t :: others)) (stands : StandsAt source t i) :
    Gap source offset i := by
  -- A position belongs to one offset only, so the gap that the cover has is the one asked for.
  cases cover with
  | finish gap kind lexeme located =>
    obtain rfl := stands.unique ⟨located, by simp [lexeme]⟩
    exact gap
  | token gap own longest others =>
    obtain rfl := stands.unique own
    exact gap

/-- There is no token between two that follow each other. -/
theorem gap_between {front back : List Token} {t u : Token} {i j : Nat}
    (cover : Cover source offset (front ++ t :: u :: back)) (here : StandsAt source t i)
    (there : StandsAt source u j) : Gap source (i + t.lexeme.toList.length) j := by
  -- What is covered behind the first of the two begins with the second.
  induction front generalizing offset with
  | nil =>
    cases cover with
    | token gap own longest others =>
      obtain rfl := here.unique own
      exact others.gap_first there
  | cons first front ih =>
    rw [List.cons_append] at cover
    generalize others_eq : front ++ t :: u :: back = others at cover
    cases cover with
    | finish gap kind lexeme located => simp at others_eq
    | token gap own longest covered => exact ih (others_eq ▸ covered)

end Cover

/-- The tokens of a source cover it exactly. They end with the only end mark, behind the last
character. Each stands where its position leads and is the longest one there, they follow each other
without meeting, and there is nothing but blanks and comments before and between them. -/
theorem scan_covers {source : String} (scanned : scan source = .ok tokens) :
    (∃ front last, tokens = front ++ [last] ∧ last.kind = .finish ∧ last.lexeme = "" ∧
      StandsAt source.toList last source.toList.length ∧ ∀ t ∈ front, t.kind ≠ .finish) ∧
    (∀ t ∈ tokens, ∃ start, StandsAt source.toList t start ∧
      (t.kind ≠ .finish → Longest source.toList t start)) ∧
    (tokens.Pairwise fun t u => ∀ i j, StandsAt source.toList t i → StandsAt source.toList u j →
      i < j ∧ i + t.lexeme.toList.length ≤ j) ∧
    (∀ t others i, tokens = t :: others → StandsAt source.toList t i →
      Gap source.toList 0 i) ∧
    (∀ front t u back i j, tokens = front ++ t :: u :: back → StandsAt source.toList t i →
      StandsAt source.toList u j → Gap source.toList (i + t.lexeme.toList.length) j) := by
  -- All of it is read off from the cover.
  have cover := cover_scan scanned
  refine ⟨cover.last, ?_, cover.pairwise, ?_, ?_⟩
  · intro t member
    obtain ⟨start, _, found⟩ := cover.stands member
    exact ⟨start, found⟩
  · rintro t others i rfl stands
    exact cover.gap_first stands
  · rintro front t u back i j rfl here there
    exact cover.gap_between here there

/-- A source with a symbol of two signs, a comment that ends its line, and another one that ends the
source. -/
def commentedSource : String := "a1 <=//b\r\n0//"

/-- The symbol stands behind the blank and is not cut in two, and there is a gap with a comment and
the two characters of a line break behind it. -/
theorem scan_covers_commented : ∃ tokens, scan commentedSource = .ok tokens ∧
    tokens.map (·.lexeme) = ["a1", "<=", "0", ""] ∧
    (∃ t ∈ tokens, t.kind = .lessEqual ∧ StandsAt commentedSource.toList t 3 ∧
      Longest commentedSource.toList t 3) ∧
    Gap commentedSource.toList 5 10 ∧ Gap commentedSource.toList 11 13 := by
  have cut : (scan commentedSource).toOption = some [⟨.name, "a1", ⟨1, 1⟩⟩,
      ⟨.lessEqual, "<=", ⟨1, 4⟩⟩, ⟨.number, "0", ⟨2, 1⟩⟩, ⟨.finish, "", ⟨2, 4⟩⟩] := by
    decide +kernel
  cases scanned : scan commentedSource with
  | error rejection => simp [scanned, Except.toOption] at cut
  | ok tokens =>
  obtain rfl : tokens = _ := by simpa [scanned, Except.toOption] using cut
  obtain ⟨_, standing, _, _, between⟩ := scan_covers scanned
  -- The offsets are what the positions lead to.
  have stands (t : Token) (start : Nat)
      (located : t.position.offset? commentedSource.toList = some start)
      (spelled : t.lexeme.toList <+: commentedSource.toList.drop start) :
      StandsAt commentedSource.toList t start := ⟨located, spelled⟩
  have symbol := stands ⟨.lessEqual, "<=", ⟨1, 4⟩⟩ 3 (by decide +kernel) (by decide +kernel)
  have number := stands ⟨.number, "0", ⟨2, 1⟩⟩ 10 (by decide +kernel) (by decide +kernel)
  have mark := stands ⟨.finish, "", ⟨2, 4⟩⟩ 13 (by decide +kernel) (by decide +kernel)
  obtain ⟨start, found, longest⟩ := standing ⟨.lessEqual, "<=", ⟨1, 4⟩⟩ (by simp)
  obtain rfl := found.unique symbol
  refine ⟨_, rfl, rfl, ⟨_, by simp, rfl, symbol, longest (by simp)⟩, ?_, ?_⟩
  · exact between [_] _ _ [_] 3 10 rfl symbol number
  · exact between [_, _] _ _ [] 10 13 rfl number mark

end BlockCode.Token
