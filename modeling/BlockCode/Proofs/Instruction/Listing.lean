import BlockCode.Instruction.Listing
import BlockCode.Proofs.Numeral

/-! The way back from a listing to the code. A line is read word by word, so it does not matter
where the columns are. -/

namespace BlockCode

namespace Text

/-- The word in front of a text, and what follows the blanks behind it. -/
def cutWord (cs : List Char) : List Char × List Char :=
  (cs.takeWhile (· ≠ ' '), (cs.dropWhile (· ≠ ' ')).dropWhile (· = ' '))

variable {cs word gap rest : List Char}

/-- Blanks in front are passed over. -/
theorem dropWhile_gap (blanks : ∀ c ∈ gap, c = ' ') (rest : List Char) :
    (gap ++ rest).dropWhile (· = ' ') = rest.dropWhile (· = ' ') :=
  List.dropWhile_append_of_pos (by simpa using blanks)

/-- Blanks in front of a text that starts with a blank, if with anything. -/
theorem head?_gap (blanks : ∀ c ∈ gap, c = ' ') (starts : ∀ c ∈ rest.head?, c = ' ') :
    ∀ c ∈ (gap ++ rest).head?, c = ' ' := by
  -- Without blanks in front, the text itself has to start with one.
  cases gap with
  | nil => exact starts
  | cons c gap => simpa using blanks c List.mem_cons_self

/-- A word is cut off before the blanks behind it. -/
theorem cutWord_append (plain : ' ' ∉ word) (stops : ∀ c ∈ rest.head?, c = ' ') :
    cutWord (word ++ rest) = (word, rest.dropWhile (· = ' ')) := by
  have inside : ∀ c ∈ word, decide (c ≠ ' ') = true := by
    intro c member
    have other : c ≠ ' ' := fun same => plain (same ▸ member)
    simp [other]
  rw [cutWord, List.takeWhile_append_of_pos inside, List.dropWhile_append_of_pos inside]
  -- What follows the word is nothing or starts with a blank.
  cases rest with
  | nil => simp
  | cons c rest => simp [stops c rfl]

/-- In front of a word there is no blank to pass over. -/
theorem dropWhile_word (plain : ' ' ∉ word) (nonempty : word ≠ []) (rest : List Char) :
    (word ++ rest).dropWhile (· = ' ') = word ++ rest := by
  -- The first character of the word is no blank, so nothing is passed over.
  cases word with
  | nil => exact absurd rfl nonempty
  | cons c word =>
    have other : c ≠ ' ' := fun same => plain (same ▸ List.mem_cons_self)
    simp [other]

/-- Blanks at the end are dropped. -/
theorem dropEnd_blanks (cs : List Char) (k : Nat) :
    dropEnd isBlank (cs ++ List.replicate k ' ') = dropEnd isBlank cs := by
  -- Seen from the end, the blanks come first.
  have blanks : ∀ c ∈ List.replicate k ' ', isBlank c = true := by
    intro c member
    rw [List.eq_of_mem_replicate member]
    rfl
  rw [dropEnd, List.reverse_append, List.reverse_replicate, List.dropWhile_append_of_pos blanks]
  rfl

/-- A text that does not end in a blank stays as it is. -/
theorem dropEnd_solid {c : Char} {tail : List Char} (front : List Char)
    (last : tail.getLast? = some c) (solid : isBlank c = false) :
    dropEnd isBlank (front ++ tail) = front ++ tail := by
  -- Seen from the end, its last character comes first and stops the dropping.
  obtain ⟨inner, rfl⟩ := List.getLast?_eq_some_iff.mp last
  simp [dropEnd, solid]

end Text

namespace Opcode

/-- Every opcode is in the list of all. -/
theorem mem_all (op : Opcode) : op ∈ all := by
  -- The operators are in the list one by one.
  cases op with
  | binary operator => cases operator <;> decide
  | _ => decide

/-- A mnemonic is a word, which its opcode is found by. -/
theorem mnemonic_word (op : Opcode) : ' ' ∉ op.mnemonic.toList ∧
    (∃ c, op.mnemonic.toList.getLast? = some c ∧ Text.isBlank c = false) ∧
    ofMnemonic? op.mnemonic = some op := by
  -- The table is gone through once.
  have table : (all.all fun op => decide (' ' ∉ op.mnemonic.toList) &&
      op.mnemonic.toList.getLast?.any (fun c => !Text.isBlank c) &&
      decide (ofMnemonic? op.mnemonic = some op)) = true := by decide +kernel
  have entry := List.all_eq_true.mp table op (mem_all op)
  simpa [Option.any_eq_true, and_assoc] using entry

end Opcode

namespace Instruction

open Text

/-- Instructions that can be listed without loss: the operand has not too many digits, and the
comment is not empty and does not end in a blank. -/
structure Listable (i : Instruction) : Prop where
  operand : ∀ n ∈ i.operand, Numeral.Short n
  nonempty : ∀ comment ∈ i.comment, comment ≠ ""
  solid : ∀ comment ∈ i.comment, ∀ c ∈ comment.toList.getLast?, isBlank c = false

/-- An instruction without a comment can be listed if its operand can be written. -/
theorem listable_bare {op : Opcode} {operand : Option Int}
    (short : ∀ n ∈ operand, Numeral.Short n) : Listable ⟨op, operand, none⟩ :=
  ⟨short, by simp, by simp⟩

/-- An instruction with a comment can be listed if also the last character of that is no blank. -/
theorem listable_commented {op : Opcode} {operand : Option Int} {comment : String} {c : Char}
    (short : ∀ n ∈ operand, Numeral.Short n) (last : comment.toList.getLast? = some c)
    (solid : isBlank c = false) : Listable ⟨op, operand, some comment⟩ := by
  -- Both conditions on a comment are read off from its last character.
  refine ⟨short, ?_, ?_⟩
  · intro shown same empty
    cases same
    rw [empty] at last
    cases last
  · intro shown same d found
    cases same
    cases last.symm.trans found
    exact solid

/-- A comment that ends with a name ends as the name does. -/
theorem listable_titled {op : Opcode} {operand : Option Int} {title name : String} {c : Char}
    (short : ∀ n ∈ operand, Numeral.Short n) (last : name.toList.getLast? = some c)
    (solid : isBlank c = false) : Listable ⟨op, operand, some (title ++ name)⟩ :=
  listable_commented short (by simp [List.getLast?_append, last]) solid

/-- The comment behind its mark, if there is one. -/
def commentOf? : List Char → Option String
  -- The mark and the blank behind it are not part of the comment.
  | ';' :: ' ' :: text => some (String.ofList text)
  | _ => none

/-- The instruction with an opcode whose operand and comment, if it has them, are spelled by the
rest of a line. -/
def ofFields? (op : Opcode) (rest : List Char) : Option Instruction :=
  -- An opcode may be followed by nothing, or by a comment right away.
  if rest.head? = none ∨ rest.head? = some ';' then some ⟨op, none, commentOf? rest⟩
  else do
    let (digits, rest) := cutWord rest
    let operand ← (Numeral.read (String.ofList digits)).toOption
    return ⟨op, some operand, commentOf? rest⟩

/-- The instruction that a line tells: the index is passed over, and the mnemonic, the operand and
the comment follow. -/
def ofLine? (line : String) : Option Instruction := do
  -- The index says nothing that the place of the line does not say.
  let (_, rest) := cutWord line.toList
  let (mnemonic, rest) := cutWord rest
  let op ← Opcode.ofMnemonic? (String.ofList mnemonic)
  ofFields? op rest

/-- What a line shows of an operand. -/
def operandText : Option Int → List Char
  -- One blank stands for the padding of the column.
  | none => []
  | some n => ' ' :: (toString n).toList

/-- What a line shows of a comment. -/
def commentText : Option String → List Char
  -- Without a comment there is no mark.
  | none => []
  | some comment => ' ' :: ';' :: ' ' :: comment.toList

/-- A line up to its operand. -/
def opening (number : String) (i : Instruction) : String :=
  number ++ "  " ++ padRight columns.mnemonic i.op.mnemonic ++ String.ofList (operandText i.operand)

variable {i : Instruction} {index : Nat} {number : String}

/-- The index is followed by the mnemonic, and this by the operand. -/
theorem toList_opening (number : String) (i : Instruction) : (opening number i).toList =
    number.toList ++ (' ' :: ' ' :: (i.op.mnemonic.toList ++
      (List.replicate (columns.mnemonic - i.op.mnemonic.length) ' ' ++
        operandText i.operand))) := by
  simp [opening, padRight]

/-- An index that is not too long is shown as a word. -/
theorem exists_paddedIndex (width : Nat) (small : index < 10 ^ Numeral.maxDigits) :
    ∃ number, paddedIndex width index = .ok number ∧ ' ' ∉ number.toList := by
  have written := Numeral.write_short (Numeral.short_natCast small)
  refine ⟨_, by rw [paddedIndex, written]; rfl, ?_⟩
  -- There are zeros in front of the digits.
  rw [String.toList_append, String.toList_ofList, List.mem_append, not_or]
  refine ⟨?_, Numeral.blank_not_mem index⟩
  intro member
  cases List.eq_of_mem_replicate member

/-- A line without a comment is its opening without the blanks at the end. -/
theorem line_bare (padded : paddedIndex columns.index index = .ok number) (listable : i.Listable)
    (bare : i.comment = none) : line index i = .ok (trimEnd (opening number i)) := by
  -- Without a comment nothing is padded, so trimming concerns the opening only.
  unfold line
  rw [padded, bare]
  cases operand : i.operand with
  | none => simp [opening, operand, operandText, Bind.bind, Except.bind, pure, Except.pure]
  | some n =>
    have written := Numeral.write_short (listable.operand n operand)
    simp [opening, operand, operandText, written, Bind.bind, Except.bind, pure, Except.pure,
      String.append_assoc]

/-- A line with a comment is its opening, widened, and the comment behind its mark. -/
theorem line_commented (padded : paddedIndex columns.index index = .ok number)
    (listable : i.Listable) {comment : String} (commented : i.comment = some comment) :
    line index i =
      .ok (trimEnd (padRight columns.comment (opening number i) ++ " ; " ++ comment)) := by
  -- An empty comment would not be shown.
  have nonempty := listable.nonempty comment commented
  unfold line
  rw [padded, commented]
  cases operand : i.operand with
  | none => simp [opening, operand, operandText, Bind.bind, Except.bind, pure, Except.pure]
  | some n =>
    have written := Numeral.write_short (listable.operand n operand)
    simp [opening, operand, operandText, written, Bind.bind, Except.bind, pure, Except.pure,
      String.append_assoc]

/-- A line consists of words with blanks between them, and of the comment behind its mark. -/
structure Shape (i : Instruction) (text : String) (number gap inner : List Char) : Prop where
  plain : ' ' ∉ number
  blanks : ∀ c ∈ gap, c = ' '
  blanks' : ∀ c ∈ inner, c = ' '
  spelled : text.toList = number ++ (' ' :: ' ' :: (i.op.mnemonic.toList ++
    (gap ++ (operandText i.operand ++ (inner ++ commentText i.comment)))))

/-- Each instruction has a line, which is of that shape. -/
theorem exists_line (small : index < 10 ^ Numeral.maxDigits) (listable : i.Listable) :
    ∃ text number gap inner, line index i = .ok text ∧ Shape i text number gap inner := by
  obtain ⟨number, padded, plain⟩ := exists_paddedIndex columns.index small
  have spelled := toList_opening number i
  generalize columns.mnemonic - i.op.mnemonic.length = width at spelled
  have blanks : ∀ k, ∀ c ∈ List.replicate k ' ', c = ' ' := fun _ _ => List.eq_of_mem_replicate
  -- What a line ends with is no blank, so nothing but padding is dropped.
  cases commented : i.comment with
  | none =>
    have shown := line_bare padded listable commented
    cases operand : i.operand with
    | none =>
      obtain ⟨_, ⟨c, last, solid⟩, _⟩ := i.op.mnemonic_word
      have kept := dropEnd_solid (number.toList ++ [' ', ' ']) last solid
      rw [← dropEnd_blanks _ width] at kept
      refine ⟨_, number.toList, [], [], shown, plain, by simp, by simp, ?_⟩
      simpa [trimEnd, spelled, operand, commented, operandText, commentText] using kept
    | some n =>
      obtain ⟨c, last, digit⟩ := Numeral.exists_last_digit n
      have kept := dropEnd_solid (number.toList ++ (' ' :: ' ' :: (i.op.mnemonic.toList ++
        (List.replicate width ' ' ++ [' '])))) last (Numeral.isBlank_digit digit)
      refine ⟨_, number.toList, List.replicate width ' ', [], shown, plain, blanks _, by simp, ?_⟩
      simpa [trimEnd, spelled, operand, commented, operandText, commentText] using kept
  | some comment =>
    have shown := line_commented padded listable commented
    have nonempty : comment.toList ≠ [] := by simpa using listable.nonempty comment commented
    have last := List.getLast?_eq_some_getLast nonempty
    have kept := dropEnd_solid ((padRight columns.comment (opening number i) ++ " ; ").toList) last
      (listable.solid comment commented _ last)
    refine ⟨_, number.toList, List.replicate width ' ',
      List.replicate (columns.comment - (opening number i).length) ' ', shown, plain, blanks _,
      blanks _, ?_⟩
    rw [trimEnd, String.toList_append, kept, String.toList_ofList]
    simp [padRight, spelled, commented, commentText]

/-- A comment is set off by a blank, however many stand before it. -/
theorem head?_commentText {inner : List Char} (blanks : ∀ c ∈ inner, c = ' ')
    (comment : Option String) : ∀ c ∈ (inner ++ commentText comment).head?, c = ' ' := by
  -- The text of a comment starts with a blank, if there is one.
  apply head?_gap blanks
  cases comment <;> simp [commentText]

/-- Behind blanks, the mark of the comment comes first. -/
theorem dropWhile_commentText {inner : List Char} (blanks : ∀ c ∈ inner, c = ' ')
    (comment : Option String) :
    (inner ++ commentText comment).dropWhile (· = ' ') = (commentText comment).tail := by
  -- Blanks in front and the one that sets off the comment are passed over together.
  rw [dropWhile_gap blanks]
  cases comment with
  | none => rfl
  | some comment => simp [commentText]

/-- The comment is read behind its mark. -/
theorem commentOf?_commentText (comment : Option String) :
    commentOf? (commentText comment).tail = comment := by
  -- Two characters stand in front of a comment: its mark and a blank.
  cases comment with
  | none => rfl
  | some comment => simp [commentText, commentOf?]

/-- Operand and comment are read from what a line shows of them. -/
theorem ofFields?_texts {inner : List Char} (short : ∀ n ∈ i.operand, Numeral.Short n)
    (blanks : ∀ c ∈ inner, c = ' ') :
    ofFields? i.op
      ((operandText i.operand ++ (inner ++ commentText i.comment)).dropWhile (· = ' ')) =
      some i := by
  have comment := dropWhile_commentText blanks i.comment
  cases operand : i.operand with
  | none =>
    -- Nothing comes first, or the mark of the comment.
    have first : (commentText i.comment).tail.head? = none ∨
        (commentText i.comment).tail.head? = some ';' := by
      cases i.comment with
      | none => exact .inl rfl
      | some comment => exact .inr rfl
    rw [operandText, List.nil_append, comment, ofFields?, if_pos first, commentOf?_commentText,
      ← operand]
  | some n =>
    have plain := Numeral.blank_not_mem n
    have read := Numeral.read_toString (short n operand)
    obtain ⟨c, others, shown, first⟩ := Numeral.exists_first n
    rw [operandText, List.cons_append]
    generalize toString n = digits at plain read shown ⊢
    -- A sign or a digit comes first, so there is an operand.
    have other : c ≠ ';' := by
      rintro rfl
      rcases first with sign | digit
      · cases sign
      · cases digit
    have word : (' ' :: (digits.toList ++ (inner ++ commentText i.comment))).dropWhile (· = ' ') =
        digits.toList ++ (inner ++ commentText i.comment) :=
      dropWhile_word plain (by simp [shown]) _
    have cut := cutWord_append plain (head?_commentText blanks i.comment)
    have whole : (⟨i.op, some n, i.comment⟩ : Instruction) = i := by rw [← operand]
    rw [word, ofFields?, if_neg (by simp [shown, other]), cut, comment]
    simp [read, Except.toOption, commentOf?_commentText, whole]

/-- An instruction is read from its line. -/
theorem Shape.ofLine?_eq {text : String} {number gap inner : List Char}
    (shape : Shape i text number gap inner) (short : ∀ n ∈ i.operand, Numeral.Short n) :
    ofLine? text = some i := by
  obtain ⟨plain, word, ⟨c, last, _⟩, known⟩ := shape.plain, i.op.mnemonic_word
  have nonempty : i.op.mnemonic.toList ≠ [] := by
    intro none
    rw [none] at last
    cases last
  -- Behind the index and behind the mnemonic, blanks come first.
  have first : cutWord text.toList = (number, i.op.mnemonic.toList ++
      (gap ++ (operandText i.operand ++ (inner ++ commentText i.comment)))) := by
    rw [shape.spelled, cutWord_append plain (by simp)]
    exact congrArg _ (dropWhile_word word nonempty _)
  have stops : ∀ c ∈ (gap ++ (operandText i.operand ++ (inner ++ commentText i.comment))).head?,
      c = ' ' := by
    apply head?_gap shape.blanks
    cases i.operand with
    | none => exact head?_commentText shape.blanks' i.comment
    | some n => simp [operandText]
  have second := cutWord_append word stops
  rw [dropWhile_gap shape.blanks] at second
  rw [ofLine?, first]
  simp only [second, String.ofList_toList, known]
  exact ofFields?_texts short shape.blanks'

/-- Instructions in turn have a line each, from which they are read. -/
theorem exists_linesFrom {code : List Instruction} (listable : ∀ i ∈ code, i.Listable)
    (small : index + code.length ≤ 10 ^ Numeral.maxDigits) :
    ∃ lines, linesFrom index code = .ok lines ∧ lines.map ofLine? = code.map some := by
  -- The index goes up by one with each line, and stays below the power of ten.
  induction code generalizing index with
  | nil => exact ⟨[], rfl, rfl⟩
  | cons i code ih =>
    rw [List.length_cons] at small
    rw [List.forall_mem_cons] at listable
    have here : index < 10 ^ Numeral.maxDigits := by omega
    obtain ⟨text, number, gap, inner, shown, shape⟩ := exists_line here listable.1
    obtain ⟨others, shown', read⟩ := @ih (index + 1) listable.2 (by omega)
    refine ⟨text :: others, by rw [linesFrom, shown, shown']; rfl, ?_⟩
    rw [List.map_cons, shape.ofLine?_eq listable.1.operand, read, List.map_cons]

/-- Code has a listing, from which it is read line by line. -/
theorem exists_listing {code : Code} (listable : ∀ i ∈ code, i.Listable)
    (small : code.size < 10 ^ Numeral.maxDigits) :
    ∃ lines, listing code = .ok lines ∧ lines.map ofLine? = code.toList.map some :=
  exists_linesFrom (by simpa using listable) (by simpa using small.le)

end Instruction

end BlockCode
