import BlockCode.Proofs.Frame
import BlockCode.Proofs.Instruction.Listing
import BlockCode.Proofs.Table.Rebuild
import BlockCode.Proofs.Token.Lexeme

/-! Compiled code can be listed, and its listing determines it: the numbers in it are small enough,
and no comment ends in a blank. -/

namespace BlockCode

open Instruction Numeral Code

/-- A lexeme has no blank of any script in it. -/
theorem Token.Lexeme.solid {kind : Kind} {text : List Char} {c : Char} (lexeme : Lexeme kind text)
    (member : c ∈ text) : Text.isBlank c = false := by
  have table : (Kind.symbols.all fun entry => entry.1.all fun c => !Text.isBlank c) = true := by
    decide
  rcases lexeme.parts_or_symbol with word | known
  · -- The characters of words all stand between two blanks.
    have range := toNat_wordPart (word c member)
    simp [Text.isBlank, Text.isSpace]
    omega
  · simpa using List.all_eq_true.mp (List.all_eq_true.mp table _ known) c member

namespace Node

mutual

/-- A tree has no more places that name variables than instructions. -/
theorem length_occurrences (blocks : List Int) :
    ∀ n : Node, (n.occurrences blocks).length ≤ n.span
  -- An assignment and a use each have an instruction for the variable that they name.
  | .declare .. | .literal .. | .use .. | .unknown .. => by simp [occurrences, span]
  | .assign _ _ value | .print _ value => by
    have inside := length_occurrences blocks value
    simp only [occurrences, span, List.length_cons]
    omega
  | .program _ body => length_occurrencesAll blocks body
  | .block mark body => length_occurrencesAll (mark.id :: blocks) body
  | .choose _ condition yes | .loop _ condition yes | .binary _ condition _ yes => by
    have first := length_occurrences blocks condition
    have second := length_occurrences blocks yes
    simp only [occurrences, span, List.length_append]
    omega
  | .chooseElse _ condition yes no => by
    have first := length_occurrences blocks condition
    have second := length_occurrences blocks yes
    have third := length_occurrences blocks no
    simp only [occurrences, span, List.length_append]
    omega

/-- Some trees in turn have no more places that name variables than instructions. -/
theorem length_occurrencesAll (blocks : List Int) :
    ∀ ns : List Node, (occurrencesAll blocks ns).length ≤ spans ns
  -- Places and instructions both add up over the trees.
  | [] => Nat.le_refl _
  | n :: ns => by
    have first := length_occurrences blocks n
    have others := length_occurrencesAll blocks ns
    simp only [occurrencesAll, spans, List.length_append]
    omega

end

end Node

namespace Translation

variable {source : String} {code : Code} (t : Translation source code)

/-- There are no more slots than instructions. -/
theorem slotCount_le (compiled : compile source = .ok code) :
    t.analysis.table.slotCount ≤ code.size := by
  have size := size_generate (t.generated compiled)
  -- Each slot has a declaration, and each declaration has an instruction.
  have places := Node.length_occurrences [] t.tree
  have declared : (Occurrence.declarations t.places).length ≤ t.places.length :=
    List.length_filter_le _ _
  rw [t.resolves.1.count, size]
  exact (declared.trans places).trans (Nat.le_succ _)

variable {m : Node} {start address : Nat} {i : Instruction}

/-- The slots in the code can be written. -/
theorem slot_short (compiled : compile source = .ok code) (small : code.size < 10 ^ maxDigits)
    (id : Int) : ∀ slot ∈ t.analysis.resolution[id]?, Short slot := by
  -- There are fewer slots than instructions, and those are few enough.
  intro slot known
  have bounds := t.slot_lt known
  have count := t.slotCount_le compiled
  rw [short_iff]
  omega

/-- A name in the tree does not end in a blank. -/
theorem name_solid {name : Token} (within : m.Within t.tree) (kept : name ∈ m.kept) :
    ∃ c, name.lexeme.toList.getLast? = some c ∧ Text.isBlank c = false := by
  -- A kept name is a lexeme of the source text, and no lexeme has a blank in it.
  obtain ⟨_, start, longest⟩ := Node.exists_longest t.scanned t.parsed within kept
  obtain ⟨first, others, spelled⟩ := longest.isLexeme.exists_cons
  have nonempty : name.lexeme.toList ≠ [] := by simp [spelled]
  exact ⟨_, List.getLast?_eq_some_getLast nonempty,
    longest.isLexeme.solid (List.getLast_mem nonempty)⟩

/-- The instructions of a node of the tree can be listed. -/
theorem listable_own (compiled : compile source = .ok code)
    (small : code.size < 10 ^ maxDigits) (lies : m.Lies start t.tree 0)
    (mine : (i, address) ∈ own t.analysis.resolution start m) : i.Listable := by
  have size : code.size = t.tree.span + 1 := size_generate (t.generated compiled)
  have within := lies.within
  have bounds := lies.bounds
  have slots := t.slot_short compiled small
  -- A jump leads to an address in the code, or to the one behind it.
  have jumps {op : Opcode} {target : Nat} {comment : String} {c : Char}
      (inside : target ≤ start + m.span) (last : comment.toList.getLast? = some c)
      (solid : Text.isBlank c = false) : (toward op target comment).Listable := by
    apply listable_commented _ last solid
    intro n same
    cases same
    exact short_natCast (by omega)
  cases m with
  | declare mark name =>
    obtain ⟨c, last, solid⟩ := t.name_solid within (.head _)
    simp only [own, List.mem_cons, List.not_mem_nil, or_false, Prod.mk.injEq] at mine
    rcases mine with ⟨rfl, rfl⟩ | ⟨rfl, rfl⟩
    · refine listable_titled ?_ last solid
      rintro n ⟨⟩
      exact short_natCast (k := 0) (by simp)
    · exact listable_bare (slots _)
  | assign mark name value =>
    obtain ⟨c, last, solid⟩ := t.name_solid within (.head _)
    simp only [own, List.mem_singleton, Prod.mk.injEq] at mine
    obtain ⟨rfl, rfl⟩ := mine
    exact listable_titled (slots _) last solid
  | use mark name =>
    obtain ⟨c, last, solid⟩ := t.name_solid within (.head _)
    simp only [own, List.mem_singleton, Prod.mk.injEq] at mine
    obtain ⟨rfl, rfl⟩ := mine
    exact listable_titled (slots _) last solid
  | print mark value =>
    simp only [own, List.mem_singleton, Prod.mk.injEq] at mine
    obtain ⟨rfl, rfl⟩ := mine
    exact listable_bare (by simp)
  | literal mark value =>
    simp only [own, List.mem_singleton, Prod.mk.injEq] at mine
    obtain ⟨rfl, rfl⟩ := mine
    apply listable_bare
    rintro n ⟨⟩
    exact (Node.parse_sourced t.parsed within).short
  | binary mark left operator right =>
    simp only [own, List.mem_map, Prod.mk.injEq] at mine
    obtain ⟨op, _, rfl, rfl⟩ := mine
    exact listable_bare (by simp)
  | choose mark condition yes =>
    simp only [own, List.mem_singleton, Prod.mk.injEq] at mine
    obtain ⟨rfl, rfl⟩ := mine
    exact jumps (by simp only [Node.span]; omega) rfl rfl
  | chooseElse mark condition yes no =>
    simp only [own, List.mem_cons, List.not_mem_nil, or_false, Prod.mk.injEq] at mine
    rcases mine with ⟨rfl, rfl⟩ | ⟨rfl, rfl⟩
    · exact jumps (by simp only [Node.span]; omega) rfl rfl
    · exact jumps (by simp only [Node.span]; omega) rfl rfl
  | loop mark condition body =>
    simp only [own, List.mem_cons, List.not_mem_nil, or_false, Prod.mk.injEq] at mine
    rcases mine with ⟨rfl, rfl⟩ | ⟨rfl, rfl⟩
    · exact jumps (by simp only [Node.span]; omega) rfl rfl
    · exact jumps (by omega) rfl rfl
  | program | block | unknown => cases mine

end Translation

/-- Compiled code can be listed. -/
theorem listable_compiled {source : String} {code : Code} (compiled : compile source = .ok code)
    (small : code.size < 10 ^ maxDigits) : ∀ i ∈ code, i.Listable := by
  intro i member
  obtain ⟨t⟩ := exists_translation compiled
  obtain ⟨address, found⟩ := Array.getElem?_of_mem member
  rcases (getElem?_generate (t.generated compiled)).mp found with has | ⟨rfl, _⟩
  · obtain ⟨m, start, lies, mine⟩ := has.owner
    exact t.listable_own compiled small lies mine
  · -- The halt has neither an operand nor a comment.
    exact listable_bare (by simp)

/-- Code has a listing that tells it line by line: each line is read as its instruction. -/
structure Told (code : Code) (lines : List String) : Prop where
  listed : listing code = .ok lines
  length : lines.length = code.size
  read : lines.map ofLine? = code.toList.map some

/-- Code that can be listed is told by its listing. -/
theorem exists_told {code : Code} (small : code.size < 10 ^ maxDigits)
    (listable : ∀ i ∈ code, i.Listable) : ∃ lines, Told code lines := by
  -- One line is read back to one instruction, so there are as many lines as instructions.
  obtain ⟨lines, listed, read⟩ := exists_listing listable small
  have length := congrArg List.length read
  simp only [List.length_map, Array.length_toList] at length
  exact ⟨lines, listed, length, read⟩

/-- The same lines tell the same code. -/
theorem Told.unique {code code' : Code} {lines : List String} (told : Told code lines)
    (told' : Told code' lines) : code = code' := by
  -- What is read from the lines is all there is of an instruction.
  have same := told.read.symm.trans told'.read
  rw [List.map_inj_right (fun _ _ => Option.some.inj)] at same
  exact Array.toList_inj.mp same

/-- Two codes with the same listing are the same if both can be listed. -/
theorem eq_of_listing_eq {code code' : Code} (small : code.size < 10 ^ maxDigits)
    (small' : code'.size < 10 ^ maxDigits) (listable : ∀ i ∈ code, i.Listable)
    (listable' : ∀ i ∈ code', i.Listable) (same : listing code = listing code') :
    code = code' := by
  -- Both listings exist, so the same lines tell both codes.
  obtain ⟨lines, told⟩ := exists_told small listable
  obtain ⟨lines', told'⟩ := exists_told small' listable'
  rw [told.listed, told'.listed] at same
  cases same
  exact told.unique told'

/-- A listing can be decoded. Code that is not too long, with operands that have not too many digits
and comments that are not empty and do not end in a blank, has a listing with one line for each
instruction, from which the opcode, the operand and the comment are read; so no other such code has
the same listing. All compiled code is of that kind. -/
theorem listing_decodable :
    (∀ code : Code, code.size < 10 ^ maxDigits → (∀ i ∈ code, i.Listable) →
      ∃ lines, Told code lines) ∧
    (∀ code code' : Code, code.size < 10 ^ maxDigits → code'.size < 10 ^ maxDigits →
      (∀ i ∈ code, i.Listable) → (∀ i ∈ code', i.Listable) →
      listing code = listing code' → code = code') ∧
    ∀ source code, compile source = .ok code → code.size < 10 ^ maxDigits →
      (∀ i ∈ code, i.Listable) ∧ (∃ lines, Told code lines) ∧
      ∀ source' code', compile source' = .ok code' → code'.size < 10 ^ maxDigits →
        listing code = listing code' → code = code' := by
  -- Compiled code is the kind of code that the general facts are about.
  refine ⟨fun code => exists_told, fun code code' => eq_of_listing_eq, ?_⟩
  intro source code compiled small
  have listable := listable_compiled compiled small
  refine ⟨listable, exists_told small listable, ?_⟩
  intro source' code' compiled' small'
  exact eq_of_listing_eq small small' listable (listable_compiled compiled' small')

/-- An instruction whose operand runs over the column of the comment, with the mark of comments also
inside the comment, and one that has nothing but its opcode. -/
def overflowingCode : Code :=
  #[⟨.push, some (-1234567890123456789), some "; a ; b"⟩, ⟨.halt, none, none⟩]

/-- The code of a declaration. -/
def declaringCode : Code :=
  #[⟨.push, some 0, some "init x"⟩, ⟨.store, some 0, none⟩, ⟨.halt, none, none⟩]

/-- Both instructions are read from their lines, and so are those of a compiled declaration. -/
theorem listing_decodable_overflowing :
    Told overflowingCode
      ["0000  PUSH_INT      -1234567890123456789 ; ; a ; b", "0001  HALT"] ∧
    compile "int x;" = .ok declaringCode ∧ ∃ lines, Told declaringCode lines := by
  -- The listing is evaluated, and compared with the one that the general fact gives.
  obtain ⟨general, _, sources⟩ := listing_decodable
  have compiled : compile "int x;" = .ok declaringCode := by decide +kernel
  have listed : listing overflowingCode = .ok
      ["0000  PUSH_INT      -1234567890123456789 ; ; a ; b", "0001  HALT"] := by decide +kernel
  have short : Short (-1234567890123456789) := short_iff.mpr (by decide +kernel)
  have listable : ∀ i ∈ overflowingCode, i.Listable := by
    simp only [overflowingCode, List.mem_toArray, List.forall_mem_cons]
    exact ⟨listable_commented (by simpa using short) rfl rfl, listable_bare (by simp), by simp⟩
  obtain ⟨lines, told⟩ := general overflowingCode (by decide +kernel) listable
  cases told.listed.symm.trans listed
  exact ⟨told, compiled, (sources _ _ compiled (by decide +kernel)).2.1⟩

end BlockCode
