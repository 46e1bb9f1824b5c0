import BlockCode.Proofs.Parse.Moved
import BlockCode.Proofs.Token.Lexeme

/-! A line break ends whatever stands before it: a text behind one is scanned as if it stood alone,
some lines farther down. -/

namespace BlockCode

/-- Places some lines farther down, and numbers by some larger. -/
def Relocation.down (lines gap : Nat) : Relocation :=
  ⟨fun p => { p with line := p.line + lines }, gap⟩

namespace Token

variable {here : Position} {c : Char} {rest text more cs : List Char} {kind : Kind}
variable {tokens : List Token} {p : Char → Bool}

/-- A run of characters ends at a break, if it does not end earlier. -/
theorem takeWhile_break (stops : p '\n' = false) (cs more : List Char) :
    (cs ++ '\n' :: more).takeWhile p = cs.takeWhile p := by
  -- The first character that stops the run is in front of the break, or is the break.
  induction cs with
  | nil => simp [stops]
  | cons c cs ih => simp only [List.cons_append, List.takeWhile_cons, ih]

/-- Behind a run of characters the break is still there. -/
theorem dropWhile_break (stops : p '\n' = false) (cs more : List Char) :
    (cs ++ '\n' :: more).dropWhile p = cs.dropWhile p ++ '\n' :: more := by
  -- As for the run itself, the break stops it at the latest.
  induction cs with
  | nil => simp [stops]
  | cons c cs ih =>
    simp only [List.cons_append, List.dropWhile_cons, ih]
    split <;> rfl

/-- Behind a text that can be scanned and a break, scanning begins anew on the next line. -/
theorem scanFrom_break (scanned : scanFrom here cs = .ok tokens) :
    ∃ front mark, tokens = front ++ [mark] ∧ mark.kind = .finish ∧ ∀ others,
      scanFrom here (cs ++ '\n' :: others) =
        (scanFrom ⟨here.line + cs.count '\n' + 1, 1⟩ others).map (front ++ ·) := by
  fun_induction scanFrom here cs generalizing tokens with
  | case1 here =>
    cases scanned
    refine ⟨[], _, rfl, rfl, fun others => ?_⟩
    rw [List.nil_append, scanFrom, if_pos rfl]
    simp only [List.count_nil, Int.natCast_zero, Int.add_zero, Position.nextLine]
    cases scanFrom ⟨here.line + 1, 1⟩ others <;> rfl
  | case2 here rest ih =>
    obtain ⟨front, mark, split, kind, behind⟩ := ih scanned
    refine ⟨front, mark, split, kind, fun others => ?_⟩
    rw [List.cons_append, scanFrom, if_pos rfl, behind, List.count_cons_self]
    simp only [Position.nextLine]
    congr 3
    omega
  | case3 here c rest breaks gap ih =>
    obtain ⟨front, mark, split, kind, behind⟩ := ih scanned
    refine ⟨front, mark, split, kind, fun others => ?_⟩
    rw [List.cons_append, scanFrom, if_neg breaks, if_pos gap, behind,
      List.count_cons_of_ne breaks]
    rfl
  | case4 here c rest breaks gap comment text =>
    rename_i ih
    -- The comment has no break in it, and ends at the one behind the text at the latest.
    obtain ⟨front, mark, split, kind, behind⟩ := ih scanned
    refine ⟨front, mark, split, kind, fun others => ?_⟩
    have inside : (rest.takeWhile (· != '\n')).count '\n' = 0 := by
      refine List.count_eq_zero.mpr fun member => ?_
      exact absurd (List.mem_takeWhile_imp member) (by decide)
    have count : (c :: rest).count '\n' = (rest.dropWhile (· != '\n')).count '\n' := by
      rw [List.count_cons_of_ne breaks]
      conv => lhs; rw [← List.takeWhile_append_dropWhile (p := (· != '\n')) (l := rest)]
      rw [List.count_append, inside, Nat.zero_add]
    rw [List.cons_append, scanFrom, if_neg breaks, if_neg gap, startsComment_append (by decide),
      if_pos comment]
    simp only [takeWhile_break, dropWhile_break, bne_self_eq_false]
    rw [behind, count]
    rfl
  | case5 here c rest breaks gap comment stray => cases scanned
  | case6 here c rest breaks gap comment kind text more found ih =>
    obtain ⟨others, further, same⟩ := bind_eq_ok.mp scanned
    cases same
    obtain ⟨front, mark, rfl, kind', behind⟩ := ih further
    refine ⟨_ :: front, mark, rfl, kind', fun others => ?_⟩
    -- The lexeme has no break in it either, and a break does not continue it.
    have cut : CutOff [] c rest kind text more :=
      cutOff_firstLexeme? found (by simpa using comment) (by simp [Apart])
    have stops := continues_other (d := '\n') (by decide) (by decide) text
    have count : (c :: rest).count '\n' = more.count '\n' := by
      rw [cut.split, List.count_append, List.count_eq_zero.mpr cut.inline, Nat.zero_add]
    rw [List.cons_append, scanFrom_lexeme breaks (by simpa using gap)
      (by rw [startsComment_append (by decide)]; simpa using comment)
      (firstLexeme?_append found stops others), behind, count]
    simp only [Position.right]
    cases scanFrom ⟨here.line + more.count '\n' + 1, 1⟩ others <;> rfl

/-- A text that begins some lines farther down has its tokens there. -/
theorem scanFrom_down (lines gap : Nat) (scanned : scanFrom here cs = .ok tokens) :
    scanFrom ((Relocation.down lines gap).place here) cs =
      .ok (tokens.map (Token.moved (.down lines gap))) := by
  -- Going on to the right or to the next line is the same farther down.
  have next (p : Position) : (Relocation.down lines gap).place p.nextLine =
      ((Relocation.down lines gap).place p).nextLine := by
    simp only [Relocation.down, Position.nextLine]
    congr 1
    omega
  fun_induction scanFrom here cs generalizing tokens with
  | case1 here =>
    cases scanned
    rw [scanFrom]
    rfl
  | case2 here rest ih => rw [scanFrom, if_pos rfl, ← next, ih scanned]
  | case3 here c rest breaks gap ih =>
    rw [scanFrom, if_neg breaks, if_pos gap]
    exact ih scanned
  | case4 here c rest breaks gap comment text =>
    rename_i ih
    rw [scanFrom, if_neg breaks, if_neg gap, if_pos comment]
    exact ih scanned
  | case5 here c rest breaks gap comment stray => cases scanned
  | case6 here c rest breaks gap comment kind text more found ih =>
    obtain ⟨others, further, same⟩ := bind_eq_ok.mp scanned
    cases same
    rw [scanFrom_lexeme breaks (by simpa using gap) (by simpa using comment) found]
    exact congrArg (Except.map _) (ih further)

/-- Two sources that can be scanned can be scanned with a break between them: the tokens of the
second one follow those of the first, as many lines farther down as the first one has. -/
theorem scan_break {source source' : String} {tokens' : List Token} (gap : Nat)
    (scanned : scan source = .ok tokens) (scanned' : scan source' = .ok tokens') :
    ∃ front mark, tokens = front ++ [mark] ∧ mark.kind = .finish ∧
      scan (source ++ "\n" ++ source') = .ok
        (front ++ tokens'.map (Token.moved (.down (source.toList.count '\n' + 1) gap))) := by
  -- The first source gives way to a break instead of its end, and the second starts below it.
  obtain ⟨front, mark, split, kind, behind⟩ := scanFrom_break scanned
  refine ⟨front, mark, split, kind, ?_⟩
  have joined : (source ++ "\n" ++ source').toList = source.toList ++ '\n' :: source'.toList := by
    simp
  have lower : (⟨Position.start.line + source.toList.count '\n' + 1, 1⟩ : Position) =
      (Relocation.down (source.toList.count '\n' + 1) gap).place .start := by
    simp only [Relocation.down, Position.start]
    congr 1
  rw [scan, joined, behind, lower, scanFrom_down _ gap scanned']
  rfl

end Token

end BlockCode
