import Mathlib.Data.List.DropRight
import BlockCode.Diagnostic

/-! Positions and the offsets that they lead to in a source text. -/

namespace BlockCode

/-- Where the text behind a number of line breaks begins. -/
def lineStart? : List Char → Nat → Option Nat
  | _, 0 => some 0
  -- A line that the text does not have begins nowhere.
  | [], _ + 1 => none
  | c :: cs, breaks + 1 =>
    -- Only a line feed ends a line.
    (lineStart? cs (if c = '\n' then breaks else breaks + 1)).map (· + 1)

namespace Position

/-- The offset that a position leads to: behind the line breaks before its line, and as many
characters farther as there are columns before its own. -/
def offset? (source : List Char) (p : Position) : Option Nat :=
  -- Lines and columns are counted from one.
  if 1 ≤ p.line ∧ 1 ≤ p.column then
    (lineStart? source (p.line - 1).toNat).map (· + (p.column - 1).toNat)
  else none

/-- A position points at an offset of a source text or at its end: its line counts the breaks before
the offset, and its column the characters between the last of them and the offset. -/
structure PointsAt (source : List Char) (p : Position) (offset : Nat) : Prop where
  inside : offset ≤ source.length
  line : p.line = 1 + (source.take offset).count '\n'
  column : p.column = 1 + ((source.take offset).rtakeWhile (· ≠ '\n')).length

/-- A position is reached by going through a text: one line for each break in it, and one column for
each character behind the last break. -/
inductive Reached : List Char → Position → Prop where
  | first {part : List Char} {p : Position} (inside : '\n' ∉ part) (line : p.line = 1)
      (column : p.column = part.length + 1) : Reached part p
  | later {lines part : List Char} {p : Position} (inside : '\n' ∉ part)
      (line : p.line = lines.count '\n' + 2) (column : p.column = part.length + 1) :
      Reached (lines ++ '\n' :: part) p

namespace Reached

variable {before rest text : List Char} {p : Position}

/-- A text begins at the first position. -/
theorem start : Reached [] Position.start :=
  .first (by simp) rfl rfl

/-- Characters other than breaks lead to the right. -/
theorem right (reached : Reached before p) (inside : '\n' ∉ text) :
    Reached (before ++ text) (p.right text.length) := by
  -- They join the part of the text behind the last break.
  cases reached with
  | first own line column =>
    refine .first ?_ line ?_
    · simp [own, inside]
    · simp only [Position.right, column, List.length_append]
      omega
  | @later lines part _ own line column =>
    rw [List.append_assoc, List.cons_append]
    refine .later ?_ line ?_
    · simp [own, inside]
    · simp only [Position.right, column, List.length_append]
      omega

/-- A break leads to the next line. -/
theorem nextLine (reached : Reached before p) : Reached (before ++ ['\n']) p.nextLine := by
  -- Nothing stands behind the break yet.
  cases reached with
  | first own line column =>
    refine .later (by simp) ?_ rfl
    simp [Position.nextLine, line, List.count_eq_zero.mpr own]
  | @later lines part _ own line column =>
    refine .later (by simp) ?_ rfl
    simp only [Position.nextLine, line, List.count_append, List.count_cons_self,
      List.count_eq_zero.mpr own]
    omega

/-- The text behind all breaks of a text that ends with one begins at its end. -/
theorem lineStart?_append (lines rest : List Char) :
    lineStart? (lines ++ '\n' :: rest) (lines.count '\n' + 1) = some (lines.length + 1) := by
  -- Each character of the text is passed, and a break among them is counted off.
  induction lines with
  | nil => simp [lineStart?]
  | cons c lines ih =>
    by_cases breaks : c = '\n'
    · subst breaks
      simp [lineStart?, ih]
    · simp [lineStart?, breaks, ih]

/-- A position leads back to the end of the text through which it was reached. -/
theorem offset?_eq (reached : Reached before p) (rest : List Char) :
    p.offset? (before ++ rest) = some before.length := by
  -- On the first line the column counts from the start, and on a later one from the last break.
  cases reached with
  | first own line column =>
    have inRange : 1 ≤ p.line ∧ 1 ≤ p.column := by omega
    rw [offset?, if_pos inRange, line, column]
    simp [lineStart?]
  | @later lines part _ own line column =>
    have inRange : 1 ≤ p.line ∧ 1 ≤ p.column := by omega
    have breaks : (p.line - 1).toNat = lines.count '\n' + 1 := by omega
    have columns : (p.column - 1).toNat = part.length := by omega
    rw [offset?, if_pos inRange, breaks, columns, List.append_assoc, List.cons_append,
      lineStart?_append]
    simp only [Option.map_some, List.length_append, List.length_cons, Option.some.injEq]
    omega

/-- Text without breaks behind a break is all that is taken back to a break. -/
theorem rtakeWhile_later {part : List Char} (inside : '\n' ∉ part) (lines : List Char) :
    (lines ++ '\n' :: part).rtakeWhile (· ≠ '\n') = part := by
  -- Seen from the end, the text comes first and the break stops it.
  have passed : ∀ c ∈ part.reverse, decide (c ≠ '\n') = true := by
    intro c member
    have other : c ≠ '\n' := fun same => inside (same ▸ List.mem_reverse.mp member)
    simp [other]
  rw [List.rtakeWhile, List.reverse_append, List.reverse_cons, List.append_assoc,
    List.takeWhile_append_of_pos passed]
  simp

/-- Text without breaks is taken back to its start. -/
theorem rtakeWhile_first {part : List Char} (inside : '\n' ∉ part) :
    part.rtakeWhile (· ≠ '\n') = part := by
  -- No character is a break, so nothing stops before the start.
  refine List.rtakeWhile_eq_self_iff.mpr fun c member => ?_
  have other : c ≠ '\n' := fun same => inside (same ▸ member)
  simp [other]

/-- A position points at the end of the text through which it was reached. -/
theorem pointsAt (reached : Reached before p) (rest : List Char) :
    p.PointsAt (before ++ rest) before.length := by
  -- The breaks are counted first, and then the characters behind the last of them.
  refine ⟨by simp, ?_, ?_⟩
  · rw [List.take_left]
    cases reached with
    | first own line column => simp [line, List.count_eq_zero.mpr own]
    | later own line column =>
      simp only [List.count_append, List.count_cons_self, List.count_eq_zero.mpr own]
      omega
  · rw [List.take_left]
    cases reached with
    | first own line column =>
      rw [rtakeWhile_first own]
      omega
    | later own line column =>
      rw [rtakeWhile_later own]
      omega

end Reached

variable {source : List Char} {p : Position} {offset : Nat}

/-- A position that points at an offset is reached by going through the text before it. -/
theorem PointsAt.reached (points : p.PointsAt source offset) : p.Reached (source.take offset) := by
  obtain ⟨_, line, column⟩ := points
  generalize source.take offset = before at line column ⊢
  by_cases broken : '\n' ∈ before
  · -- The last break is the first one from the end.
    obtain ⟨behind, lines, split, inside⟩ :=
      List.eq_append_cons_of_mem (List.mem_reverse.mpr broken)
    obtain rfl : before = lines.reverse ++ '\n' :: behind.reverse := by
      rw [← before.reverse_reverse, split]
      simp
    have own : '\n' ∉ behind.reverse := by simpa using inside
    rw [Reached.rtakeWhile_later own] at column
    refine .later own ?_ (by omega)
    simp only [List.count_append, List.count_cons_self, List.count_eq_zero.mpr own] at line
    omega
  · rw [Reached.rtakeWhile_first broken] at column
    rw [List.count_eq_zero.mpr broken] at line
    exact .first broken (by omega) (by omega)

/-- A position points at no offset but the one that it leads to. -/
theorem PointsAt.offset?_eq (points : p.PointsAt source offset) :
    p.offset? source = some offset := by
  -- The text up to the offset is what the position was reached through.
  have back := points.reached.offset?_eq (source.drop offset)
  rwa [List.take_append_drop, List.length_take_of_le points.inside] at back

end Position

end BlockCode
