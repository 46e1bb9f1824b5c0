import Mathlib.Data.Nat.Digits.Lemmas
import BlockCode.Text.Numeral

/-! Numerals made of decimal digits are read as the number that they write, and a number is written
unless it has too many digits. What is written is read as the same number. -/

namespace BlockCode.Numeral

/-- The number that a row of decimal digits writes, the last digit for the ones. -/
def decimal (text : String) : Int :=
  (Nat.ofDigits 10 (text.toList.reverse.map fun c => c.toNat - '0'.toNat) : Nat)

/-- Numerals with some decimal digits, but not with too many. -/
structure Legible (text : String) : Prop where
  nonempty : text.toList ≠ []
  short : text.toList.length ≤ maxDigits
  digits : ∀ c ∈ text.toList, c.isDigit = true

-- The digits are checked along the text, and not by a search through all characters.
instance (text : String) : Decidable (Legible text) :=
  decidable_of_iff (text.toList ≠ [] ∧ text.toList.length ≤ maxDigits ∧
      text.toList.all Char.isDigit = true)
    ⟨fun ⟨nonempty, short, digits⟩ => ⟨nonempty, short, List.all_eq_true.mp digits⟩,
      fun legible => ⟨legible.nonempty, legible.short, List.all_eq_true.mpr legible.digits⟩⟩

/-- Where the decimal digits stand among the characters. -/
theorem toNat_digit {c : Char} (digit : c.isDigit = true) : 48 ≤ c.toNat ∧ c.toNat ≤ 57 := by
  -- The class is given by its first and its last member.
  simp only [Char.isDigit, Bool.and_eq_true, decide_eq_true_eq] at digit
  exact ⟨digit.1, digit.2⟩

/-- A decimal digit stands for its distance from zero. -/
theorem digitValue?_digit {c : Char} (digit : c.isDigit = true) :
    Text.digitValue? c = some (c.toNat - '0'.toNat) := by
  -- The digits of the first script are found first.
  have range := toNat_digit digit
  have found : 48 ≤ c.toNat ∧ c.toNat < 48 + 10 := by omega
  simp [Text.digitValue?, Text.digitZeros, found]

/-- No decimal digit is white space. -/
theorem isSpace_digit {c : Char} (digit : c.isDigit = true) : Text.isSpace c = false := by
  -- All white space lies before or behind the digits.
  have range := toNat_digit digit
  simp [Text.isSpace]
  omega

/-- No decimal digit is a blank. -/
theorem isBlank_digit {c : Char} (digit : c.isDigit = true) : Text.isBlank c = false := by
  -- The digits are between the blanks and all other characters that are blank.
  have range := toNat_digit digit
  simp [Text.isBlank, isSpace_digit digit]
  omega

/-- Decimal digits are taken one by one. -/
theorem takeDigits_digits (cs : List Char) (digits : ∀ c ∈ cs, c.isDigit = true)
    (afterDigit : Bool) (enough : afterDigit = true ∨ cs ≠ []) :
    takeDigits afterDigit cs = some (cs.map fun c => c.toNat - '0'.toNat, []) := by
  -- Behind the first digit the row may end.
  induction cs generalizing afterDigit with
  | nil => simp_all [takeDigits]
  | cons c cs ih =>
    have others := ih (fun d member => digits d (by simp [member])) true (.inl rfl)
    simp [takeDigits, digitValue?_digit (digits c (by simp)), others]

/-- Digits taken from the left write the same number as digits counted from the right. -/
theorem ofDigits_eq (digits : List Nat) : ofDigits digits = Nat.ofDigits 10 digits.reverse := by
  -- Both fold the row, from its two ends.
  rw [Nat.ofDigits_eq_foldr, List.foldr_reverse, ofDigits]
  congr 1
  funext n d
  simp [Nat.add_comm]

/-- Decimal digits have no sign and no white space before them. -/
theorem takeSign_digits {cs : List Char} (digits : ∀ c ∈ cs, c.isDigit = true) :
    takeSign (cs.dropWhile Text.isSpace) = (false, cs) := by
  -- The first character is a digit, which is neither white space nor a sign.
  cases cs with
  | nil => rfl
  | cons c cs =>
    have digit := digits c (by simp)
    rw [List.dropWhile_cons_of_neg (by simp [isSpace_digit digit])]
    unfold takeSign
    split
    · rename_i same; cases same; cases digit
    · rename_i same; cases same; cases digit
    · rfl

/-- Digits behind a sign are read as the number that they write. -/
theorem read_digits {text : String} {negative : Bool} {cs : List Char}
    (sign : takeSign (text.toList.dropWhile Text.isSpace) = (negative, cs))
    (digits : ∀ c ∈ cs, c.isDigit = true) (nonempty : cs ≠ []) (short : cs.length ≤ maxDigits) :
    read text = .ok (if negative then -(ofDigits (cs.map fun c => c.toNat - '0'.toNat) : Int)
      else ofDigits (cs.map fun c => c.toNat - '0'.toNat)) := by
  -- All digits are taken, and nothing is left behind them.
  have taken := takeDigits_digits cs digits false (.inr nonempty)
  simp [read, sign, taken, Nat.not_lt.mpr short]

/-- A legible numeral is read as the number that its digits write. -/
theorem read_legible {text : String} (legible : Legible text) : read text = .ok (decimal text) := by
  -- All characters are digits, and there are few enough of them.
  rw [read_digits (takeSign_digits legible.digits) legible.digits legible.nonempty legible.short]
  simp [ofDigits_eq, decimal, List.map_reverse]

/-- Too many digits are not read. -/
theorem read_overlong {text : String} (digits : ∀ c ∈ text.toList, c.isDigit = true)
    (long : maxDigits < text.toList.length) :
    read text = .error (.overlong text.toList.length) := by
  -- They are counted when all of them have been taken.
  have nonempty : text.toList ≠ [] := by
    intro none
    simp [none] at long
  have taken := takeDigits_digits text.toList digits false (.inr nonempty)
  simp [read, takeSign_digits digits, taken, long]

/-- A number is written exactly if it has few enough digits. -/
theorem write_eq (n : Int) : write n =
    if (Nat.digits 10 n.natAbs).length ≤ maxDigits then .ok (toString n)
    else .error .unprintable := by
  -- A number has at most so many digits if it lies below the power of ten.
  have digits := Nat.digits_length_le_iff (k := maxDigits) (by decide : 1 < 10) n.natAbs
  simp only [write, digits, Nat.pow_eq]

/-- Integers with few enough digits to be written. -/
def Short (n : Int) : Prop := (Nat.digits 10 n.natAbs).length ≤ maxDigits

/-- An integer has few enough digits if it lies within the power of ten. -/
theorem short_iff {n : Int} : Short n ↔ n.natAbs < 10 ^ maxDigits :=
  Nat.digits_length_le_iff (by decide) _

/-- A number below the power of ten has few enough digits. -/
theorem short_natCast {k : Nat} (small : k < 10 ^ maxDigits) : Short k :=
  short_iff.mpr (by rwa [Int.natAbs_natCast])

/-- An integer with few enough digits is written. -/
theorem write_short {n : Int} (short : Short n) : write n = .ok (toString n) :=
  (write_eq n).trans (if_pos short)

/-- An integer with too many digits is not written. -/
theorem write_long {n : Int} (long : ¬ Short n) : write n = .error .unprintable :=
  (write_eq n).trans (if_neg long)

/-- The text of an integer: its digits, behind a sign if it is negative. -/
theorem toList_toString (n : Int) :
    (toString n).toList = (if n < 0 then ['-'] else []) ++ Nat.toDigits 10 n.natAbs := by
  -- The text is made of the absolute value, with a sign in front where there is one.
  rw [Int.toString_eq_repr, Int.repr_eq_if]
  by_cases negative : n < 0
  · have size : (-n).toNat = n.natAbs := by omega
    rw [if_neg (by omega), if_pos negative, String.toList_append, Nat.toList_repr, size]
    rfl
  · have size : n.toNat = n.natAbs := by omega
    rw [if_pos (by omega), if_neg negative, Nat.toList_repr, size, List.nil_append]

/-- The decimal digits of a number are digits. -/
theorem isDigit_toDigits {k : Nat} {c : Char} (member : c ∈ Nat.toDigits 10 k) :
    c.isDigit = true :=
  Nat.isDigit_of_mem_toDigits (by decide) (by decide) member

/-- There is nothing but digits behind the sign of a number. -/
theorem sign_or_digit {n : Int} {c : Char} (member : c ∈ (toString n).toList) :
    c = '-' ∨ c.isDigit = true := by
  -- In front of the digits there is a sign at most.
  rw [toList_toString, List.mem_append] at member
  rcases member with sign | digit
  · split at sign
    · exact .inl (List.mem_singleton.mp sign)
    · cases sign
  · exact .inr (isDigit_toDigits digit)

/-- The text of a number has no blank in it. -/
theorem blank_not_mem (n : Int) : ' ' ∉ (toString n).toList := by
  -- A blank is neither the sign nor a digit.
  intro member
  rcases sign_or_digit member with sign | digit
  · cases sign
  · cases digit

/-- The text of a number starts with a sign or a digit. -/
theorem exists_first (n : Int) :
    ∃ c others, (toString n).toList = c :: others ∧ (c = '-' ∨ c.isDigit = true) := by
  -- There is at least one digit in every number.
  cases shown : (toString n).toList with
  | nil =>
    rw [toList_toString, List.append_eq_nil_iff] at shown
    exact absurd shown.2 Nat.toDigits_ne_nil
  | cons c others => exact ⟨c, others, rfl, sign_or_digit (shown ▸ List.mem_cons_self)⟩

/-- The text of a number ends with a digit. -/
theorem exists_last_digit (n : Int) :
    ∃ c, (toString n).toList.getLast? = some c ∧ c.isDigit = true := by
  -- The digits come last, and there is at least one.
  have nonempty := @Nat.toDigits_ne_nil n.natAbs 10
  refine ⟨_, ?_, isDigit_toDigits (List.getLast_mem nonempty)⟩
  rw [toList_toString, List.getLast?_append_of_ne_nil _ nonempty, List.getLast?_eq_some_getLast]

/-- The decimal digits of a number write it. -/
theorem ofDigits_toDigits (k : Nat) :
    ofDigits ((Nat.toDigits 10 k).map fun c => c.toNat - '0'.toNat) = k := by
  -- Reading the characters as values and then as a number is the library's way of doing both.
  rw [ofDigits, List.foldl_map]
  exact Nat.ofDigitChars_ten_toDigits

/-- The text of an integer is read as the integer. -/
theorem read_toString {n : Int} (short : Short n) : read (toString n) = .ok n := by
  have digits : ∀ c ∈ Nat.toDigits 10 n.natAbs, c.isDigit = true := fun _ => isDigit_toDigits
  have few : (Nat.toDigits 10 n.natAbs).length ≤ maxDigits :=
    (Nat.length_toDigits_le_iff (by decide) (by decide)).mpr (short_iff.mp short)
  -- The digits are the same whether or not a sign stands before them.
  have sign : takeSign ((toString n).toList.dropWhile Text.isSpace) =
      (decide (n < 0), Nat.toDigits 10 n.natAbs) := by
    rw [toList_toString]
    by_cases negative : n < 0
    · rw [if_pos negative, decide_eq_true negative]
      rfl
    · rw [if_neg negative, decide_eq_false negative, List.nil_append, takeSign_digits digits]
  rw [read_digits sign digits Nat.toDigits_ne_nil few, ofDigits_toDigits, Except.ok.injEq]
  -- The sign makes the number of its size.
  simp only [decide_eq_true_eq]
  split <;> omega

/-- A decimal digit of any script stands for less than ten. -/
theorem digitValue?_lt {c : Char} {d : Nat} (found : Text.digitValue? c = some d) : d < 10 := by
  -- Each script has its ten digits in a row, counted from the first one.
  obtain ⟨first, script, rfl⟩ := Option.map_eq_some_iff.mp found
  have range := List.find?_some script
  simp only [Bool.and_eq_true, decide_eq_true_eq] at range
  omega

/-- The digits that are taken are less than ten. -/
theorem takeDigits_lt {afterDigit : Bool} {cs tail : List Char} {digits : List Nat}
    (taken : takeDigits afterDigit cs = some (digits, tail)) : ∀ d ∈ digits, d < 10 := by
  -- The cases are those of the reader: a digit, an underscore between digits, or the end.
  fun_induction takeDigits afterDigit cs generalizing digits with
  | case1 => simp_all
  | case2 => simp_all
  | case3 afterDigit c cs d found ih =>
    obtain ⟨⟨others, tail⟩, further, same⟩ := Option.map_eq_some_iff.mp taken
    cases same
    intro e member
    rcases List.mem_cons.mp member with rfl | later
    · exact digitValue?_lt found
    · exact ih further e later
  | case4 => simp_all
  | case5 _ _ _ _ ih => exact ih taken
  | case6 => simp_all

/-- An integer that was read can be written. -/
theorem short_of_read {text : String} {n : Int} (found : read text = .ok n) : Short n := by
  unfold read at found
  split at found
  rename_i negative body sign
  split at found
  · cases found
  · rename_i digits tail taken
    split at found
    · cases found
    · rename_i few
      split at found
      · cases found
      · -- So many digits write less than the power of ten, whatever the sign.
        have small := Nat.ofDigits_lt_base_pow_length (by decide : 1 < 10)
          (l := digits.reverse) fun d member =>
            takeDigits_lt taken d (List.mem_reverse.mp member)
        rw [← ofDigits_eq, List.length_reverse] at small
        have bound : ofDigits digits < 10 ^ maxDigits :=
          Nat.lt_of_lt_of_le small (Nat.pow_le_pow_right (by decide) (Nat.le_of_not_lt few))
        cases found
        rw [short_iff]
        split <;> simpa using bound

end BlockCode.Numeral
