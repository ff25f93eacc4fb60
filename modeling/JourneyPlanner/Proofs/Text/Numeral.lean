import JourneyPlanner.Text.Blank
import JourneyPlanner.Text.Numeral
import Mathlib.Algebra.Ring.Nat

/-!
What is read and written around numerals. A numeral is read exactly when it is a run of digits, after
at most one plus sign, with a value up to the limit; a number is written with as many digits as it
needs, and at least as many as the width. The parts between separators and the text between white
space are found again when they are put together.
-/

namespace JourneyPlanner.Text

variable {limit width n : Nat} {text run before after : List Char} {separator : Char}

theorem isDigit_eq (c : Char) : isDigit c = c.isDigit := by
  rfl

theorem digit_eq (n : Nat) : digit n = Nat.digitChar (n % 10) := by
  have below : n % 10 < 10 := Nat.mod_lt n (by decide)
  rw [digit]
  generalize n % 10 = m at below ⊢
  revert m
  decide

theorem digits_eq (n : Nat) : digits n = Nat.toDigits 10 n := by
  induction n using Nat.strongRecOn with
  | ind n ih =>
      rw [digits, Nat.toDigits_eq_if (by decide)]
      split
      · next small => rw [digit_eq, Nat.mod_eq_of_lt small]
      · next large => rw [ih _ (Nat.div_lt_self (by omega) (by decide)), digit_eq]

/-- At least one digit, with a value up to a limit. -/
structure IsRun (limit : Nat) (run : List Char) (n : Nat) : Prop where
  ne_nil : run ≠ []
  digits : ∀ c ∈ run, c.isDigit = true
  value : Nat.ofDigitChars 10 run 0 = n
  le : n ≤ limit

/-- A run of digits, alone or after a plus sign. -/
def IsNumeral (limit : Nat) (text : List Char) (n : Nat) : Prop :=
  ∃ run, (text = run ∨ text = '+' :: run) ∧ IsRun limit run n

/-- A number in digits, with as many zeros before it as bring it to a width and no more. -/
structure IsPadded (width n : Nat) (text : List Char) : Prop where
  digits : ∀ c ∈ text, c.isDigit = true
  value : Nat.ofDigitChars 10 text 0 = n
  width_le : width ≤ text.length
  length_le_iff : ∀ k, width ≤ k → (text.length ≤ k ↔ n < 10 ^ k)

theorem readRun_eq_some_iff : (if run ≠ [] ∧ run.all isDigit ∧ value 0 run ≤ limit then
    some (value 0 run) else none) = some n ↔ IsRun limit run n := by
  simp only [Option.ite_none_right_eq_some, Option.some.injEq, List.all_eq_true]
  constructor
  · rintro ⟨⟨ne_nil, digits, le⟩, rfl⟩
    exact ⟨ne_nil, digits, rfl, le⟩
  · rintro ⟨ne_nil, digits, rfl, le⟩
    exact ⟨⟨ne_nil, digits, le⟩, rfl⟩

theorem numeral?_eq_some_iff : numeral? limit text = some n ↔ IsNumeral limit text n := by
  by_cases signed : ∃ run, text = '+' :: run
  · obtain ⟨run, rfl⟩ := signed
    refine readRun_eq_some_iff.trans ⟨fun isRun => ⟨run, .inr rfl, isRun⟩, ?_⟩
    rintro ⟨other, rfl | same, isRun⟩
    · -- A plus sign is no digit.
      exact absurd (isRun.digits '+' List.mem_cons_self) (by decide)
    · rwa [List.tail_eq_of_cons_eq same]
  · have unsigned : ∀ run, text ≠ '+' :: run := not_exists.1 signed
    rw [numeral?.eq_2 limit text unsigned, readRun_eq_some_iff]
    refine ⟨fun isRun => ⟨text, .inl rfl, isRun⟩, ?_⟩
    rintro ⟨run, rfl | same, isRun⟩
    · exact isRun
    · exact absurd same (unsigned run)

theorem isPadded_padded (positive : 0 < width) (n : Nat) : IsPadded width n (padded width n) := by
  have length : (padded width n).length = max width (Nat.toDigits 10 n).length := by
    simp only [padded, digits_eq, List.length_append, List.length_replicate]
    omega
  constructor
  · intro c member
    rcases List.mem_append.1 member with zero | digit
    · rw [List.eq_of_mem_replicate zero]
      rfl
    · rw [digits_eq] at digit
      exact Nat.isDigit_of_mem_toDigits (by decide) (by decide) digit
  · rw [padded, Nat.ofDigitChars_append, Nat.ofDigitChars_replicate_zero, Nat.mul_zero, digits_eq,
      Nat.ofDigitChars_ten_toDigits]
  · rw [length]
    exact Nat.le_max_left _ _
  · intro k le
    rw [length, ← Nat.length_toDigits_le_iff (by decide) (Nat.lt_of_lt_of_le positive le)]
    omega

theorem IsPadded.isNumeral (h : IsPadded width n text) (positive : 0 < width) (le : n ≤ limit) :
    IsNumeral limit text n := by
  refine ⟨text, .inl rfl, ?_, h.digits, h.value, le⟩
  rintro rfl
  exact absurd h.width_le (Nat.not_le_of_lt positive)

theorem IsPadded.length_eq (h : IsPadded width n text) (below : n < 10 ^ width) :
    text.length = width :=
  Nat.le_antisymm ((h.length_le_iff width (Nat.le_refl _)).2 below) h.width_le

theorem isDigit_or_of_mem (h : IsNumeral limit text n) {c : Char} (member : c ∈ text) :
    c.isDigit = true ∨ c = '+' := by
  obtain ⟨run, rfl | rfl, isRun⟩ := h
  · exact .inl (isRun.digits c member)
  · rcases List.mem_cons.1 member with plus | digit
    · exact .inr plus
    · exact .inl (isRun.digits c digit)

theorem splitOn_eq (separator : Char) (text : List Char) :
    splitOn separator text = text.splitOn separator := by
  induction text with
  | nil => rfl
  | cons c rest ih =>
      rw [splitOn, List.splitOn_cons_eq_if_modifyHead, ← ih]
      simp only [beq_iff_eq]
      split
      · rfl
      · cases parts : splitOn separator rest with
        | nil => exact absurd parts (splitOn_ne_nil separator rest)
        | cons part others => rfl

theorem intercalate_splitOn (separator : Char) (text : List Char) :
    [separator].intercalate (splitOn separator text) = text := by
  rw [splitOn_eq, List.intercalate_splitOn]

theorem splitOn_intercalate {parts : List (List Char)} (free : ∀ part ∈ parts, separator ∉ part)
    (ne_nil : parts ≠ []) : splitOn separator ([separator].intercalate parts) = parts := by
  rw [splitOn_eq, List.splitOn_intercalate separator free ne_nil]

theorem exists_trim (text : List Char) : ∃ before after, text = before ++ trim text ++ after ∧
    (∀ c ∈ before, isBlank c = true) ∧ ∀ c ∈ after, isBlank c = true := by
  have blank (l : List Char) : ∀ c ∈ l.takeWhile isBlank, isBlank c = true :=
    List.all_eq_true.1 List.all_takeWhile
  let back := (trimStart text).reverse
  have split : trimStart text = trim text ++ (back.takeWhile isBlank).reverse := by
    rw [trim, ← List.reverse_append, trimStart.eq_def back, List.takeWhile_append_dropWhile,
      List.reverse_reverse]
  refine ⟨text.takeWhile isBlank, (back.takeWhile isBlank).reverse, ?_, blank text,
    fun c member => blank back c (List.mem_reverse.1 member)⟩
  rw [List.append_assoc, ← split, trimStart, List.takeWhile_append_dropWhile]

theorem trimStart_append (startBlank : ∀ c ∈ before, isBlank c = true) (ne_nil : text ≠ [])
    (solid : ∀ c ∈ text, isBlank c = false) : trimStart (before ++ (text ++ after)) = text ++ after := by
  rw [trimStart, List.dropWhile_append_of_pos startBlank]
  obtain ⟨c, rest, rfl⟩ := List.exists_cons_of_ne_nil ne_nil
  exact List.dropWhile_cons_of_neg (by simp [solid c List.mem_cons_self])

theorem trim_append (startBlank : ∀ c ∈ before, isBlank c = true)
    (endBlank : ∀ c ∈ after, isBlank c = true) (ne_nil : text ≠ [])
    (solid : ∀ c ∈ text, isBlank c = false) : trim (before ++ text ++ after) = text := by
  have back : trimStart (after.reverse ++ (text.reverse ++ [])) = text.reverse ++ [] :=
    trimStart_append (fun c member => endBlank c (List.mem_reverse.1 member)) (by simpa using ne_nil)
      fun c member => solid c (List.mem_reverse.1 member)
  rw [List.append_nil, ← List.reverse_append] at back
  rw [trim, List.append_assoc, trimStart_append startBlank ne_nil solid, back, List.reverse_reverse]

end JourneyPlanner.Text
