import JourneyPlanner.Proofs.Text.Numeral
import JourneyPlanner.Time.Duration

/-!
The text of a duration, `HH:MM:SS`. Every duration is read back from the text that is written of it.
The texts that are read are three numerals between colons, with white space around the whole, where
the minutes and the seconds are below sixty and the sum fits into a word of 32 bits; and nothing that
is computed on the way without a check is longer than a word.
-/

namespace JourneyPlanner.Duration

open Text

variable {limit h m s : Nat} {text : List Char} {d : Duration}

/-- Hours, minutes and seconds between colons, with two digits for the last two and two or more for
the hours. -/
def IsClock (text : List Char) (d : Duration) : Prop :=
  ∃ hours minutes seconds, text = hours ++ ':' :: minutes ++ ':' :: seconds ∧
    IsPadded 2 (d.seconds / 3600) hours ∧
    (IsPadded 2 (d.seconds / 60 % 60) minutes ∧ minutes.length = 2) ∧
    IsPadded 2 (d.seconds % 60) seconds ∧ seconds.length = 2

/-- Three numerals between colons, with white space around them, that make up a duration. -/
def IsTextOf (text : List Char) (d : Duration) : Prop :=
  ∃ before hours minutes seconds after h m s,
    text = before ++ (hours ++ ':' :: minutes ++ ':' :: seconds) ++ after ∧
    (∀ c ∈ before, isBlank c = true) ∧ (∀ c ∈ after, isBlank c = true) ∧
    IsNumeral 4294967295 hours h ∧ IsNumeral 4294967295 minutes m ∧
    IsNumeral 4294967295 seconds s ∧ m < 60 ∧ s < 60 ∧ d.seconds = 3600 * h + 60 * m + s

theorem isClock_clockChars (d : Duration) : IsClock d.clockChars d := by
  have written (n : Nat) : IsPadded 2 n (padded 2 n) := isPadded_padded (by decide) n
  have short (n : Nat) : (padded 2 (n % 60)).length = 2 :=
    (written (n % 60)).length_eq (Nat.lt_trans (Nat.mod_lt n (by decide)) (by decide))
  exact ⟨_, _, _, rfl, written _, ⟨written _, short _⟩, written _, short _⟩

theorem IsClock.isTextOf (isClock : IsClock text d) : IsTextOf text d := by
  obtain ⟨hours, minutes, seconds, rfl, isHours, ⟨isMinutes, -⟩, isSeconds, -⟩ := isClock
  have le := d.seconds_le
  refine ⟨[], hours, minutes, seconds, [], d.seconds / 3600, d.seconds / 60 % 60, d.seconds % 60,
    by simp, List.forall_mem_nil _, List.forall_mem_nil _, isHours.isNumeral (by decide) ?_,
    isMinutes.isNumeral (by decide) ?_, isSeconds.isNumeral (by decide) ?_, ?_, ?_, ?_⟩
  all_goals omega

theorem intercalate_three (hours minutes seconds : List Char) :
    [':'].intercalate [hours, minutes, seconds] = hours ++ ':' :: minutes ++ ':' :: seconds := by
  simp [List.intercalate_cons_cons]

theorem numerals_eq_iff : (splitOn ':' text).map (numeral? limit) = [some h, some m, some s] ↔
    ∃ hours minutes seconds, text = hours ++ ':' :: minutes ++ ':' :: seconds ∧
      IsNumeral limit hours h ∧ IsNumeral limit minutes m ∧ IsNumeral limit seconds s := by
  constructor
  · intro read
    obtain ⟨hours, _, parts, isHours, read⟩ := List.map_eq_cons_iff.1 read
    obtain ⟨minutes, _, rfl, isMinutes, read⟩ := List.map_eq_cons_iff.1 read
    obtain ⟨seconds, _, rfl, isSeconds, read⟩ := List.map_eq_cons_iff.1 read
    rw [List.map_eq_nil_iff.1 read] at parts
    refine ⟨hours, minutes, seconds, ?_, numeral?_eq_some_iff.1 isHours,
      numeral?_eq_some_iff.1 isMinutes, numeral?_eq_some_iff.1 isSeconds⟩
    rw [← intercalate_three, ← parts, intercalate_splitOn]
  · rintro ⟨hours, minutes, seconds, rfl, isHours, isMinutes, isSeconds⟩
    have free {part : List Char} {n : Nat} (isNumeral : IsNumeral limit part n) : ':' ∉ part :=
      fun colon => absurd (isDigit_or_of_mem isNumeral colon) (by decide)
    rw [← intercalate_three, splitOn_intercalate (by simp [free isHours, free isMinutes,
      free isSeconds]) (List.cons_ne_nil _ _)]
    simp [numeral?_eq_some_iff.2 isHours, numeral?_eq_some_iff.2 isMinutes,
      numeral?_eq_some_iff.2 isSeconds]

theorem isBlank_eq_false {c : Char} (solid : c.isDigit = true ∨ c = '+' ∨ c = ':') :
    isBlank c = false := by
  rcases solid with digit | rfl | rfl
  · rw [← isDigit_eq] at digit
    simp only [isDigit, Bool.and_eq_true, decide_eq_true_eq] at digit
    simp only [isBlank, Bool.or_eq_false_iff, Bool.and_eq_false_iff, decide_eq_false_iff_not,
      beq_eq_false_iff_ne]
    omega
  · rfl
  · rfl

theorem trimmed_numerals_eq_iff :
    (splitOn ':' (trim text)).map (numeral? limit) = [some h, some m, some s] ↔
      ∃ before hours minutes seconds after,
        text = before ++ (hours ++ ':' :: minutes ++ ':' :: seconds) ++ after ∧
        (∀ c ∈ before, isBlank c = true) ∧ (∀ c ∈ after, isBlank c = true) ∧
        IsNumeral limit hours h ∧ IsNumeral limit minutes m ∧ IsNumeral limit seconds s := by
  rw [numerals_eq_iff]
  constructor
  · rintro ⟨hours, minutes, seconds, trimmed, numerals⟩
    obtain ⟨before, after, split, startBlank, endBlank⟩ := exists_trim text
    rw [trimmed] at split
    exact ⟨before, hours, minutes, seconds, after, split, startBlank, endBlank, numerals⟩
  · rintro ⟨before, hours, minutes, seconds, after, rfl, startBlank, endBlank, numerals⟩
    refine ⟨hours, minutes, seconds, trim_append startBlank endBlank (by simp) ?_, numerals⟩
    obtain ⟨isHours, isMinutes, isSeconds⟩ := numerals
    intro c member
    simp only [List.mem_append, List.mem_cons] at member
    refine isBlank_eq_false ?_
    rcases member with (among | rfl | among) | rfl | among
    · exact (isDigit_or_of_mem isHours among).imp_right .inl
    · exact .inr (.inr rfl)
    · exact (isDigit_or_of_mem isMinutes among).imp_right .inl
    · exact .inr (.inr rfl)
    · exact (isDigit_or_of_mem isSeconds among).imp_right .inl

theorem read?_eq_some : read? text = some d ↔ ∃ h m s,
    (splitOn ':' (trim text)).map (numeral? 4294967295) = [some h, some m, some s] ∧
      m < 60 ∧ s < 60 ∧ d.seconds = 3600 * h + 60 * m + s := by
  rw [read?]
  split
  · next h m s numerals =>
      simp only [numerals, Option.dite_none_right_eq_some, Option.some.injEq, List.cons.injEq,
        and_true]
      constructor
      · rintro ⟨⟨shortMinutes, shortSeconds, -⟩, rfl⟩
        exact ⟨h, m, s, ⟨rfl, rfl, rfl⟩, shortMinutes, shortSeconds, rfl⟩
      · rintro ⟨_, _, _, ⟨rfl, rfl, rfl⟩, shortMinutes, shortSeconds, total⟩
        exact ⟨⟨shortMinutes, shortSeconds, total ▸ d.seconds_le⟩, Duration.ext total.symm⟩
  · next others =>
      refine iff_of_false (fun none => by cases none) ?_
      rintro ⟨h, m, s, numerals, -⟩
      exact others h m s numerals

theorem read?_eq_some_iff : read? text = some d ↔ IsTextOf text d := by
  rw [read?_eq_some]
  constructor
  · rintro ⟨h, m, s, numerals, short⟩
    obtain ⟨before, hours, minutes, seconds, after, split, startBlank, endBlank, isHours, isMinutes,
      isSeconds⟩ := trimmed_numerals_eq_iff.1 numerals
    exact ⟨before, hours, minutes, seconds, after, h, m, s, split, startBlank, endBlank, isHours,
      isMinutes, isSeconds, short⟩
  · rintro ⟨before, hours, minutes, seconds, after, h, m, s, split, startBlank, endBlank, isHours,
      isMinutes, isSeconds, short⟩
    exact ⟨h, m, s, trimmed_numerals_eq_iff.2 ⟨before, hours, minutes, seconds, after, split,
      startBlank, endBlank, isHours, isMinutes, isSeconds⟩, short⟩

/-- A number that fits into a word of 32 bits. -/
def word? (n : Nat) : Option Nat :=
  if n ≤ 4294967295 then some n else none

/-- The seconds of some hours, minutes and seconds, computed in words. What is added to the hours is
not checked, and there is no result where it does not fit; the hours are, and where they or the sum do
not fit there is no duration. -/
def total? (hours minutes seconds : Nat) : Option (Option Nat) :=
  match word? (hours * 3600) with
  | none => some none
  | some long => do
      let sixties ← word? (minutes * 60)
      let rest ← word? (sixties + seconds)
      return word? (long + rest)

/-- Reading in words of 32 bits. -/
def words? (text : List Char) : Option (Option Nat) :=
  match (splitOn ':' (trim text)).map (numeral? 4294967295) with
  | [some hours, some minutes, some seconds] =>
      if minutes < 60 ∧ seconds < 60 then total? hours minutes seconds else some none
  | _ => some none

theorem total?_eq (shortMinutes : m < 60) (shortSeconds : s < 60) :
    total? h m s = some (word? (3600 * h + 60 * m + s)) := by
  have sixties : word? (m * 60) = some (m * 60) := if_pos (by omega)
  have rest : word? (m * 60 + s) = some (m * 60 + s) := if_pos (by omega)
  have sum : h * 3600 + (m * 60 + s) = 3600 * h + 60 * m + s := by omega
  rw [total?, sixties]
  by_cases fits : h * 3600 ≤ 4294967295
  · have long : word? (h * 3600) = some (h * 3600) := if_pos fits
    simp only [long, rest, sum, Option.bind_eq_bind, Option.bind_some, Option.pure_def]
  · have long : word? (h * 3600) = none := if_neg fits
    have longer : word? (3600 * h + 60 * m + s) = none := if_neg (by omega)
    simp only [long, longer]

theorem words?_eq (text : List Char) : words? text = some ((read? text).map seconds) := by
  rw [words?]
  split
  · next h m s numerals =>
      simp only [read?, numerals]
      by_cases short : m < 60 ∧ s < 60
      · rw [if_pos short, total?_eq short.1 short.2, word?]
        by_cases fits : 3600 * h + 60 * m + s ≤ 4294967295
        · simp [short, fits]
        · simp [fits]
      · simp [short, ← and_assoc]
  · next others =>
      have nothing : read? text = none := by
        refine Option.eq_none_iff_forall_ne_some.2 fun d read => ?_
        obtain ⟨h, m, s, numerals, -⟩ := read?_eq_some.1 read
        exact others h m s numerals
      rw [nothing, Option.map_none]

theorem parse_eq_ok_iff {text : String} : parse text = .ok d ↔ IsTextOf text.toList d := by
  rw [parse, ← read?_eq_some_iff]
  cases read? text.toList <;> simp

/-- What is written of a duration and what is read. The text that is written has two digits or more
for the hours, two for the minutes and two for the seconds, and it is read as the duration; a text is
read exactly when it is a text of a duration, else it is the error; and what is computed in words of
32 bits is what is read, where nothing that is not checked overflows. -/
theorem text_exact :
    (∀ d : Duration, IsClock d.clock.toList d ∧ parse d.clock = .ok d) ∧
      (∀ text d, parse text = .ok d ↔ IsTextOf text.toList d) ∧
      (∀ text fault, parse text = .error fault ↔
        (∀ d, ¬IsTextOf text.toList d) ∧ fault = ⟨text⟩) ∧
      ∀ text : String, words? text.toList = some ((read? text.toList).map seconds) := by
  have clock (d : Duration) : IsClock d.clock.toList d := by
    rw [Duration.clock, String.toList_ofList]
    exact isClock_clockChars d
  refine ⟨fun d => ⟨clock d, parse_eq_ok_iff.2 (clock d).isTextOf⟩, fun _ _ => parse_eq_ok_iff,
    fun text fault => ?_, fun text => words?_eq text.toList⟩
  simp only [← parse_eq_ok_iff]
  rw [parse]
  cases read? text.toList <;> simp [eq_comm]

example : (parse " +01:2:0003 ").toOption.map seconds = some 3723 := by decide +kernel

/-- The longest duration ends within an hour, and one second more is none. -/
example : (parse "1193046:28:15").toOption.map seconds = some 4294967295 ∧
    (parse "1193046:28:16").toOption.isNone = true := by decide +kernel

end JourneyPlanner.Duration
