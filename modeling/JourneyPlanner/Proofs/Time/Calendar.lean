import JourneyPlanner.Time.Calendar

/-!
A calendar numbers its days in their order, from zero on, and its numbers and its dates determine
each other. There is a calendar for any two dates in order with less than ten thousand days from the
first to the last one, both counted; with ten thousand days there is none any more.
-/

namespace JourneyPlanner.Calendar

variable {c : Calendar} {d e : Date} {day other : Nat}

theorem dayOf?_eq_some_iff : c.dayOf? d = some day ↔
    c.first.day + day = d.day ∧ d.day ≤ c.last.day := by
  simp only [dayOf?, Option.ite_none_right_eq_some, contains_iff, Option.some.injEq,
    Date.daysSince]
  omega

theorem mem_days : day ∈ c.days ↔ c.first.day + day ≤ c.last.day := by
  have inOrder : c.first.day ≤ c.last.day := c.first_le_last
  simp only [days, List.mem_range, nbOfDays, span, Date.daysSince]
  omega

theorem dateOf_of_dayOf? (h : c.dayOf? d = some day) : c.dateOf day = d :=
  Date.ext (dayOf?_eq_some_iff.1 h).1

theorem dateOf_inj (h : c.dateOf day = c.dateOf other) : day = other :=
  Int.ofNat.inj (Int.add_left_cancel (congrArg Date.day h))

theorem dayOf?_dateOf (h : day ∈ c.days) : c.dayOf? (c.dateOf day) = some day :=
  dayOf?_eq_some_iff.2 ⟨rfl, mem_days.1 h⟩

theorem mem_days_of_dayOf? (h : c.dayOf? d = some day) : day ∈ c.days := by
  obtain ⟨same, within⟩ := dayOf?_eq_some_iff.1 h
  exact mem_days.2 (by omega)

theorem eq_of_dayOf? (hd : c.dayOf? d = some day) (he : c.dayOf? e = some day) : d = e :=
  (dateOf_of_dayOf? hd).symm.trans (dateOf_of_dayOf? he)

theorem dayOf?_lt (h : c.dayOf? d = some day) : day < c.nbOfDays :=
  List.mem_range.1 (mem_days_of_dayOf? h)

theorem ofDates?_eq_some_iff {first last : Date} : ofDates? first last = some c ↔
    c.first = first ∧ c.last = last ∧ span first last < maxCalendarDays := by
  simp only [ofDates?, Option.dite_none_right_eq_some, Option.some.injEq]
  constructor
  · rintro ⟨⟨-, short⟩, rfl⟩
    exact ⟨rfl, rfl, short⟩
  · rintro ⟨rfl, rfl, short⟩
    exact ⟨⟨c.first_le_last, short⟩, rfl⟩

theorem ofDates?_eq_none_iff {first last : Date} : ofDates? first last = none ↔
    last < first ∨ maxCalendarDays ≤ span first last := by
  rw [ofDates?, dite_eq_right_iff]
  simp only [reduceCtorEq, imp_false, Classical.not_and_iff_not_or_not]
  exact or_congr Int.not_le Int.not_lt

/-- The numbers of a calendar stand for the dates from one to another, in order, and for no others.
They are fewer than ten thousand, so that each has sixteen bits at most. -/
structure IsNumbering (c : Calendar) (first last : Date) : Prop where
  inOrder : c.days.Pairwise (· < ·)
  length : (c.days.length : Int) = span first last
  short : ∀ day ∈ c.days, day < 65536
  dateOf_mem : ∀ day ∈ c.days, first ≤ c.dateOf day ∧ c.dateOf day ≤ last
  dayOf_mem : ∀ d, first ≤ d → d ≤ last → ∃ day ∈ c.days, c.dayOf? d = some day
  outside : ∀ d, c.dayOf? d = none ↔ d < first ∨ last < d
  dayOf_dateOf : ∀ day ∈ c.days, c.dayOf? (c.dateOf day) = some day
  dateOf_dayOf : ∀ d day, c.dayOf? d = some day → c.dateOf day = d
  dateOf_lt : ∀ day ∈ c.days, ∀ other ∈ c.days, c.dateOf day < c.dateOf other ↔ day < other
  dayOf_lt : ∀ d e day other, c.dayOf? d = some day → c.dayOf? e = some other →
    (day < other ↔ d < e)

theorem dateOf_lt_iff : c.dateOf day < c.dateOf other ↔ day < other :=
  (Int.add_lt_add_iff_left c.first.day).trans Int.ofNat_lt

theorem dayOf?_eq_none_iff : c.dayOf? d = none ↔ d < c.first ∨ c.last < d := by
  rw [dayOf?, ite_eq_right_iff]
  simp only [reduceCtorEq, imp_false, contains_iff, Classical.not_and_iff_not_or_not]
  exact or_congr Int.not_le Int.not_le

theorem isNumbering (c : Calendar) (short : span c.first c.last < maxCalendarDays) :
    c.IsNumbering c.first c.last := by
  have known {day : Nat} (member : day ∈ c.days) :
      c.first ≤ c.dateOf day ∧ c.dateOf day ≤ c.last := by
    have within := mem_days.1 member
    exact ⟨Int.le_add_of_nonneg_right (Int.natCast_nonneg day), within⟩
  refine ⟨List.pairwise_lt_range, ?_, fun day member => ?_, fun day => known,
    fun d after before => ?_, fun d => dayOf?_eq_none_iff, fun day => dayOf?_dateOf,
    fun d day => dateOf_of_dayOf?, fun day _ other _ => dateOf_lt_iff,
    fun d e day other onDay onOther => ?_⟩
  · have inOrder : c.first.day ≤ c.last.day := c.first_le_last
    simp only [days, List.length_range, nbOfDays, span, Date.daysSince]
    omega
  · have within := mem_days.1 member
    simp only [span, Date.daysSince, maxCalendarDays] at short
    omega
  · obtain ⟨day, onDay⟩ : ∃ day, c.dayOf? d = some day := by
      refine Option.ne_none_iff_exists'.1 fun none => ?_
      rcases dayOf?_eq_none_iff.1 none with early | late
      · exact Int.not_le.2 early after
      · exact Int.not_le.2 late before
    exact ⟨day, mem_days_of_dayOf? onDay, onDay⟩
  · rw [← dateOf_of_dayOf? onDay, ← dateOf_of_dayOf? onOther, dateOf_lt_iff]

/-- There is no calendar just when two dates are not in order, or there are ten thousand days or
more from the first to the last one, both counted. Any other calendar numbers its dates. -/
theorem ofDates?_exact (first last : Date) :
    (ofDates? first last = none ↔ last < first ∨ maxCalendarDays ≤ span first last) ∧
      ∀ c, ofDates? first last = some c →
        c.first = first ∧ c.last = last ∧ c.IsNumbering first last := by
  refine ⟨ofDates?_eq_none_iff, fun c made => ?_⟩
  obtain ⟨rfl, rfl, short⟩ := ofDates?_eq_some_iff.1 made
  exact ⟨rfl, rfl, c.isNumbering short⟩

theorem ofDates?_exact_longest : ∃ c, ofDates? (.ofCivil 2000 1 1) (.ofCivil 2027 5 17) = some c ∧
    c.days.length = 9999 ∧ c.IsNumbering (.ofCivil 2000 1 1) (.ofCivil 2027 5 17) := by
  have span : span (.ofCivil 2000 1 1) (.ofCivil 2027 5 17) = 9999 := by decide
  obtain ⟨refused, accepted⟩ := ofDates?_exact (.ofCivil 2000 1 1) (.ofCivil 2027 5 17)
  obtain ⟨c, made⟩ := Option.ne_none_iff_exists'.1 fun none =>
    absurd (refused.1 none) (by decide)
  obtain ⟨-, -, numbering⟩ := accepted c made
  have length := numbering.length
  rw [span] at length
  exact ⟨c, made, Int.ofNat.inj length, numbering⟩

/-- One day more is ten thousand days, which is not beyond the limit; there is no calendar. -/
theorem not_ofDates?_limit :
    ¬(ofDates? (.ofCivil 2000 1 1) (.ofCivil 2027 5 18) = none ↔
      Date.ofCivil 2027 5 18 < Date.ofCivil 2000 1 1 ∨
        maxCalendarDays < span (.ofCivil 2000 1 1) (.ofCivil 2027 5 18)) := by
  decide

end JourneyPlanner.Calendar
