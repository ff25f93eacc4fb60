import JourneyPlanner.Time.Date

/-!
The range of dates that the services of a network cover. Its days are numbered from zero, and the
number of a day and its date determine each other. A calendar has less than ten thousand days.
-/

namespace JourneyPlanner

def maxCalendarDays : Nat := 10000

structure Calendar where
  first : Date
  last : Date
  first_le_last : first ≤ last
deriving DecidableEq

namespace Calendar

/-- Number of days from the first date to the last one, both included. -/
def span (first last : Date) : Int :=
  last.daysSince first + 1

/-- None when the dates are not in order, or are too far apart. -/
def ofDates? (first last : Date) : Option Calendar :=
  if h : first ≤ last ∧ span first last < maxCalendarDays then some ⟨first, last, h.1⟩ else none

def nbOfDays (c : Calendar) : Nat :=
  (span c.first c.last).toNat

def contains (c : Calendar) (d : Date) : Bool :=
  c.first ≤ d && d ≤ c.last

/-- The numbers of the days, in order. -/
def days (c : Calendar) : List Nat :=
  List.range c.nbOfDays

def dateOf (c : Calendar) (day : Nat) : Date :=
  c.first.addDays day

/-- The number of a date; none when the calendar does not have it. -/
def dayOf? (c : Calendar) (d : Date) : Option Nat :=
  if c.contains d then some (d.daysSince c.first).toNat else none

theorem contains_iff (c : Calendar) (d : Date) :
    c.contains d = true ↔ c.first.day ≤ d.day ∧ d.day ≤ c.last.day := by
  simp only [contains, Bool.and_eq_true, decide_eq_true_eq]
  exact Iff.rfl

end Calendar

end JourneyPlanner
