import JourneyPlanner.Time.Calendar

/-!
Sets of days of a calendar, each stored once. Services that run on the same days share one set, and
whether a service runs on a day is one look-up.
-/

namespace JourneyPlanner

/-- The sets stored so far; the set with index `i` holds the day `d` when its entry `d` is true. -/
structure DaySets where
  nbOfDays : Nat
  sets : Array (Array Bool)

abbrev DaySetIndex := Nat

namespace DaySets

def empty (nbOfDays : Nat) : DaySets :=
  ⟨nbOfDays, #[]⟩

/-- The days of a set of dates, out of the first `nbOfDays` days of the calendar. -/
def flags (nbOfDays : Nat) (dates : List Date) (calendar : Calendar) : Array Bool :=
  dates.foldl (fun flags date => match calendar.dayOf? date with
    | some day => flags.setIfInBounds day true
    | none => flags) (Array.replicate nbOfDays false)

/-- Stores the days of a set of dates, and gives their index; dates outside of the calendar do not
count. -/
def insert (s : DaySets) (dates : List Date) (calendar : Calendar) : DaySetIndex × DaySets :=
  let flags := flags s.nbOfDays dates calendar
  match s.sets.findIdx? (· == flags) with
  | some index => (index, s)
  | none => (s.sets.size, { s with sets := s.sets.push flags })

def contains (s : DaySets) (index : DaySetIndex) (day : Nat) : Bool :=
  ((s.sets.getD index #[])[day]?).getD false

/-- Number of days of a set. -/
def card (s : DaySets) (index : DaySetIndex) : Nat :=
  (s.sets.getD index #[]).count true

end DaySets

end JourneyPlanner
