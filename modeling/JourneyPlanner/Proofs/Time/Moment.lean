import JourneyPlanner.Itinerary

/-!
Date-times as moments on one axis. The times that are shown count whole seconds from the midnight of
the search date, so they are ordered as the times of the search are.
-/

namespace JourneyPlanner

/-- The seconds since the start of day zero; a part of a second does not count. -/
def DateTime.moment (t : DateTime) : Int :=
  t.date.day * secondsPerDay + t.second

theorem SearchTime.moment_toDateTime (t : SearchTime) (date : Date) :
    (t.toDateTime date).moment = date.day * secondsPerDay + t.seconds := by
  simp only [DateTime.moment, toDateTime, Date.day_addDays, secondsPerDay]
  omega

/-- Whether an itinerary is at least as good as another one, on all that a profile compares. -/
def Itinerary.AtLeastAsGood (p : Profile) (i k : Itinerary) : Prop :=
  i.arrival.moment ≤ k.arrival.moment ∧ k.departure.moment ≤ i.departure.moment ∧
    i.nbOfTransfers ≤ k.nbOfTransfers ∧ (p = .multiCriteria → i.cost.units ≤ k.cost.units)

end JourneyPlanner
