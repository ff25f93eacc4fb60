import JourneyPlanner.Journey.Basic

/-!
Among journeys that board the same patterns in the same order only those are worth showing that no
other one of them replaces, by leaving no earlier and arriving no later. Of equal journeys the first
one is shown. They are shown by arrival, then the latest departure first, then by number of
transfers and by cost.
-/

namespace JourneyPlanner.Journey

/-- Whether one journey can stand for another one. -/
def replaces (j k : Journey) : Bool :=
  j.hasSamePatterns k && k.departure ≤ j.departure && j.arrival ≤ k.arrival

/-- Adds a journey that no kept one replaces, and drops those that it replaces. -/
def keep (kept : List Journey) (j : Journey) : List Journey :=
  if kept.any (·.replaces j) then kept
  else kept.filter (fun other => !j.replaces other) ++ [j]

/-- The order in which journeys are shown. -/
def shownBefore (j k : Journey) : Bool :=
  if j.arrival ≠ k.arrival then j.arrival ≤ k.arrival
  else if j.departure ≠ k.departure then k.departure ≤ j.departure
  else if j.nbOfTransfers ≠ k.nbOfTransfers then j.nbOfTransfers ≤ k.nbOfTransfers
  else j.cost ≤ k.cost

def distinct (journeys : List Journey) : List Journey :=
  (journeys.foldl keep []).mergeSort shownBefore

end JourneyPlanner.Journey
