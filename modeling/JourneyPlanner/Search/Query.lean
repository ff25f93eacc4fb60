import JourneyPlanner.Search.Criteria
import JourneyPlanner.Street

/-!
A search for journeys that leave within a range of departure times.
-/

namespace JourneyPlanner

structure Query where
  access : StreetLegs
  egress : StreetLegs
  earliestDeparture : SearchTime
  window : Duration
  step : Duration
  /-- Number of boardings allowed. -/
  maxBoardings : Nat
  maxDuration : Duration
  minTransferTime : Duration
  costs : CostParams
  /-- Whether the time allowed for the search is over before it starts. -/
  isLate : Bool := false

namespace Query

/-- The departure times to try, the latest first. Without boardings a later departure leads to the
same journeys, so there is only one. -/
def departureTimes (q : Query) : List SearchTime :=
  if q.maxBoardings = 0 ∨ q.step.isZero then [q.earliestDeparture]
  else
    let count := max ((q.window.seconds + q.step.seconds - 1) / q.step.seconds) 1
    (List.range count).reverse.map fun index =>
      q.earliestDeparture + Duration.ofSeconds (index * q.step.seconds)

/-- The cost of a walk between a stop and the origin or the destination. -/
def legCost (q : Query) (leg : StreetLeg) : Cost :=
  leg.cost.getD (q.costs.walk leg.duration)

/-- When a label can board: after the transfer time, if it has been on a vehicle. -/
def readyTime (q : Query) (criteria : Criteria) : SearchTime :=
  if 0 < criteria.nbOfTrips then criteria.arrival + q.minTransferTime else criteria.arrival

end Query

end JourneyPlanner
