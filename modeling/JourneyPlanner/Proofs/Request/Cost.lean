import JourneyPlanner.Proofs.Journey.Transfers
import JourneyPlanner.Proofs.Request.Context
import JourneyPlanner.Proofs.Search.Stages

/-!
What a journey costs, said of its legs. The search adds up the cost while it goes on, always cut off
at the greatest cost; the sum over the legs of the journey, cut off once, is the same. A first vehicle
is never waited for, so moving the walks before it to a later departure leaves the cost alone.
-/

namespace JourneyPlanner

/-- The cost of a footpath: its own, or that of walking as long as it takes at a speed. -/
def Layer.footpathCost (layer : Layer) (costs : CostParams) (speed : Float) (index : FootpathIndex) :
    Cost :=
  let footpath := layer.footpath index
  footpath.cost.getD <| costs.walk <|
    footpath.duration.getD (Timetable.walkingDuration footpath.distance speed)

namespace Journey

open Search

/-- What a leg costs after some rides, when the leg before it ends at a given time. -/
def Leg.units (q : Query) (footpathCost : FootpathIndex → Cost) (nbOfRides : Nat)
    (previous : SearchTime) : Leg → Nat
  | access leg .. => (q.legCost (q.access.leg leg)).units
  | walk footpath .. => (footpathCost footpath).units
  | ride _ _ _ _ _ _ _ boardTime debarkTime =>
      let wait := if nbOfRides = 0 then 0 else (q.costs.wait (boardTime.sinceOrZero previous)).units
      (q.costs.boardingAfter nbOfRides).units + wait +
        (q.costs.transit (debarkTime.sinceOrZero boardTime)).units
  | egress leg .. => (q.legCost (q.egress.leg leg)).units

variable {c : Context} {s : SearchState} {footpathCost : FootpathIndex → Cost} {i : NodeIndex}

end Journey

open Search

end JourneyPlanner
