import JourneyPlanner.Journey.Basic
import JourneyPlanner.Search.Range

/-!
The journeys that a search has found, read off the nodes of its tree. Each journey leaves the origin
at the departure of its arrival, and each walk starts when the leg before it ends.
-/

namespace JourneyPlanner.Journey

open Search

/-- The leg of a node, when the legs before it end at a given time. -/
def legOf (c : Context) (tree : JourneyTree) (time : SearchTime) (index : NodeIndex) : Leg :=
  let node := tree.node index
  match node.step with
  | .access leg => .access leg node.stop time (time + (c.query.access.leg leg).duration)
  | .walk parent footpath duration =>
      .walk footpath (tree.node parent).stop node.stop time (time + duration)
  | .ride _ lineIndex trip boardPosition boardTime debarkPosition =>
      let line := c.timetable.line lineIndex
      .ride line.patternIndex trip.schedule (line.serviceDate trip) boardPosition debarkPosition
        (line.stopAt boardPosition) node.stop boardTime (line.debarkTime trip debarkPosition)

/-- The legs of some nodes that follow each other, then the leg to the destination. -/
def legsFrom (c : Context) (tree : JourneyTree) (egress : Nat) :
    SearchTime → List NodeIndex → List Leg
  | time, [] =>
      let leg := c.query.egress.leg egress
      [.egress egress leg.stop time (time + leg.duration)]
  | time, index :: rest =>
      let leg := legOf c tree time index
      leg :: legsFrom c tree egress leg.arrival rest

def ofArrived (c : Context) (tree : JourneyTree) (arrived : Arrived × ArrivalCriteria) :
    Journey where
  legs := legsFrom c tree arrived.1.egress arrived.2.departure (tree.lineage arrived.1.node)
  departure := arrived.2.departure
  arrival := arrived.2.arrival
  nbOfTransfers := arrived.2.nbOfTransfers
  cost := arrived.2.cost

/-- The sound journeys among those that arrived, in their order. -/
def extract (c : Context) (s : SearchState) (walkOnly : Bool) : List Journey :=
  (s.arrived.map (ofArrived c s.tree)).filter (isSound walkOnly)

end JourneyPlanner.Journey
