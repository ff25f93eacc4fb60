import JourneyPlanner.Proofs.Search.Labels
import Mathlib.Logic.Relation

/-!
All that a search ever does, said once. A node follows from a tree by one of three rules: a walk
from the origin, a walk from a stop, or a ride. A move of a round puts such a node into the tree and
its label into the fronts, or lets a node arrive at the destination; a new label is never covered
when it is put in. What holds of the states of a search is proved for each move.
-/

namespace JourneyPlanner

namespace Step

def isWalk : Step → Bool
  | walk .. => true
  | _ => false

theorem isRide_eq_false_of_isWalk {step : Step} (h : step.isWalk = true) : step.isRide = false := by
  cases step with
  | walk => rfl
  | access => cases h
  | ride => cases h

theorem isAccess_eq_false_of_isWalk {step : Step} (h : step.isWalk = true) :
    step.isAccess = false := by
  cases step with
  | walk => rfl
  | access => cases h
  | ride => cases h

end Step

namespace JourneyTree

/-- The first nodes of the second tree are those of the first one. -/
structure Extends (t u : JourneyTree) : Prop where
  size_le : t.size ≤ u.size
  node_eq : ∀ i < t.size, u.node i = t.node i

namespace Extends

theorem refl (t : JourneyTree) : t.Extends t :=
  ⟨Nat.le_refl _, fun _ _ => rfl⟩

theorem trans {t u v : JourneyTree} (tu : t.Extends u) (uv : u.Extends v) : t.Extends v := by
  refine ⟨Nat.le_trans tu.size_le uv.size_le, fun i older => ?_⟩
  rw [uv.node_eq i (Nat.lt_of_lt_of_le older tu.size_le), tu.node_eq i older]

theorem push (t : JourneyTree) (node : Node) : t.Extends (t.push node) :=
  ⟨by simp, fun _ older => node_push_of_lt older⟩

end Extends

end JourneyTree

namespace SearchState

/-- Puts a node into the tree and its label into the front of its stop. -/
def reach (p : Profile) (s : SearchState) (round : Nat) (node : Node) : SearchState :=
  (s.pushNode node).insert p node.stop round s.tree.size node.criteria

/-- Puts a node into the tree and its label into the front of the arrivals by vehicle, and into the
front of all arrivals when no arrival there is at least as good. -/
def alight (p : Profile) (s : SearchState) (round : Nat) (node : Node) : SearchState :=
  let t := (s.pushNode node).insertTransit p node.stop round s.tree.size node.criteria
  if t.isCovered p node.stop round node.criteria then t
  else t.insert p node.stop round s.tree.size node.criteria

end SearchState

namespace Search

/-- The departure time of an iteration; the first iteration is number one. -/
def departureOf (c : Context) (iteration : Nat) : SearchTime :=
  c.query.departureTimes.getD (iteration - 1) default

/-- The latest arrival in an iteration. -/
def latestOf (c : Context) (iteration : Nat) : SearchTime :=
  latestArrival c (departureOf c iteration)

/-- The node of getting off a vehicle at a position. -/
def rideNode (c : Context) (line : LineIndex) (iteration : Nat) (o : Onboard) (position : Nat) :
    Node where
  stop := (c.timetable.line line).stopAt position
  criteria := o.criteriaAt (c.timetable.line line) position c.query.costs
  departure := o.departure
  iteration := iteration
  step := .ride o.parent line o.trip o.boardPosition o.boardTime position

/-- The rules by which a node continues the nodes before `bound`. Nobody walks twice in a row. -/
inductive Follows (c : Context) (tree : JourneyTree) (bound : NodeIndex) : Node → Prop
  | access {index : Nat} {leg : StreetLeg} {iteration : Nat}
      (known : c.query.access.legs[index]? = some leg)
      (inTime : departureOf c iteration + leg.duration ≤ latestOf c iteration) :
      Follows c tree bound (JourneyTree.accessNode index leg.stop
        ⟨departureOf c iteration + leg.duration, 0, c.query.legCost leg⟩
        (departureOf c iteration) iteration)
  | walk {parent : NodeIndex} {walk : Walk} (older : parent < bound)
      (rested : (tree.node parent).step.isWalk = false)
      (known : walk ∈ c.timetable.walksFrom (tree.node parent).stop)
      (inTime : (walkCriteria c (tree.node parent).criteria walk).arrival ≤
        latestOf c (tree.iteration parent)) :
      Follows c tree bound (tree.walkNode parent walk.footpath walk.duration walk.target
        (walkCriteria c (tree.node parent).criteria walk) (tree.iteration parent))
  | ride {line : LineIndex} {o : Onboard} {position : Nat} (older : o.parent < bound)
      (boarded : board c (c.timetable.line line) o.boardPosition tree
        (o.parent, (tree.node o.parent).criteria) = some o)
      (atStop : (c.timetable.line line).stopAt o.boardPosition = (tree.node o.parent).stop)
      (ahead : o.boardPosition < position)
      (inside : position < (c.timetable.line line).nbOfPositions)
      (inTime : (o.criteriaAt (c.timetable.line line) position c.query.costs).arrival ≤
        latestOf c (tree.iteration o.parent)) :
      Follows c tree bound (rideNode c line (tree.iteration o.parent) o position)

/-- The arrival at the destination by a leg from the stop of a node. -/
def arrivalBy (c : Context) (leg : StreetLeg) (node : Node) : ArrivalCriteria where
  departure := node.departure
  arrival := node.criteria.arrival + leg.duration
  nbOfTransfers := node.criteria.nbOfTrips - 1
  cost := node.criteria.cost + c.query.legCost leg

/-- A node leads to the destination. One that was not reached by vehicle does so only in a search
without boardings. -/
structure IsArrival (c : Context) (tree : JourneyTree) (arrived : Arrived × ArrivalCriteria)
    (leg : StreetLeg) : Prop where
  older : arrived.1.node < tree.size
  atStop : c.query.egress.atStop? (tree.node arrived.1.node).stop = some (arrived.1.egress, leg)
  criteria_eq : arrived.2 = arrivalBy c leg (tree.node arrived.1.node)
  inTime : arrived.2.arrival ≤ latestOf c (tree.iteration arrived.1.node)
  byVehicle : (tree.node arrived.1.node).step.isRide = true ∨ c.query.maxBoardings = 0

/-- What a round may do to a state. -/
inductive Move (c : Context) (round : Nat) (s : SearchState) : SearchState → Prop
  | reach {node : Node} (follows : Follows c s.tree s.tree.size node)
      (onFoot : node.step.isRide = false) (now : node.iteration = s.iteration)
      (trips : node.criteria.nbOfTrips = round)
      (uncovered : s.isCovered c.profile node.stop round node.criteria = false) :
      Move c round s (s.reach c.profile round node)
  | alight {node : Node} (follows : Follows c s.tree s.tree.size node)
      (byVehicle : node.step.isRide = true) (now : node.iteration = s.iteration)
      (trips : node.criteria.nbOfTrips = round) (allowed : round ≤ c.query.maxBoardings)
      (uncovered : s.isCoveredByTransit c.profile node.stop round node.criteria = false) :
      Move c round s (s.alight c.profile round node)
  | arrive {arrived : Arrived} {criteria : ArrivalCriteria} {leg : StreetLeg}
      (arrival : IsArrival c s.tree (arrived, criteria) leg)
      (now : s.tree.iteration arrived.node = s.iteration)
      (trips : (s.tree.node arrived.node).criteria.nbOfTrips = round) :
      Move c round s (s.arrive c.profile arrived criteria)
  | count (lastRound nbOfScans : Nat) :
      Move c round s { s with lastRound := lastRound, nbOfScans := nbOfScans }

/-- Any number of moves of the rounds from `first` to `last`. -/
abbrev Moves (c : Context) (first last : Nat) : SearchState → SearchState → Prop :=
  Relation.ReflTransGen fun s t => ∃ round, (first ≤ round ∧ round ≤ last) ∧ Move c round s t

theorem Move.moves {c : Context} {round : Nat} {s t : SearchState} (h : Move c round s t) :
    Moves c round round s t :=
  .single ⟨round, ⟨Nat.le_refl _, Nat.le_refl _⟩, h⟩

end Search

end JourneyPlanner
