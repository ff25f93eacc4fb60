import JourneyPlanner.Search.Query
import JourneyPlanner.Search.State
import JourneyPlanner.Timetable.Touched

/-!
The search by rounds. For each departure time, the latest first, round zero walks from the origin to
the stops, with at most one footpath more; each further round rides the lines that can be boarded
where the round before has arrived, and walks one footpath from the stops where somebody gets off.
An arrival is kept only when no arrival at its stop with as many vehicles or fewer is at least as
good. The arrivals of the later departure times are kept, so an earlier departure counts only where
it improves on them. The clock is looked at before each departure time and before each round, and a
search whose time is over ends with what it has found.
-/

namespace JourneyPlanner.Search

/-- What stays the same during a search. -/
structure Context where
  timetable : Timetable
  profile : Profile
  query : Query

/-- Walks from the origin to the stop of a leg. -/
def depart (c : Context) (departure latest : SearchTime) (s : SearchState)
    (leg : StreetLeg × Nat) : SearchState :=
  let arrival := departure + leg.1.duration
  if latest < arrival then s
  else
    let criteria : Criteria := ⟨arrival, 0, c.query.legCost leg.1⟩
    if s.isCovered c.profile leg.1.stop 0 criteria then s
    else
      let node := JourneyTree.accessNode leg.2 leg.1.stop criteria departure s.iteration
      (s.pushNode node).insert c.profile leg.1.stop 0 s.tree.size criteria

/-- The criteria after a walk. -/
def walkCriteria (c : Context) (criteria : Criteria) (walk : Walk) : Criteria where
  arrival := criteria.arrival + walk.duration
  nbOfTrips := criteria.nbOfTrips
  cost := criteria.cost + walk.cost.getD (c.query.costs.walk walk.duration)

/-- Walks from the stop of a label to another stop. -/
def walk (c : Context) (latest : SearchTime) (round : Nat) (label : NodeIndex × Criteria)
    (s : SearchState) (walk : Walk) : SearchState :=
  let criteria := walkCriteria c label.2 walk
  if latest < criteria.arrival then s
  else if s.isCovered c.profile walk.target round criteria then s
  else
    let node := s.tree.walkNode label.1 walk.footpath walk.duration walk.target criteria
      s.iteration
    (s.pushNode node).insert c.profile walk.target round s.tree.size criteria

/-- Walks from a stop, for each of some of its labels. -/
def walkAll (c : Context) (latest : SearchTime) (round : Nat) (stop : StopIndex)
    (labels : StopFront) (s : SearchState) : SearchState :=
  labels.foldl (fun s label =>
    (c.timetable.walksFrom stop).foldl (walk c latest round label) s) s

/-- The labels of a stop that came straight from the origin with this departure time. -/
def accessLabels (s : SearchState) (stop : StopIndex) : StopFront :=
  ((s.round 0).front stop).filter fun label =>
    s.tree.iteration label.1 == s.iteration && (s.tree.node label.1).step.isAccess

/-- The labels of a stop that came by vehicle in a round with this departure time. -/
def transitLabels (s : SearchState) (round : Nat) (stop : StopIndex) : StopFront :=
  ((s.round round).transitFront stop).filter fun label =>
    s.tree.iteration label.1 == s.iteration

/-- The labels of a stop in a round that have this departure time. -/
def currentLabels (s : SearchState) (round : Nat) (stop : StopIndex) : StopFront :=
  ((s.round round).front stop).filter fun label => s.tree.iteration label.1 == s.iteration

def walkFromAccess (c : Context) (latest : SearchTime) (s : SearchState) : SearchState :=
  (s.round 0).stops.foldl (fun s stop => walkAll c latest 0 stop (accessLabels s stop) s) s

def walkFromTransit (c : Context) (latest : SearchTime) (round : Nat) (s : SearchState) :
    SearchState :=
  (s.round round).transitStops.foldl (fun s stop =>
    walkAll c latest round stop (transitLabels s round stop) s) s

/-- A journey on a vehicle. -/
structure Onboard where
  parent : NodeIndex
  trip : TripOnDay
  boardPosition : Nat
  boardTime : SearchTime
  departure : SearchTime
  nbOfTrips : Nat
  /-- The cost when the vehicle leaves the position where it was boarded. -/
  boardCost : Cost
deriving Inhabited

/-- The criteria of getting off at a position. -/
def Onboard.criteriaAt (o : Onboard) (line : Line) (position : Nat) (costs : CostParams) :
    Criteria :=
  let arrival := line.debarkTime o.trip position
  ⟨arrival, o.nbOfTrips, o.boardCost + costs.transit (arrival.sinceOrZero o.boardTime)⟩

/-- Boards the earliest vehicle after a label, at a position of a line. The first vehicle of a
journey is not waited for: the journey leaves the origin that much later. -/
def board (c : Context) (line : Line) (position : Nat) (tree : JourneyTree)
    (label : NodeIndex × Criteria) : Option Onboard :=
  match line.earliestTrip (c.query.readyTime label.2) position with
  | none => none
  | some (trip, boardTime) =>
      let departure := (tree.node label.1).departure
      let boarding := label.2.cost + c.query.costs.boardingAfter label.2.nbOfTrips
      some {
        parent := label.1
        trip := trip
        boardPosition := position
        boardTime := boardTime
        departure :=
          if 0 < label.2.nbOfTrips then departure
          else boardTime - label.2.arrival.sinceOrZero departure
        nbOfTrips := label.2.nbOfTrips + 1
        boardCost :=
          if 0 < label.2.nbOfTrips then
            boarding + c.query.costs.wait (boardTime.sinceOrZero label.2.arrival)
          else boarding }

/-- Those on the vehicles of a line between a position and the next one, with the criteria of
getting off there: those that board first, then those that stay. Where no trip overtakes another
one only the best ones matter. -/
def carry (c : Context) (round : Nat) (line : Line) (position : Nat) (s : SearchState)
    (onboard : Front Onboard Criteria) : Front Onboard Criteria :=
  let boarding :=
    (currentLabels s (round - 1) (line.stopAt position)).filterMap (board c line position s.tree)
  let candidates := (boarding ++ onboard.map (·.1)).map fun o =>
    (o, o.criteriaAt line (position + 1) c.query.costs)
  if line.pattern.fifo then Front.ofCandidates c.profile.atLeastAsGood candidates else candidates

/-- A journey that leaves the stop of a node for the destination. -/
def finish (c : Context) (latest departure : SearchTime) (nbOfTransfers : Nat) (node : NodeIndex)
    (stop : StopIndex) (criteria : Criteria) (s : SearchState) : SearchState :=
  match c.query.egress.atStop? stop with
  | none => s
  | some (index, egress) =>
      let arrival := criteria.arrival + egress.duration
      if latest < arrival then s
      else s.arrive c.profile ⟨node, index⟩
        ⟨departure, arrival, nbOfTransfers, criteria.cost + c.query.legCost egress⟩

/-- Gets off at a position. -/
def debark (c : Context) (latest : SearchTime) (round : Nat) (line : LineIndex) (position : Nat)
    (stop : StopIndex) (s : SearchState) (o : Onboard × Criteria) : SearchState :=
  if latest < o.2.arrival then s
  else if s.isCoveredByTransit c.profile stop round o.2 then s
  else
    let node := s.tree.size
    let s := s.pushNode ⟨stop, o.2, o.1.departure, s.iteration,
      .ride o.1.parent line o.1.trip o.1.boardPosition o.1.boardTime position⟩
    let s := s.insertTransit c.profile stop round node o.2
    let s := if s.isCovered c.profile stop round o.2 then s
      else s.insert c.profile stop round node o.2
    finish c latest o.1.departure (o.2.nbOfTrips - 1) node stop o.2 s

/-- What happens at a position of a line: those on board may get off, and then labels of the round
before may board. -/
def visit (c : Context) (latest : SearchTime) (round : Nat) (index : LineIndex)
    (ride : Front Onboard Criteria × SearchState) (position : Nat) :
    Front Onboard Criteria × SearchState :=
  let line := c.timetable.line index
  let s := ride.1.foldl (debark c latest round index position (line.stopAt position)) ride.2
  if position + 1 = line.nbOfPositions then ([], s)
  else (carry c round line position s ride.1, s)

/-- Rides a line from a position to its end. -/
def ride (c : Context) (latest : SearchTime) (round : Nat) (s : SearchState)
    (entry : LineIndex × Nat) : SearchState :=
  let positions := List.range' entry.2 ((c.timetable.line entry.1).nbOfPositions - entry.2)
  (positions.foldl (visit c latest round entry.1) ([], { s with nbOfScans := s.nbOfScans + 1 })).2

/-- The lines to ride after the arrivals of a round. -/
def linesToRide (c : Context) (s : SearchState) (round : Nat) : List (LineIndex × Nat) :=
  (c.timetable.touch (s.round round).stops.toList .empty).entries

/-- Rides the lines in a round, then walks. -/
def runRound (c : Context) (latest : SearchTime) (round : Nat) (lines : List (LineIndex × Nat))
    (s : SearchState) : SearchState :=
  walkFromTransit c latest round
    (lines.foldl (ride c latest round) { s with lastRound := max s.lastRound round })

structure Outcome where
  state : SearchState
  /-- Whether the time allowed ended before the search. -/
  truncated : Bool

/-- What each look at the clock finds, by the number of the iteration, counted from one, and of the
round; the one before an iteration has round zero. -/
abbrev Checks := Nat → Nat → Bool

/-- The time is never over. -/
def Checks.never : Checks := fun _ _ => false

/-- Runs `left` rounds after a given one, as long as there is something to ride and the time is not
over. -/
def runRounds (c : Context) (latest : SearchTime) (isOver : Checks) :
    (left round : Nat) → SearchState → Outcome
  | 0, _, s => ⟨s, false⟩
  | left + 1, round, s =>
      if isOver s.iteration (round + 1) then ⟨s, true⟩
      else
        match linesToRide c s round with
        | [] => ⟨s, false⟩
        | lines => runRounds c latest isOver left (round + 1) (runRound c latest (round + 1) lines s)

/-- The journeys without any vehicle. -/
def arriveOnFoot (c : Context) (latest : SearchTime) (s : SearchState) : SearchState :=
  (s.round 0).stops.foldl (fun s stop =>
    (currentLabels s 0 stop).foldl (fun s label =>
      finish c latest (s.tree.node label.1).departure 0 label.1 stop label.2 s) s) s

/-- The latest arrival of journeys that start with a departure time. -/
def latestArrival (c : Context) (departure : SearchTime) : SearchTime :=
  departure + c.query.maxDuration

/-- Round zero for a departure time. -/
def runAccess (c : Context) (departure : SearchTime) (s : SearchState) : SearchState :=
  let latest := latestArrival c departure
  walkFromAccess c latest
    (c.query.access.legs.toList.zipIdx.foldl (depart c departure latest) s.nextIteration)

/-- The rounds for a departure time. -/
def runIteration (c : Context) (isOver : Checks) (s : SearchState) (departure : SearchTime) :
    Outcome :=
  let latest := latestArrival c departure
  let s := runAccess c departure s
  if c.query.maxBoardings = 0 then ⟨arriveOnFoot c latest s, false⟩
  else runRounds c latest isOver c.query.maxBoardings 0 s

/-- Tries some departure times one after the other, until the time is over. -/
def runAll (c : Context) (isOver : Checks) : List SearchTime → SearchState → Outcome
  | [], s => ⟨s, false⟩
  | departure :: rest, s =>
      if isOver (s.iteration + 1) 0 then ⟨s, true⟩
      else
        let outcome := runIteration c isOver s departure
        if outcome.truncated then outcome else runAll c isOver rest outcome.state

/-- Searches all the departure times. There is nothing to search without a way to the first stop or
from the last one. -/
def run (c : Context) (isOver : Checks := .never) : Outcome :=
  let start := SearchState.initial c.timetable.nbOfStops c.query.maxBoardings
  if c.query.access.isEmpty || c.query.egress.isEmpty then ⟨start, false⟩
  else
    runAll c (fun iteration round => c.query.isLate || isOver iteration round)
      c.query.departureTimes start

structure Stats where
  nbOfIterations : Nat
  nbOfRounds : Nat
  nbOfScans : Nat
  treeSize : Nat
deriving DecidableEq

def Outcome.stats (o : Outcome) : Stats :=
  ⟨o.state.iteration, o.state.lastRound, o.state.nbOfScans, o.state.tree.size⟩

end JourneyPlanner.Search
