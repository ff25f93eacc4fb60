import JourneyPlanner.Proofs.Checked.Search
import JourneyPlanner.Proofs.Exact.Nodes

/-!
The search with each time summed in the integers, up to the ride of one line. The times that come up
are sums of the times of nodes that are there, also where the candidate that has them is thrown away
afterwards; so they are near the start of the search day, and each function gives what the search
gives.
-/

namespace JourneyPlanner.Exact

open Search

def depart (c : Context) (departure latest : SearchTime) (s : SearchState)
    (leg : StreetLeg × Nat) : Option SearchState := do
  let arrival ← add departure leg.1.duration
  if latest < arrival then return s
  else
    let criteria : Criteria := ⟨arrival, 0, c.query.legCost leg.1⟩
    if s.isCovered c.profile leg.1.stop 0 criteria then return s
    else
      let node := JourneyTree.accessNode leg.2 leg.1.stop criteria departure s.iteration
      return (s.pushNode node).insert c.profile leg.1.stop 0 s.tree.size criteria

def walkCriteria (c : Context) (criteria : Criteria) (walk : Walk) : Option Criteria := do
  return {
    arrival := ← add criteria.arrival walk.duration
    nbOfTrips := criteria.nbOfTrips
    cost := criteria.cost + walk.cost.getD (c.query.costs.walk walk.duration) }

def walk (c : Context) (latest : SearchTime) (round : Nat) (label : NodeIndex × Criteria)
    (s : SearchState) (walk : Walk) : Option SearchState := do
  let criteria ← walkCriteria c label.2 walk
  if latest < criteria.arrival then return s
  else if s.isCovered c.profile walk.target round criteria then return s
  else
    let node := s.tree.walkNode label.1 walk.footpath walk.duration walk.target criteria
      s.iteration
    return (s.pushNode node).insert c.profile walk.target round s.tree.size criteria

def walkAll (c : Context) (latest : SearchTime) (round : Nat) (stop : StopIndex)
    (labels : StopFront) (s : SearchState) : Option SearchState :=
  labels.foldlM (fun s label =>
    (c.timetable.walksFrom stop).foldlM (walk c latest round label) s) s

def walkFromAccess (c : Context) (latest : SearchTime) (s : SearchState) : Option SearchState :=
  (s.round 0).stops.toList.foldlM (fun s stop =>
    walkAll c latest 0 stop (accessLabels s stop) s) s

def walkFromTransit (c : Context) (latest : SearchTime) (round : Nat) (s : SearchState) :
    Option SearchState :=
  (s.round round).transitStops.toList.foldlM (fun s stop =>
    walkAll c latest round stop (transitLabels s round stop) s) s

def readyTime (q : Query) (criteria : Criteria) : Option SearchTime :=
  if 0 < criteria.nbOfTrips then add criteria.arrival q.minTransferTime
  else some criteria.arrival

/-- Somebody on board, with the criteria of getting off at a position. -/
def rider (line : Line) (position : Nat) (costs : CostParams) (o : Onboard) :
    Option (Onboard × Criteria) := do
  let arrival ← debarkTime line o.trip position
  let ridden ← since arrival o.boardTime
  return (o, ⟨arrival, o.nbOfTrips, o.boardCost + costs.transit ridden⟩)

def board (c : Context) (line : Line) (position : Nat) (tree : JourneyTree)
    (label : NodeIndex × Criteria) : Option (Option Onboard) := do
  match ← earliestTrip line (← readyTime c.query label.2) position with
  | none => return none
  | some (trip, boardTime) =>
      let departure := (tree.node label.1).departure
      let boarding := label.2.cost + c.query.costs.boardingAfter label.2.nbOfTrips
      if 0 < label.2.nbOfTrips then
        let waiting ← since boardTime label.2.arrival
        return some ⟨label.1, trip, position, boardTime, departure, label.2.nbOfTrips + 1,
          boarding + c.query.costs.wait waiting⟩
      else
        let walking ← since label.2.arrival departure
        return some ⟨label.1, trip, position, boardTime, ← sub boardTime walking,
          label.2.nbOfTrips + 1, boarding⟩

def carry (c : Context) (round : Nat) (line : Line) (position : Nat) (s : SearchState)
    (onboard : Front Onboard Criteria) : Option (Front Onboard Criteria) := do
  let boarding ← Checked.filterMap (board c line position s.tree)
    (currentLabels s (round - 1) (line.stopAt position))
  let candidates ← (boarding ++ onboard.map (·.1)).mapM (rider line (position + 1) c.query.costs)
  return if line.pattern.fifo then Front.ofCandidates c.profile.atLeastAsGood candidates
    else candidates

def finish (c : Context) (latest departure : SearchTime) (nbOfTransfers : Nat) (node : NodeIndex)
    (stop : StopIndex) (criteria : Criteria) (s : SearchState) : Option SearchState :=
  match c.query.egress.atStop? stop with
  | none => some s
  | some (index, egress) => do
      let arrival ← add criteria.arrival egress.duration
      return if latest < arrival then s
        else s.arrive c.profile ⟨node, index⟩
          ⟨departure, arrival, nbOfTransfers, criteria.cost + c.query.legCost egress⟩

def debark (c : Context) (latest : SearchTime) (round : Nat) (line : LineIndex) (position : Nat)
    (stop : StopIndex) (s : SearchState) (o : Onboard × Criteria) : Option SearchState :=
  if latest < o.2.arrival then some s
  else if s.isCoveredByTransit c.profile stop round o.2 then some s
  else finish c latest o.1.departure (o.2.nbOfTrips - 1) s.tree.size stop o.2
    (s.alight c.profile round ⟨stop, o.2, o.1.departure, s.iteration,
      .ride o.1.parent line o.1.trip o.1.boardPosition o.1.boardTime position⟩)

def visit (c : Context) (latest : SearchTime) (round : Nat) (index : LineIndex)
    (ride : Front Onboard Criteria × SearchState) (position : Nat) :
    Option (Front Onboard Criteria × SearchState) := do
  let line := c.timetable.line index
  let s ← ride.1.foldlM (debark c latest round index position (line.stopAt position)) ride.2
  if position + 1 = line.nbOfPositions then return ([], s)
  else return (← carry c round line position s ride.1, s)

def ride (c : Context) (latest : SearchTime) (round : Nat) (s : SearchState)
    (entry : LineIndex × Nat) : Option SearchState := do
  let positions := List.range' entry.2 ((c.timetable.line entry.1).nbOfPositions - entry.2)
  let counted := { s with nbOfScans := s.nbOfScans + 1 }
  return (← positions.foldlM (visit c latest round entry.1) ([], counted)).2

variable {c : Context} {s t : SearchState} {round : Nat} {latest : SearchTime} {stop : StopIndex}
  {label : NodeIndex × Criteria}

theorem depart_eq {departure : SearchTime} (near : departure.IsNear) (leg : StreetLeg × Nat) :
    depart c departure latest s leg = some (Search.depart c departure latest s leg) := by
  simp only [depart, add_eq near, Search.depart, Option.bind_eq_bind, Option.bind_some]
  split
  · rfl
  · split <;> rfl

theorem walk_eq (near : label.2.arrival.IsNear) (w : Walk) :
    walk c latest round label s w = some (Search.walk c latest round label s w) := by
  have criteria : walkCriteria c label.2 w = some (Search.walkCriteria c label.2 w) := by
    rw [walkCriteria, add_eq near]
    rfl
  simp only [walk, criteria, Search.walk, Option.bind_eq_bind, Option.bind_some]
  split
  · rfl
  · split <;> rfl

theorem isTimely_label (near : c.IsNear) (h : Consistent c s)
    (isLabel : IsLabel s.tree round stop label) :
    IsTimely c (s.tree.node label.1) ∧ (s.tree.node label.1).criteria = label.2 :=
  ⟨isTimely near.regular h.follows _ isLabel.older, isLabel.criteria_eq⟩

theorem isNear_label (near : c.IsNear) (h : Consistent c s)
    (isLabel : IsLabel s.tree round stop label) : label.2.arrival.IsNear := by
  obtain ⟨timely, same⟩ := isTimely_label near h isLabel
  exact same ▸ isNear_arrival near timely

theorem walkAll_eq (near : c.IsNear) (h : Consistent c s) {labels : StopFront}
    (able : ∀ label ∈ labels, CanWalk c round stop s label) :
    walkAll c (latestOf c s.iteration) round stop labels s =
      some (Search.walkAll c (latestOf c s.iteration) round stop labels s) := by
  refine Checked.foldlM_walks able fun label member t moves w _ => walk_eq ?_ w
  exact isNear_label near (h.moves moves) ((able label member).moves moves).isLabel

theorem walkFromAccess_eq (near : c.IsNear) (h : Consistent c s) :
    walkFromAccess c (latestOf c s.iteration) s =
      some (Search.walkFromAccess c (latestOf c s.iteration) s) := by
  rw [walkFromAccess, Search.walkFromAccess, ← Array.foldl_toList]
  refine Checked.foldlM_moves c 0 0 fun stop _ t moves => ?_
  have able (label) (member : label ∈ accessLabels t stop) : CanWalk c 0 stop t label :=
    canWalk_of_mem_accessLabels (h.moves moves) member
  rw [← moves.iteration_eq]
  exact ⟨walkAll_eq near (h.moves moves) able, walkAll_moves able⟩

theorem walkFromTransit_eq (near : c.IsNear) (h : Consistent c s) :
    walkFromTransit c (latestOf c s.iteration) round s =
      some (Search.walkFromTransit c (latestOf c s.iteration) round s) := by
  rw [walkFromTransit, Search.walkFromTransit, ← Array.foldl_toList]
  refine Checked.foldlM_moves c round round fun stop _ t moves => ?_
  have able (label) (member : label ∈ transitLabels t round stop) : CanWalk c round stop t label :=
    canWalk_of_mem_transitLabels (h.moves moves) member
  rw [← moves.iteration_eq]
  exact ⟨walkAll_eq near (h.moves moves) able, walkAll_moves able⟩

theorem readyTime_eq (q : Query) {criteria : Criteria} (near : criteria.arrival.IsNear) :
    readyTime q criteria = some (q.readyTime criteria) := by
  rw [readyTime, Query.readyTime, add_eq near]
  split <;> rfl

theorem rider_eq (near : c.IsNear) {line : LineIndex} {o : Onboard} {tree : JourneyTree}
    {position : Nat}
    (boarded : Search.board c (c.timetable.line line) o.boardPosition tree label = some o)
    (ahead : o.boardPosition < position)
    (inside : position < (c.timetable.line line).nbOfPositions) (costs : CostParams) :
    rider (c.timetable.line line) position costs o =
      some (o, o.criteriaAt (c.timetable.line line) position costs) := by
  have scanned := near.scanned line
  have forward := Journey.boardTime_le_debarkTime near.regular boarded ahead inside
  obtain ⟨trip, time, earliest, boarding⟩ := board_eq_some boarded
  obtain ⟨-, equal⟩ := Line.earliestTrip_spec earliest
  have boardTime : o.boardTime = (c.timetable.line line).boardTime trip o.boardPosition := by
    rw [← equal, boarding]
  have nearStart : o.boardTime.IsNear := boardTime ▸ isNear_boardTime scanned _ _
  rw [rider, debarkTime_eq scanned]
  simp only [since_eq (isNear_debarkTime scanned _ _) nearStart forward, Option.bind_eq_bind,
    Option.bind_some]
  rfl

theorem board_eq (near : c.IsNear) (h : Consistent c s)
    (isLabel : IsLabel s.tree round stop label) (line : LineIndex) (position : Nat) :
    board c (c.timetable.line line) position s.tree label =
      some (Search.board c (c.timetable.line line) position s.tree label) := by
  obtain ⟨timely, same⟩ := isTimely_label near h isLabel
  have arrived := isNear_label near h isLabel
  have scanned := near.scanned line
  have ready : (c.query.readyTime label.2).IsNear := same ▸ isNear_readyTime near timely
  rw [board, Search.board, readyTime_eq _ arrived]
  simp only [Option.bind_eq_bind, Option.bind_some, earliestTrip_eq scanned ready]
  cases earliest : (c.timetable.line line).earliestTrip (c.query.readyTime label.2) position with
  | none => rfl
  | some boarding =>
      obtain ⟨trip, boardTime⟩ := boarding
      obtain ⟨boards, equal⟩ := Line.earliestTrip_spec earliest
      have leaves : boardTime.IsNear := equal ▸ isNear_boardTime scanned _ _
      have inRange := (Journey.isRebuilt near.regular h.follows _ isLabel.older).timed.inRange
      rw [same] at inRange
      obtain ⟨later, readyInRange⟩ := Journey.arrival_le_readyTime (q := c.query) inRange
      have waited : label.2.arrival ≤ boardTime :=
        Int.le_trans later (equal ▸ boards.waiting_le readyInRange)
      have forward : (s.tree.node label.1).departure ≤ label.2.arrival := same ▸ timely.forward
      have departed : (s.tree.node label.1).departure.IsNear := isNear_departure near timely
      by_cases ridden : 0 < label.2.nbOfTrips
      · simp only [if_pos ridden, since_eq leaves arrived waited, Option.bind_some]
        rfl
      · simp only [if_neg ridden, since_eq arrived departed forward, sub_eq leaves,
          Option.bind_some]
        rfl

theorem carry_eq (near : c.IsNear) (h : Consistent c s) (positive : 0 < round) {line : LineIndex}
    {position : Nat} {onboard : Front Onboard Criteria}
    (ready : Ready c round line position s onboard)
    (more : position + 1 < (c.timetable.line line).nbOfPositions) :
    carry c round (c.timetable.line line) position s onboard =
      some (Search.carry c round (c.timetable.line line) position s onboard) := by
  let labels := currentLabels s (round - 1) ((c.timetable.line line).stopAt position)
  let riders := labels.filterMap (Search.board c (c.timetable.line line) position s.tree) ++
    onboard.map (·.1)
  have boarding : Checked.filterMap (board c (c.timetable.line line) position s.tree) labels =
      some (labels.filterMap (Search.board c (c.timetable.line line) position s.tree)) :=
    Checked.filterMap_eq fun label current =>
      board_eq near h (h.labels _ _ _ (List.mem_filter.1 current).1) line position
  have candidates : riders.mapM (rider (c.timetable.line line) (position + 1) c.query.costs) =
      some (riders.map fun o =>
        (o, o.criteriaAt (c.timetable.line line) (position + 1) c.query.costs)) := by
    refine Checked.mapM_eq fun o member => ?_
    rcases List.mem_append.1 member with boards | stays
    · obtain ⟨label, current, boarded⟩ := List.mem_filterMap.1 boards
      obtain ⟨isOnboard, here⟩ := isOnboard_board h positive current boarded
      exact rider_eq near isOnboard.boarded (by omega) more _
    · obtain ⟨before, here, rfl⟩ := List.mem_map.1 stays
      obtain ⟨isOnboard, -, ahead⟩ := ready before here
      exact rider_eq near isOnboard.boarded (Nat.lt_succ_of_lt ahead) more _
  simp only [carry, boarding, candidates, labels, riders, Option.bind_eq_bind, Option.bind_some]
  rfl

theorem finish_eq {criteria : Criteria} (near : criteria.arrival.IsNear) (departure : SearchTime)
    (nbOfTransfers : Nat) (node : NodeIndex) (stop : StopIndex) (s : SearchState) :
    finish c latest departure nbOfTransfers node stop criteria s =
      some (Search.finish c latest departure nbOfTransfers node stop criteria s) := by
  rw [finish, Search.finish]
  cases c.query.egress.atStop? stop with
  | none => rfl
  | some found =>
      simp only [add_eq near, Option.bind_eq_bind, Option.bind_some]
      rfl

theorem debark_eq {o : Onboard × Criteria} (near : o.2.arrival.IsNear) (line : LineIndex)
    (position : Nat) (stop : StopIndex) (s : SearchState) :
    debark c latest round line position stop s o =
      some (Search.debark c latest round line position stop s o) := by
  rw [debark, Search.debark_eq, finish_eq near]
  split
  · rfl
  · split <;> rfl

theorem visit_eq (near : c.IsNear) (h : Consistent c s) (positive : 0 < round)
    (allowed : round ≤ c.query.maxBoardings) {line : LineIndex} {position : Nat}
    {onboard : Front Onboard Criteria} (ready : Ready c round line position s onboard)
    (inside : position < (c.timetable.line line).nbOfPositions) :
    visit c (latestOf c s.iteration) round line (onboard, s) position =
      some (Search.visit c (latestOf c s.iteration) round line (onboard, s) position) := by
  obtain ⟨debarked, moves⟩ := Checked.foldlM_debarks (f := debark c (latestOf c s.iteration) round
    line position ((c.timetable.line line).stopAt position)) allowed ready inside
    fun o member t _ => by
      have arrives : o.2.arrival.IsNear := by
        rw [(ready o member).2.1]
        exact isNear_debarkTime (near.scanned line) _ _
      exact debark_eq arrives line position _ t
  simp only [visit, debarked, Search.visit, Option.bind_eq_bind, Option.bind_some]
  split
  · rfl
  · rw [carry_eq near (h.moves moves) positive (ready.moves moves) (by omega)]
    rfl

theorem ride_eq (near : c.IsNear) (h : Consistent c s) (positive : 0 < round)
    (allowed : round ≤ c.query.maxBoardings) (entry : LineIndex × Nat) :
    ride c (latestOf c s.iteration) round s entry =
      some (Search.ride c (latestOf c s.iteration) round s entry) := by
  have counted : Move c round s { s with nbOfScans := s.nbOfScans + 1 } := .count s.lastRound _
  have nobody : Ready c round entry.1 entry.2 { s with nbOfScans := s.nbOfScans + 1 } [] :=
    fun _ member => absurd member List.not_mem_nil
  simp only [ride, Search.ride]
  by_cases further : entry.2 ≤ (c.timetable.line entry.1).nbOfPositions
  · have start := h.move counted
    have visits := Checked.foldlM_visits (f := visit c (latestOf c s.iteration) round entry.1)
      positive allowed ((c.timetable.line entry.1).nbOfPositions - entry.2) entry.2 start nobody
      (by omega) fun t onboard position moves ready within => by
        have visited := visit_eq near (start.moves moves) positive allowed ready within
        rwa [moves.iteration_eq] at visited
    rw [visits]
    rfl
  · have none : (c.timetable.line entry.1).nbOfPositions - entry.2 = 0 := by omega
    rw [none]
    rfl

end JourneyPlanner.Exact
