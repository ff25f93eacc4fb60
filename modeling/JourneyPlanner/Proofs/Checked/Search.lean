import JourneyPlanner.Proofs.Checked.State

/-!
The search with each lookup checked: in the state, of a line, its positions, its days and its
schedules, of the lines and the walks at a stop, and of a leg. A lookup outside of its array ends
the search. From the states that are reached none does, and each function gives what the one without
checks gives.
-/

namespace JourneyPlanner.Checked

open Search

variable {c : Context} {s t : SearchState} {round : Nat} {latest : SearchTime}

theorem foldlM_moves {α : Type} (c : Context) (first last : Nat) {s : SearchState}
    {f : SearchState → α → Option SearchState} {g : SearchState → α → SearchState} {l : List α}
    (step : ∀ a ∈ l, ∀ t, Moves c first last s t →
      f t a = some (g t a) ∧ Moves c first last t (g t a)) :
    l.foldlM f s = some (l.foldl g s) := by
  refine foldlM_eq (P := Moves c first last s) .refl fun a member t moves => ?_
  obtain ⟨equal, more⟩ := step a member t moves
  exact ⟨equal, moves.trans more⟩

theorem foldlM_walks {f : NodeIndex × Criteria → SearchState → Walk → Option SearchState}
    {stop : StopIndex} {labels : StopFront}
    (able : ∀ label ∈ labels, CanWalk c round stop s label)
    (each : ∀ label ∈ labels, ∀ t, Moves c round round s t → ∀ w ∈ c.timetable.walksFrom stop,
      f label t w = some (Search.walk c (latestOf c s.iteration) round label t w)) :
    labels.foldlM (fun s label => (c.timetable.walksFrom stop).foldlM (f label) s) s =
      some (Search.walkAll c (latestOf c s.iteration) round stop labels s) := by
  -- A walk only adds a node, so the labels still stand for nodes of the tree after it.
  refine foldlM_moves c round round fun label member t moves => ?_
  have able := (able label member).moves moves
  rw [← moves.iteration_eq] at each ⊢
  refine ⟨foldlM_moves c round round fun w listed u more => ⟨?_, ?_⟩, able.walks_moves⟩
  · exact each label member u (moves.trans more) w listed
  · have able := able.moves more
    rw [← more.iteration_eq]
    exact walk_moves able.isLabel able.now able.rested listed

theorem foldlM_debarks {line : LineIndex} {position : Nat} {onboard : Front Onboard Criteria}
    {f : SearchState → Onboard × Criteria → Option SearchState}
    (allowed : round ≤ c.query.maxBoardings) (ready : Ready c round line position s onboard)
    (inside : position < (c.timetable.line line).nbOfPositions)
    (each : ∀ o ∈ onboard, ∀ t, Moves c round round s t →
      f t o = some (Search.debark c (latestOf c s.iteration) round line position
        ((c.timetable.line line).stopAt position) t o)) :
    onboard.foldlM f s = some (onboard.foldl (Search.debark c (latestOf c s.iteration) round line
        position ((c.timetable.line line).stopAt position)) s) ∧
      Moves c round round s (onboard.foldl (Search.debark c (latestOf c s.iteration) round line
        position ((c.timetable.line line).stopAt position)) s) :=
  have debarks (o) (member : o ∈ onboard) (t) (moves : Moves c round round s t) :=
    ready.debark_moves allowed inside member moves
  ⟨foldlM_moves c round round fun o member t moves =>
    ⟨each o member t moves, debarks o member t moves⟩, Moves.foldl debarks⟩

theorem foldlM_visits {line : LineIndex} {f : Front Onboard Criteria × SearchState → Nat →
      Option (Front Onboard Criteria × SearchState)} (positive : 0 < round)
    (allowed : round ≤ c.query.maxBoardings) (count first : Nat) {onboard : Front Onboard Criteria}
    (h : Consistent c s) (ready : Ready c round line first s onboard)
    (inside : first + count ≤ (c.timetable.line line).nbOfPositions)
    (each : ∀ t onboard position, Moves c round round s t →
      Ready c round line position t onboard → position < (c.timetable.line line).nbOfPositions →
        f (onboard, t) position =
          some (Search.visit c (latestOf c s.iteration) round line (onboard, t) position)) :
    (List.range' first count).foldlM f (onboard, s) =
      some ((List.range' first count).foldl (Search.visit c (latestOf c s.iteration) round line)
        (onboard, s)) := by
  induction count generalizing first s onboard with
  | zero => rfl
  | succ count ih =>
      rw [List.range'_succ, List.foldl_cons, List.foldlM_cons,
        each s onboard first .refl ready (by omega)]
      obtain ⟨moves, next⟩ := visit_moves h positive allowed ready (by omega)
      have rest := ih (first + 1) (h.moves moves) next (by omega) fun t onboard position more => by
        rw [moves.iteration_eq]
        exact each t onboard position (moves.trans more)
      rw [moves.iteration_eq] at rest
      exact rest

def depart (c : Context) (departure latest : SearchTime) (s : SearchState)
    (leg : StreetLeg × Nat) : Option SearchState :=
  let arrival := departure + leg.1.duration
  if latest < arrival then some s
  else do
    let criteria : Criteria := ⟨arrival, 0, c.query.legCost leg.1⟩
    if ← isCovered c.profile s leg.1.stop 0 criteria then return s
    else
      let node := JourneyTree.accessNode leg.2 leg.1.stop criteria departure s.iteration
      insert c.profile (s.pushNode node) leg.1.stop 0 s.tree.size criteria

theorem depart_eq (h : s.Sized c.timetable.nbOfStops c.query.maxBoardings)
    {leg : StreetLeg × Nat} (known : leg.1.stop < c.timetable.nbOfStops)
    (departure latest : SearchTime) :
    depart c departure latest s leg = some (Search.depart c departure latest s leg) := by
  simp only [depart, Search.depart, isCovered_eq h (Nat.zero_le _) known,
    insert_eq (h.pushNode _) (Nat.zero_le _) known, Option.bind_eq_bind, Option.bind_some]
  split
  · rfl
  · split <;> rfl

def walk (c : Context) (latest : SearchTime) (round : Nat) (label : NodeIndex × Criteria)
    (s : SearchState) (walk : Walk) : Option SearchState :=
  let criteria := walkCriteria c label.2 walk
  if latest < criteria.arrival then some s
  else do
    if ← isCovered c.profile s walk.target round criteria then return s
    else
      let parent ← s.tree.nodes[label.1]?
      let node : Node := ⟨walk.target, criteria, parent.departure, s.iteration,
        .walk label.1 walk.footpath walk.duration⟩
      insert c.profile (s.pushNode node) walk.target round s.tree.size criteria

theorem walk_eq (h : s.Sized c.timetable.nbOfStops c.query.maxBoardings)
    (allowed : round ≤ c.query.maxBoardings) {label : NodeIndex × Criteria}
    (older : label.1 < s.tree.size) {walk : Walk} (known : walk.target < c.timetable.nbOfStops) :
    Checked.walk c latest round label s walk = some (Search.walk c latest round label s walk) := by
  simp only [Checked.walk, Search.walk, isCovered_eq h allowed known,
    JourneyTree.getElem?_nodes older, insert_eq (h.pushNode _) allowed known, Option.bind_eq_bind,
    Option.bind_some]
  split
  · rfl
  · split <;> rfl

def walkAll (c : Context) (latest : SearchTime) (round : Nat) (stop : StopIndex)
    (labels : StopFront) (s : SearchState) : Option SearchState := do
  let walks ← c.timetable.stopWalks[stop]?
  labels.foldlM (fun s label => walks.foldlM (walk c latest round label) s) s

theorem walkAll_eq (inRange : c.InRange) (reached : Reached c s)
    (allowed : round ≤ c.query.maxBoardings) {stop : StopIndex}
    (known : stop < c.timetable.nbOfStops) {labels : StopFront}
    (able : ∀ label ∈ labels, CanWalk c round stop s label) :
    walkAll c (latestOf c s.iteration) round stop labels s =
      some (Search.walkAll c (latestOf c s.iteration) round stop labels s) := by
  have inside : stop < c.timetable.stopWalks.size := inRange.timetable.stopWalks.symm ▸ known
  have walks : c.timetable.stopWalks[stop]? = some (c.timetable.walksFrom stop) := by
    simp [Timetable.walksFrom, inside]
  rw [walkAll, walks]
  refine foldlM_walks able fun label member t moves w listed => ?_
  exact walk_eq (reached.moves moves).consistent.sized allowed
    ((able label member).moves moves).isLabel.older (inRange.walk listed).1

def walkFromAccess (c : Context) (latest : SearchTime) (s : SearchState) : Option SearchState := do
  (← s.rounds[0]?).stops.toList.foldlM (fun s stop => do
    walkAll c latest 0 stop (← accessLabels s stop) s) s

theorem walkFromAccess_eq (inRange : c.InRange) (reached : Reached c s) :
    walkFromAccess c (latestOf c s.iteration) s =
      some (Search.walkFromAccess c (latestOf c s.iteration) s) := by
  rw [walkFromAccess, getElem?_rounds reached.consistent.sized (Nat.zero_le _),
    Search.walkFromAccess, ← Array.foldl_toList]
  refine foldlM_moves c 0 0 fun stop listed t moves => ?_
  have known := (reached.listed inRange 0).2 stop (Array.mem_toList_iff.1 listed)
  have reached := reached.moves moves
  have able (label) (member : label ∈ Search.accessLabels t stop) : CanWalk c 0 stop t label :=
    canWalk_of_mem_accessLabels reached.consistent member
  rw [← moves.iteration_eq, accessLabels_eq reached.consistent known]
  exact ⟨walkAll_eq inRange reached (Nat.zero_le _) known able, walkAll_moves able⟩

def walkFromTransit (c : Context) (latest : SearchTime) (round : Nat) (s : SearchState) :
    Option SearchState := do
  (← s.rounds[round]?).transitStops.toList.foldlM (fun s stop => do
    walkAll c latest round stop (← transitLabels s round stop) s) s

theorem walkFromTransit_eq (inRange : c.InRange) (reached : Reached c s)
    (allowed : round ≤ c.query.maxBoardings) :
    walkFromTransit c (latestOf c s.iteration) round s =
      some (Search.walkFromTransit c (latestOf c s.iteration) round s) := by
  rw [walkFromTransit, getElem?_rounds reached.consistent.sized allowed,
    Search.walkFromTransit, ← Array.foldl_toList]
  refine foldlM_moves c round round fun stop listed t moves => ?_
  have known := (reached.listed inRange round).1 stop (Array.mem_toList_iff.1 listed)
  have reached := reached.moves moves
  have able (label) (member : label ∈ Search.transitLabels t round stop) :
      CanWalk c round stop t label :=
    canWalk_of_mem_transitLabels reached.consistent member
  rw [← moves.iteration_eq, transitLabels_eq reached.consistent allowed known]
  exact ⟨walkAll_eq inRange reached allowed known able, walkAll_moves able⟩

/-- Somebody on board, with the criteria of getting off at a position. -/
def rider (line : Line) (position : Nat) (costs : CostParams) (o : Onboard) :
    Option (Onboard × Criteria) := do
  let arrival ← debarkTime line o.trip position
  let ridden := costs.transit (arrival.sinceOrZero o.boardTime)
  return (o, ⟨arrival, o.nbOfTrips, o.boardCost + ridden⟩)

theorem rider_eq (inRange : c.InRange) {line : LineIndex} {o : Onboard} {boarded position : Nat}
    {tree : JourneyTree} {label : NodeIndex × Criteria}
    (before : boarded < (c.timetable.line line).nbOfPositions)
    (onboard : Search.board c (c.timetable.line line) boarded tree label = some o)
    (inside : position < (c.timetable.line line).nbOfPositions) (costs : CostParams) :
    rider (c.timetable.line line) position costs o =
      some (o, o.criteriaAt (c.timetable.line line) position costs) := by
  obtain ⟨day, schedule⟩ := board_inRange inRange before onboard
  rw [rider, debarkTime_eq (inRange.line inside).2 day schedule inside]
  rfl

def board (c : Context) (line : Line) (position : Nat) (tree : JourneyTree)
    (label : NodeIndex × Criteria) : Option (Option Onboard) := do
  match ← earliestTrip line (c.query.readyTime label.2) position with
  | none => return none
  | some (trip, boardTime) =>
      let departure := (← tree.nodes[label.1]?).departure
      let boarding := label.2.cost + c.query.costs.boardingAfter label.2.nbOfTrips
      return some {
        parent := label.1
        trip := trip
        boardPosition := position
        boardTime := boardTime
        departure :=
          if 0 < label.2.nbOfTrips then departure
          else boardTime - label.2.arrival.sinceOrZero departure
        nbOfTrips := label.2.nbOfTrips + 1
        boardCost :=
          if 0 < label.2.nbOfTrips then
            boarding + c.query.costs.wait (boardTime.sinceOrZero label.2.arrival)
          else boarding }

theorem board_eq {line : Line} (inRange : line.InRange c.timetable.layer) {position : Nat}
    (inside : position < line.nbOfPositions) {tree : JourneyTree} {label : NodeIndex × Criteria}
    (older : label.1 < tree.size) :
    board c line position tree label = some (Search.board c line position tree label) := by
  rw [board, earliestTrip_eq inRange _ inside, Search.board]
  simp only [Option.bind_eq_bind, Option.bind_some]
  cases line.earliestTrip (c.query.readyTime label.2) position with
  | none => rfl
  | some boarding =>
      simp only [JourneyTree.getElem?_nodes older, Option.bind_some]
      rfl

def carry (c : Context) (round : Nat) (line : Line) (position : Nat) (s : SearchState)
    (onboard : Front Onboard Criteria) : Option (Front Onboard Criteria) := do
  let stop ← line.pattern.stops[position]?
  let boarding ← filterMap (board c line position s.tree) (← currentLabels s (round - 1) stop)
  let candidates ← (boarding ++ onboard.map (·.1)).mapM (rider line (position + 1) c.query.costs)
  return if line.pattern.fifo then Front.ofCandidates c.profile.atLeastAsGood candidates
    else candidates

theorem carry_eq (inRange : c.InRange) (h : Consistent c s) (allowed : round ≤ c.query.maxBoardings)
    {line : LineIndex} {position : Nat} {onboard : Front Onboard Criteria}
    (ready : Ready c round line position s onboard)
    (more : position + 1 < (c.timetable.line line).nbOfPositions) :
    carry c round (c.timetable.line line) position s onboard =
      some (Search.carry c round (c.timetable.line line) position s onboard) := by
  have inside := Nat.lt_of_succ_lt more
  let labels := Search.currentLabels s (round - 1) ((c.timetable.line line).stopAt position)
  let riders := labels.filterMap (Search.board c (c.timetable.line line) position s.tree) ++
    onboard.map (·.1)
  have current : currentLabels s (round - 1) ((c.timetable.line line).stopAt position) =
      some labels :=
    currentLabels_eq h (Nat.le_trans (Nat.sub_le _ _) allowed) (inRange.stopAt_lt inside)
  have boarding : filterMap (board c (c.timetable.line line) position s.tree) labels =
      some (labels.filterMap (Search.board c (c.timetable.line line) position s.tree)) :=
    filterMap_eq fun label current => board_eq (inRange.line inside).2 inside
      (h.labels _ _ _ (List.mem_filter.1 current).1).older
  -- Who boards here and who stays are both on a trip of the line, which has a later position.
  have candidates : riders.mapM (rider (c.timetable.line line) (position + 1) c.query.costs) =
      some (riders.map fun o =>
        (o, o.criteriaAt (c.timetable.line line) (position + 1) c.query.costs)) := by
    refine mapM_eq fun o member => ?_
    rcases List.mem_append.1 member with boards | stays
    · obtain ⟨label, -, boarded⟩ := List.mem_filterMap.1 boards
      exact rider_eq inRange inside boarded more _
    · obtain ⟨before, here, rfl⟩ := List.mem_map.1 stays
      obtain ⟨isOnboard, -, ahead⟩ := ready before here
      exact rider_eq inRange (Nat.lt_trans ahead inside) isOnboard.boarded more _
  simp only [carry, Line.getElem?_stops inside, current, boarding, candidates, riders,
    Option.bind_eq_bind, Option.bind_some]
  rfl

def finish (c : Context) (latest departure : SearchTime) (nbOfTransfers : Nat) (node : NodeIndex)
    (stop : StopIndex) (criteria : Criteria) (s : SearchState) : Option SearchState := do
  match ← c.query.egress.legAtStop[stop]? with
  | none => return s
  | some index =>
      let egress ← c.query.egress.legs[index]?
      let arrival := criteria.arrival + egress.duration
      return if latest < arrival then s
        else s.arrive c.profile ⟨node, index⟩
          ⟨departure, arrival, nbOfTransfers, criteria.cost + c.query.legCost egress⟩

theorem finish_eq (inRange : c.InRange) {stop : StopIndex} (known : stop < c.timetable.nbOfStops)
    (departure : SearchTime) (nbOfTransfers : Nat) (node : NodeIndex) (criteria : Criteria)
    (s : SearchState) :
    finish c latest departure nbOfTransfers node stop criteria s =
      some (Search.finish c latest departure nbOfTransfers node stop criteria s) := by
  have inside : stop < c.query.egress.legAtStop.size := inRange.egressTable.symm ▸ known
  obtain ⟨entry, found⟩ : ∃ entry, c.query.egress.legAtStop[stop]? = some entry :=
    ⟨_, Array.getElem?_eq_getElem inside⟩
  have read : c.query.egress.indexAt? stop = entry := by
    rw [StreetLegs.indexAt?, found, Option.join_some]
  rw [finish, found, Search.finish, StreetLegs.atStop?, read]
  cases entry with
  | none => rfl
  | some index =>
      obtain ⟨there, -⟩ := StreetLegs.indexAt?_eq_some read
      simp only [StreetLegs.getElem?_legs there, Option.bind_eq_bind, Option.bind_some,
        Option.map_some]
      rfl

def debark (c : Context) (latest : SearchTime) (round : Nat) (line : LineIndex) (position : Nat)
    (stop : StopIndex) (s : SearchState) (o : Onboard × Criteria) : Option SearchState :=
  if latest < o.2.arrival then some s
  else do
    if ← isCoveredByTransit c.profile s stop round o.2 then return s
    else
      let node : Node := ⟨stop, o.2, o.1.departure, s.iteration,
        .ride o.1.parent line o.1.trip o.1.boardPosition o.1.boardTime position⟩
      let t ← insertTransit c.profile (s.pushNode node) stop round s.tree.size o.2
      let off ← if ← isCovered c.profile t stop round o.2 then some t
        else insert c.profile t stop round s.tree.size o.2
      finish c latest o.1.departure (o.2.nbOfTrips - 1) s.tree.size stop o.2 off

theorem debark_eq (inRange : c.InRange) (h : s.Sized c.timetable.nbOfStops c.query.maxBoardings)
    (allowed : round ≤ c.query.maxBoardings) {stop : StopIndex}
    (known : stop < c.timetable.nbOfStops) (line : LineIndex) (position : Nat)
    (o : Onboard × Criteria) :
    debark c latest round line position stop s o =
      some (Search.debark c latest round line position stop s o) := by
  simp only [debark, Search.debark, isCoveredByTransit_eq h allowed known,
    insertTransit_eq (h.pushNode _) allowed known,
    isCovered_eq ((h.pushNode _).insertTransit ..) allowed known,
    insert_eq ((h.pushNode _).insertTransit ..) allowed known, finish_eq inRange known,
    Option.bind_eq_bind, Option.bind_some]
  split
  · rfl
  · split
    · rfl
    · split <;> rfl

def visit (c : Context) (latest : SearchTime) (round : Nat) (index : LineIndex)
    (ride : Front Onboard Criteria × SearchState) (position : Nat) :
    Option (Front Onboard Criteria × SearchState) := do
  let line ← c.timetable.lines[index]?
  let stop ← line.pattern.stops[position]?
  let s ← ride.1.foldlM (debark c latest round index position stop) ride.2
  if position + 1 = line.nbOfPositions then return ([], s)
  else return (← carry c round line position s ride.1, s)

theorem visit_eq (inRange : c.InRange) (reached : Reached c s)
    (allowed : round ≤ c.query.maxBoardings) {line : LineIndex} {position : Nat}
    {onboard : Front Onboard Criteria} (ready : Ready c round line position s onboard)
    (inside : position < (c.timetable.line line).nbOfPositions) :
    visit c (latestOf c s.iteration) round line (onboard, s) position =
      some (Search.visit c (latestOf c s.iteration) round line (onboard, s) position) := by
  have known := inRange.stopAt_lt inside
  obtain ⟨debarked, moves⟩ := foldlM_debarks (f := debark c (latestOf c s.iteration) round line
    position ((c.timetable.line line).stopAt position)) allowed ready inside fun o _ t moves =>
      debark_eq inRange (reached.moves moves).consistent.sized allowed known line position o
  simp only [visit, (inRange.line inside).1, Line.getElem?_stops inside, debarked, Search.visit,
    Option.bind_eq_bind, Option.bind_some]
  split
  · rfl
  · next notLast =>
      rw [carry_eq inRange (reached.moves moves).consistent allowed (ready.moves moves) (by omega)]
      rfl

def ride (c : Context) (latest : SearchTime) (round : Nat) (s : SearchState)
    (entry : LineIndex × Nat) : Option SearchState := do
  let line ← c.timetable.lines[entry.1]?
  let positions := List.range' entry.2 (line.nbOfPositions - entry.2)
  let counted := { s with nbOfScans := s.nbOfScans + 1 }
  return (← positions.foldlM (visit c latest round entry.1) ([], counted)).2

theorem ride_eq (inRange : c.InRange) (reached : Reached c s) (positive : 0 < round)
    (allowed : round ≤ c.query.maxBoardings) {entry : LineIndex × Nat}
    (known : entry.1 < c.timetable.nbOfLines) :
    ride c (latestOf c s.iteration) round s entry =
      some (Search.ride c (latestOf c s.iteration) round s entry) := by
  have counted : Move c round s { s with nbOfScans := s.nbOfScans + 1 } := .count s.lastRound _
  have nobody : Ready c round entry.1 entry.2 { s with nbOfScans := s.nbOfScans + 1 } [] :=
    fun _ member => absurd member List.not_mem_nil
  simp only [ride, Timetable.getElem?_lines known, Search.ride, Option.bind_eq_bind,
    Option.bind_some]
  by_cases further : entry.2 ≤ (c.timetable.line entry.1).nbOfPositions
  · have start := reached.moves counted.moves
    have visits := foldlM_visits (f := visit c (latestOf c s.iteration) round entry.1) positive
      allowed ((c.timetable.line entry.1).nbOfPositions - entry.2) entry.2 start.consistent nobody
      (by omega) fun t onboard position moves ready within => by
        have visited := visit_eq inRange (start.moves moves) allowed ready within
        rwa [moves.iteration_eq] at visited
    rw [visits]
    rfl
  · have none : (c.timetable.line entry.1).nbOfPositions - entry.2 = 0 := by omega
    rw [none]
    rfl

end JourneyPlanner.Checked
