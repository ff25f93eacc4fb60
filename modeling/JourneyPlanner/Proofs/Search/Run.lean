import JourneyPlanner.Proofs.Search.Consistent

/-!
A run of a search is a run of moves. Each function of the search is shown to make moves of its round
only, from any consistent state; what is on board of a vehicle stands for a label of the round before
as long as the iteration lasts.
-/

theorem JourneyPlanner.Query.departureTimes_ne_nil (q : Query) : q.departureTimes ≠ [] := by
  simp only [departureTimes]
  split
  · exact List.cons_ne_nil _ _
  · simp only [ne_eq, List.map_eq_nil_iff, List.reverse_eq_nil_iff, List.range_eq_nil]
    omega

namespace JourneyPlanner.Search

variable {c : Context} {round : Nat} {s t : SearchState}

theorem depart_moves {index : Nat} {leg : StreetLeg}
    (known : c.query.access.legs[index]? = some leg) :
    Moves c 0 0 s
      (depart c (departureOf c s.iteration) (latestOf c s.iteration) s (leg, index)) := by
  simp only [depart]
  split
  · exact .refl
  · next inTime =>
      split
      · exact .refl
      · next uncovered =>
          have le : departureOf c s.iteration + leg.duration ≤ latestOf c s.iteration :=
            Int.not_lt.1 inTime
          exact (Move.reach (.access known le) rfl rfl rfl (Bool.eq_false_iff.2 uncovered)).moves

theorem walk_moves {stop : StopIndex} {label : NodeIndex × Criteria} {w : Walk}
    (isLabel : IsLabel s.tree round stop label) (now : s.tree.iteration label.1 = s.iteration)
    (rested : (s.tree.node label.1).step.isWalk = false)
    (known : w ∈ c.timetable.walksFrom stop) :
    Moves c round round s (walk c (latestOf c s.iteration) round label s w) := by
  simp only [walk]
  split
  · exact .refl
  · next inTime =>
      split
      · exact .refl
      · next uncovered =>
          have le : (walkCriteria c (s.tree.node label.1).criteria w).arrival ≤
              latestOf c (s.tree.iteration label.1) := by
            rw [isLabel.criteria_eq, now]
            exact Int.not_lt.1 inTime
          have follows := Follows.walk isLabel.older rested (isLabel.stop_eq ▸ known) le
          rw [isLabel.criteria_eq, now] at follows
          have trips : (walkCriteria c label.2 w).nbOfTrips = round := isLabel.trips
          exact (Move.reach follows rfl rfl trips (Bool.eq_false_iff.2 uncovered)).moves

/-- A label of the iteration that can walk on. -/
structure CanWalk (c : Context) (round : Nat) (stop : StopIndex) (s : SearchState)
    (label : NodeIndex × Criteria) : Prop where
  isLabel : IsLabel s.tree round stop label
  now : s.tree.iteration label.1 = s.iteration
  rested : (s.tree.node label.1).step.isWalk = false

theorem CanWalk.moves {stop : StopIndex} {label : NodeIndex × Criteria}
    (h : CanWalk c round stop s label) {first last : Nat} (moves : Moves c first last s t) :
    CanWalk c round stop t label := by
  have same := moves.extends.node_eq _ h.isLabel.older
  refine ⟨h.isLabel.extends moves.extends, ?_, ?_⟩
  · rw [JourneyTree.iteration, same, moves.iteration_eq]
    exact h.now
  · rw [same]
    exact h.rested

theorem CanWalk.walks_moves {stop : StopIndex} {label : NodeIndex × Criteria}
    (h : CanWalk c round stop s label) :
    Moves c round round s ((c.timetable.walksFrom stop).foldl
      (walk c (latestOf c s.iteration) round label) s) := by
  refine Moves.foldl fun w known t moves => ?_
  have able := h.moves moves
  rw [← moves.iteration_eq]
  exact walk_moves able.isLabel able.now able.rested known

theorem walkAll_moves {stop : StopIndex} {labels : StopFront}
    (able : ∀ label ∈ labels, CanWalk c round stop s label) :
    Moves c round round s (walkAll c (latestOf c s.iteration) round stop labels s) := by
  refine Moves.foldl fun label member t moves => ?_
  rw [← moves.iteration_eq]
  exact ((able label member).moves moves).walks_moves

theorem canWalk_of_mem_accessLabels (h : Consistent c s) {stop : StopIndex}
    {label : NodeIndex × Criteria} (member : label ∈ accessLabels s stop) :
    CanWalk c 0 stop s label := by
  simp only [accessLabels, List.mem_filter, Bool.and_eq_true, beq_iff_eq] at member
  obtain ⟨inFront, now, straight⟩ := member
  refine ⟨h.labels _ _ _ inFront, now, ?_⟩
  cases step : (s.tree.node label.1).step with
  | access => rfl
  | ride => rfl
  | walk =>
      rw [step] at straight
      cases straight

theorem canWalk_of_mem_transitLabels (h : Consistent c s) {stop : StopIndex}
    {label : NodeIndex × Criteria} (member : label ∈ transitLabels s round stop) :
    CanWalk c round stop s label := by
  simp only [transitLabels, List.mem_filter, beq_iff_eq] at member
  obtain ⟨inFront, now⟩ := member
  obtain ⟨isLabel, byVehicle⟩ := h.transitLabels _ _ _ inFront
  refine ⟨isLabel, now, ?_⟩
  cases step : (s.tree.node label.1).step with
  | access => rfl
  | ride => rfl
  | walk =>
      rw [step] at byVehicle
      cases byVehicle

theorem walkFromAccess_moves (h : Consistent c s) :
    Moves c 0 0 s (walkFromAccess c (latestOf c s.iteration) s) := by
  rw [walkFromAccess, ← Array.foldl_toList]
  refine Moves.foldl fun stop _ t moves => ?_
  rw [← moves.iteration_eq]
  exact walkAll_moves fun label member => canWalk_of_mem_accessLabels (h.moves moves) member

theorem walkFromTransit_moves (h : Consistent c s) :
    Moves c round round s (walkFromTransit c (latestOf c s.iteration) round s) := by
  rw [walkFromTransit, ← Array.foldl_toList]
  refine Moves.foldl fun stop _ t moves => ?_
  rw [← moves.iteration_eq]
  exact walkAll_moves fun label member => canWalk_of_mem_transitLabels (h.moves moves) member

/-- Somebody on a vehicle of a line, who was a label of the round before in this iteration. -/
structure IsOnboard (c : Context) (round : Nat) (line : LineIndex) (s : SearchState)
    (o : Onboard) : Prop where
  older : o.parent < s.tree.size
  boarded : board c (c.timetable.line line) o.boardPosition s.tree
    (o.parent, (s.tree.node o.parent).criteria) = some o
  atStop : (c.timetable.line line).stopAt o.boardPosition = (s.tree.node o.parent).stop
  now : s.tree.iteration o.parent = s.iteration
  trips : o.nbOfTrips = round

/-- All on board before a position, with the criteria of getting off there. -/
def Ready (c : Context) (round : Nat) (line : LineIndex) (position : Nat) (s : SearchState)
    (onboard : Front Onboard Criteria) : Prop :=
  ∀ o ∈ onboard, IsOnboard c round line s o.1 ∧
    o.2 = o.1.criteriaAt (c.timetable.line line) position c.query.costs ∧
      o.1.boardPosition < position

theorem IsOnboard.moves {line : LineIndex} {o : Onboard} (h : IsOnboard c round line s o)
    {first last : Nat} (moves : Moves c first last s t) : IsOnboard c round line t o := by
  have same := moves.extends.node_eq _ h.older
  have carried := board_congr (c := c) (c.timetable.line line) o.boardPosition
    (o.parent, (s.tree.node o.parent).criteria) same
  refine ⟨Nat.lt_of_lt_of_le h.older moves.extends.size_le, ?_, ?_, ?_, h.trips⟩
  · rw [same, carried]
    exact h.boarded
  · rw [same]
    exact h.atStop
  · rw [JourneyTree.iteration, same, moves.iteration_eq]
    exact h.now

theorem Ready.moves {line : LineIndex} {position : Nat} {onboard : Front Onboard Criteria}
    (h : Ready c round line position s onboard) {first last : Nat} (moves : Moves c first last s t) :
    Ready c round line position t onboard := by
  intro o member
  obtain ⟨isOnboard, rest⟩ := h o member
  exact ⟨isOnboard.moves moves, rest⟩

theorem isOnboard_board (h : Consistent c s) {line : LineIndex} {position : Nat}
    {label : NodeIndex × Criteria} {o : Onboard} (positive : 0 < round)
    (current : label ∈ currentLabels s (round - 1) ((c.timetable.line line).stopAt position))
    (boarded : board c (c.timetable.line line) position s.tree label = some o) :
    IsOnboard c round line s o ∧ o.boardPosition = position := by
  simp only [currentLabels, List.mem_filter, beq_iff_eq] at current
  obtain ⟨inFront, now⟩ := current
  have isLabel := h.labels _ _ _ inFront
  obtain ⟨trip, time, -, equal⟩ := board_eq_some boarded
  have parent : o.parent = label.1 := by rw [equal]
  have boardPosition : o.boardPosition = position := by rw [equal]
  have trips : o.nbOfTrips = label.2.nbOfTrips + 1 := by rw [equal]
  refine ⟨⟨?_, ?_, ?_, ?_, ?_⟩, boardPosition⟩
  · rw [parent]
    exact isLabel.older
  · rw [parent, boardPosition, isLabel.criteria_eq]
    exact boarded
  · rw [parent, boardPosition, isLabel.stop_eq]
  · rw [parent]
    exact now
  · rw [trips, isLabel.trips]
    omega

theorem mem_carry {line : Line} {position : Nat} {onboard : Front Onboard Criteria}
    {o : Onboard × Criteria} (member : o ∈ carry c round line position s onboard) :
    o.2 = o.1.criteriaAt line (position + 1) c.query.costs ∧
      ((∃ label ∈ currentLabels s (round - 1) (line.stopAt position),
          board c line position s.tree label = some o.1) ∨ ∃ criteria, (o.1, criteria) ∈ onboard) := by
  have candidate : o ∈ (((currentLabels s (round - 1) (line.stopAt position)).filterMap
      (board c line position s.tree)) ++ onboard.map (·.1)).map fun rider =>
        (rider, rider.criteriaAt line (position + 1) c.query.costs) := by
    simp only [carry] at member
    split at member
    · exact Front.mem_of_mem_ofCandidates member
    · exact member
  obtain ⟨rider, among, rfl⟩ := List.mem_map.1 candidate
  refine ⟨rfl, ?_⟩
  rcases List.mem_append.1 among with boards | stays
  · exact .inl (List.mem_filterMap.1 boards)
  · obtain ⟨other, here, rfl⟩ := List.mem_map.1 stays
    exact .inr ⟨other.2, here⟩

theorem ready_carry (h : Consistent c s) {line : LineIndex} {position : Nat}
    {onboard : Front Onboard Criteria} (positive : 0 < round)
    (ready : Ready c round line position s onboard) :
    Ready c round line (position + 1) s
      (carry c round (c.timetable.line line) position s onboard) := by
  intro o member
  obtain ⟨criteria, ⟨label, current, boarded⟩ | ⟨before, here⟩⟩ := mem_carry member
  · obtain ⟨isOnboard, boardPosition⟩ := isOnboard_board h positive current boarded
    exact ⟨isOnboard, criteria, by omega⟩
  · obtain ⟨isOnboard, -, ahead⟩ := ready _ here
    exact ⟨isOnboard, criteria, Nat.lt_succ_of_lt ahead⟩

theorem finish_moves {stop : StopIndex} {label : NodeIndex × Criteria}
    (isLabel : IsLabel s.tree round stop label) (now : s.tree.iteration label.1 = s.iteration)
    (byVehicle : (s.tree.node label.1).step.isRide = true ∨ c.query.maxBoardings = 0) :
    Moves c round round s (finish c (latestOf c s.iteration) (s.tree.node label.1).departure
      (label.2.nbOfTrips - 1) label.1 stop label.2 s) := by
  simp only [finish]
  split
  · exact .refl
  · next index leg atStop =>
      split
      · exact .refl
      · next inTime =>
          have arrival : IsArrival c s.tree (⟨label.1, index⟩, arrivalBy c leg (s.tree.node label.1))
              leg := by
            refine ⟨isLabel.older, ?_, rfl, ?_, byVehicle⟩
            · rw [isLabel.stop_eq]
              exact atStop
            · simp only [arrivalBy]
              rw [isLabel.criteria_eq, now]
              exact Int.not_lt.1 inTime
          have trips : (s.tree.node label.1).criteria.nbOfTrips = round := by
            rw [isLabel.criteria_eq]
            exact isLabel.trips
          have move : Move c round s _ := .arrive arrival now trips
          rw [arrivalBy, isLabel.criteria_eq] at move
          exact move.moves

theorem finish_alight_moves {node : Node} (byVehicle : node.step.isRide = true)
    (now : node.iteration = s.iteration) (trips : node.criteria.nbOfTrips = round) :
    Moves c round round (s.alight c.profile round node)
      (finish c (latestOf c s.iteration) node.departure (node.criteria.nbOfTrips - 1) s.tree.size
        node.stop node.criteria (s.alight c.profile round node)) := by
  have finished := finish_moves (c := c) (Consistent.isLabel_alight c.profile s trips)
  simp only [SearchState.tree_alight, SearchState.iteration_alight, JourneyTree.iteration,
    JourneyTree.node_push_size] at finished
  exact finished now (.inl byVehicle)

theorem debark_eq (latest : SearchTime) (line : LineIndex) (position : Nat) (stop : StopIndex)
    (s : SearchState) (o : Onboard × Criteria) :
    debark c latest round line position stop s o =
      if latest < o.2.arrival then s
      else if s.isCoveredByTransit c.profile stop round o.2 then s
      else finish c latest o.1.departure (o.2.nbOfTrips - 1) s.tree.size stop o.2
        (s.alight c.profile round ⟨stop, o.2, o.1.departure, s.iteration,
          .ride o.1.parent line o.1.trip o.1.boardPosition o.1.boardTime position⟩) := rfl

theorem debark_rideNode (latest : SearchTime) (line : LineIndex) (position : Nat)
    (s : SearchState) (o : Onboard) :
    let node := rideNode c line s.iteration o position
    debark c latest round line position node.stop s (o, node.criteria) =
      if latest < node.criteria.arrival then s
      else if s.isCoveredByTransit c.profile node.stop round node.criteria then s
      else finish c latest node.departure (node.criteria.nbOfTrips - 1) s.tree.size node.stop
        node.criteria (s.alight c.profile round node) :=
  debark_eq latest line position _ s (o, _)

theorem IsOnboard.follows {line : LineIndex} {o : Onboard} (h : IsOnboard c round line s o)
    {position : Nat} (ahead : o.boardPosition < position)
    (inside : position < (c.timetable.line line).nbOfPositions)
    (inTime : ¬latestOf c s.iteration < (rideNode c line s.iteration o position).criteria.arrival) :
    Follows c s.tree s.tree.size (rideNode c line s.iteration o position) := by
  have le : (o.criteriaAt (c.timetable.line line) position c.query.costs).arrival ≤
      latestOf c (s.tree.iteration o.parent) := by
    rw [h.now]
    exact Int.not_lt.1 inTime
  have follows := Follows.ride h.older h.boarded h.atStop ahead inside le
  rwa [h.now] at follows

theorem debark_moves (allowed : round ≤ c.query.maxBoardings)
    {line : LineIndex} {o : Onboard} (onboard : IsOnboard c round line s o) {position : Nat}
    (ahead : o.boardPosition < position)
    (inside : position < (c.timetable.line line).nbOfPositions) :
    Moves c round round s (debark c (latestOf c s.iteration) round line position
      ((c.timetable.line line).stopAt position) s
      (o, o.criteriaAt (c.timetable.line line) position c.query.costs)) := by
  refine (debark_rideNode (latestOf c s.iteration) line position s o) ▸ ?_
  split
  · exact .refl
  · next inTime =>
      split
      · exact .refl
      · next uncovered =>
          have trips : (rideNode c line s.iteration o position).criteria.nbOfTrips = round :=
            onboard.trips
          have move : Move c round s
              (s.alight c.profile round (rideNode c line s.iteration o position)) :=
            .alight (onboard.follows ahead inside inTime) rfl rfl trips allowed
              (Bool.eq_false_iff.2 uncovered)
          exact move.moves.trans (finish_alight_moves rfl rfl trips)

theorem Ready.debark_moves {line : LineIndex} {position : Nat} {onboard : Front Onboard Criteria}
    (h : Ready c round line position s onboard) (allowed : round ≤ c.query.maxBoardings)
    (inside : position < (c.timetable.line line).nbOfPositions) {o : Onboard × Criteria}
    (member : o ∈ onboard) (moves : Moves c round round s t) :
    Moves c round round t (debark c (latestOf c s.iteration) round line position
      ((c.timetable.line line).stopAt position) t o) := by
  obtain ⟨isOnboard, criteria, ahead⟩ := h o member
  have equal : o = (o.1, o.1.criteriaAt (c.timetable.line line) position c.query.costs) :=
    Prod.ext rfl criteria
  rw [equal, ← moves.iteration_eq]
  exact Search.debark_moves allowed (isOnboard.moves moves) ahead inside

theorem visit_moves (h : Consistent c s) (positive : 0 < round)
    (allowed : round ≤ c.query.maxBoardings) {line : LineIndex} {position : Nat}
    {onboard : Front Onboard Criteria} (ready : Ready c round line position s onboard)
    (inside : position < (c.timetable.line line).nbOfPositions) :
    let after := visit c (latestOf c s.iteration) round line (onboard, s) position
    Moves c round round s after.2 ∧ Ready c round line (position + 1) after.2 after.1 := by
  have debarked : Moves c round round s (onboard.foldl (debark c (latestOf c s.iteration) round line
      position ((c.timetable.line line).stopAt position)) s) :=
    Moves.foldl fun _ member _ moves => ready.debark_moves allowed inside member moves
  simp only [visit]
  split
  · exact ⟨debarked, fun _ member => absurd member List.not_mem_nil⟩
  · exact ⟨debarked, ready_carry (h.moves debarked) positive (ready.moves debarked)⟩

theorem visits_moves (positive : 0 < round) (allowed : round ≤ c.query.maxBoardings)
    (line : LineIndex) (count first : Nat) {onboard : Front Onboard Criteria}
    (h : Consistent c s) (ready : Ready c round line first s onboard)
    (inside : first + count ≤ (c.timetable.line line).nbOfPositions) :
    let after := (List.range' first count).foldl (visit c (latestOf c s.iteration) round line)
      (onboard, s)
    Moves c round round s after.2 ∧ Ready c round line (first + count) after.2 after.1 := by
  induction count generalizing first s onboard with
  | zero => exact ⟨.refl, ready⟩
  | succ count ih =>
      rw [List.range'_succ, List.foldl_cons]
      obtain ⟨moves, next⟩ := visit_moves h positive allowed ready (by omega)
      obtain ⟨rest, last⟩ := ih (first + 1) (h.moves moves) next (by omega)
      rw [moves.iteration_eq] at rest last
      rw [Nat.add_right_comm] at last
      exact ⟨moves.trans rest, last⟩

theorem ride_moves (h : Consistent c s) (positive : 0 < round)
    (allowed : round ≤ c.query.maxBoardings) (entry : LineIndex × Nat) :
    Moves c round round s (ride c (latestOf c s.iteration) round s entry) := by
  have counted : Move c round s { s with nbOfScans := s.nbOfScans + 1 } := .count s.lastRound _
  by_cases inside : entry.2 ≤ (c.timetable.line entry.1).nbOfPositions
  · have nobody : Ready c round entry.1 entry.2 { s with nbOfScans := s.nbOfScans + 1 } [] :=
      fun _ member => absurd member List.not_mem_nil
    obtain ⟨rides, -⟩ := visits_moves positive allowed entry.1
      ((c.timetable.line entry.1).nbOfPositions - entry.2) entry.2 (h.move counted) nobody (by omega)
    exact counted.moves.trans rides
  · have none : (c.timetable.line entry.1).nbOfPositions - entry.2 = 0 := by omega
    simp only [ride, none, List.range'_zero, List.foldl_nil]
    exact counted.moves

theorem rides_moves (h : Consistent c s) (positive : 0 < round)
    (allowed : round ≤ c.query.maxBoardings) (lines : List (LineIndex × Nat)) :
    Moves c round round s (lines.foldl (ride c (latestOf c s.iteration) round) s) := by
  refine Moves.foldl fun entry _ t moves => ?_
  rw [← moves.iteration_eq]
  exact ride_moves (h.moves moves) positive allowed entry

theorem runRound_moves (h : Consistent c s) (positive : 0 < round)
    (allowed : round ≤ c.query.maxBoardings) (lines : List (LineIndex × Nat)) :
    Moves c round round s (runRound c (latestOf c s.iteration) round lines s) := by
  have counted : Move c round s { s with lastRound := max s.lastRound round } :=
    .count _ s.nbOfScans
  have rides := rides_moves (h.move counted) positive allowed lines
  have all : Moves c round round s _ := counted.moves.trans rides
  have walks : Moves c round round _ _ := walkFromTransit_moves (h.moves all)
  rw [all.iteration_eq] at walks
  exact all.trans walks

/-- The state after the rounds that follow a given one, when the time is not over before them. -/
def allRounds (c : Context) (latest : SearchTime) (left round : Nat) (s : SearchState) :
    SearchState :=
  (runRounds c latest .never left round s).state

theorem allRounds_succ (c : Context) (latest : SearchTime) (left round : Nat) (s : SearchState) :
    allRounds c latest (left + 1) round s =
      match linesToRide c s round with
      | [] => s
      | lines => allRounds c latest left (round + 1)
          (runRound c latest (round + 1) lines s) := by
  simp only [allRounds, runRounds, Checks.never, Bool.false_eq_true, if_false]
  cases linesToRide c s round <;> rfl

theorem truncated_runRounds_never (c : Context) (latest : SearchTime) (left round : Nat)
    (s : SearchState) : (runRounds c latest .never left round s).truncated = false := by
  induction left generalizing round s with
  | zero => rfl
  | succ left ih =>
      simp only [runRounds, Checks.never, Bool.false_eq_true, if_false]
      split
      · rfl
      · exact ih ..

theorem runRounds_eq {latest : SearchTime} {isOver : Checks} {left round : Nat} {s : SearchState}
    (whole : (runRounds c latest isOver left round s).truncated = false) :
    runRounds c latest isOver left round s = ⟨allRounds c latest left round s, false⟩ := by
  induction left generalizing round s with
  | zero => rfl
  | succ left ih =>
      rw [allRounds_succ]
      rw [runRounds] at whole ⊢
      split at whole
      · cases whole
      · next inTime =>
          rw [if_neg inTime]
          cases lines : linesToRide c s round with
          | nil => rfl
          | cons entry more =>
              rw [lines] at whole
              exact ih whole

theorem allRounds_moves (left round : Nat) (h : Consistent c s)
    (allowed : round + left ≤ c.query.maxBoardings) :
    Moves c (round + 1) (round + left) s (allRounds c (latestOf c s.iteration) left round s) := by
  induction left generalizing round s with
  | zero => exact .refl
  | succ left ih =>
      rw [allRounds_succ]
      split
      · exact .refl
      · have first := runRound_moves h (Nat.succ_pos round) (by omega) (linesToRide c s round)
        have rest := ih (round + 1) (h.moves first) (by omega)
        rw [first.iteration_eq] at rest
        exact (first.mono (Nat.le_refl _) (by omega)).trans (rest.mono (by omega) (by omega))

theorem Moves.depart_moves (moves : Moves c 0 0 s t) {entry : StreetLeg × Nat}
    (member : entry ∈ c.query.access.legs.toList.zipIdx) :
    Moves c 0 0 t (depart c (departureOf c s.iteration) (latestOf c s.iteration) t entry) := by
  have known : c.query.access.legs[entry.2]? = some entry.1 := by
    simpa using List.mem_zipIdx_iff_getElem?.1 member
  rw [← moves.iteration_eq]
  exact Search.depart_moves known

theorem runAccess_moves (h : Consistent c s) :
    Moves c 0 0 s.nextIteration (runAccess c (departureOf c (s.iteration + 1)) s) := by
  have departs : Moves c 0 0 s.nextIteration (c.query.access.legs.toList.zipIdx.foldl
      (depart c (departureOf c (s.iteration + 1)) (latestOf c (s.iteration + 1)))
      s.nextIteration) :=
    Moves.foldl fun _ member _ moves => moves.depart_moves member
  have walks := walkFromAccess_moves (h.nextIteration.moves departs)
  rw [departs.iteration_eq] at walks
  exact departs.trans walks

theorem arrive_moves (h : Consistent c s) (none : c.query.maxBoardings = 0) {stop : StopIndex}
    {label : NodeIndex × Criteria} (current : label ∈ currentLabels s 0 stop)
    (moves : Moves c 0 0 s t) :
    Moves c 0 0 t (finish c (latestOf c s.iteration) (t.tree.node label.1).departure 0 label.1 stop
      label.2 t) := by
  simp only [currentLabels, List.mem_filter, beq_iff_eq] at current
  have before := h.labels _ _ _ current.1
  have isLabel := before.extends moves.extends
  have now : t.tree.iteration label.1 = t.iteration := by
    rw [JourneyTree.iteration, moves.extends.node_eq _ before.older, moves.iteration_eq]
    exact current.2
  have finished := finish_moves isLabel now (.inr none)
  rwa [isLabel.trips, moves.iteration_eq] at finished

theorem arriveOnFoot_moves (h : Consistent c s) (none : c.query.maxBoardings = 0) :
    Moves c 0 0 s (arriveOnFoot c (latestOf c s.iteration) s) := by
  rw [arriveOnFoot, ← Array.foldl_toList]
  refine Moves.foldl fun stop _ t moves => Moves.foldl fun label current u more => ?_
  rw [← moves.iteration_eq]
  exact arrive_moves (h.moves moves) none current more

/-- The state after the rounds for a departure time, when the time is not over before them. -/
def fullIteration (c : Context) (s : SearchState) (departure : SearchTime) : SearchState :=
  (runIteration c .never s departure).state

theorem fullIteration_eq (c : Context) (s : SearchState) (departure : SearchTime) :
    fullIteration c s departure =
      if c.query.maxBoardings = 0 then
        arriveOnFoot c (latestArrival c departure) (runAccess c departure s)
      else
        allRounds c (latestArrival c departure) c.query.maxBoardings 0
          (runAccess c departure s) := by
  simp only [fullIteration, runIteration, allRounds]
  by_cases none : c.query.maxBoardings = 0
  · simp only [if_pos none]
  · simp only [if_neg none]

theorem runIteration_eq {isOver : Checks} {s : SearchState} {departure : SearchTime}
    (whole : (runIteration c isOver s departure).truncated = false) :
    runIteration c isOver s departure = ⟨fullIteration c s departure, false⟩ := by
  rw [fullIteration_eq]
  simp only [runIteration] at whole ⊢
  split
  · rfl
  · next boards =>
      rw [if_neg boards] at whole
      exact runRounds_eq whole

theorem runIteration_never (c : Context) (s : SearchState) (departure : SearchTime) :
    runIteration c .never s departure = ⟨fullIteration c s departure, false⟩ := by
  refine runIteration_eq ?_
  rw [runIteration]
  split
  · rfl
  · exact truncated_runRounds_never ..

theorem fullIteration_moves (h : Consistent c s) :
    Moves c 0 c.query.maxBoardings s.nextIteration
      (fullIteration c s (departureOf c (s.iteration + 1))) := by
  have access := runAccess_moves h
  have consistent := h.nextIteration.moves access
  have number : (runAccess c (departureOf c (s.iteration + 1)) s).iteration = s.iteration + 1 :=
    access.iteration_eq
  rw [fullIteration_eq]
  split
  · next none =>
      have arrivals := arriveOnFoot_moves consistent none
      rw [number] at arrivals
      exact Moves.mono (access.trans arrivals) (Nat.le_refl _) (Nat.zero_le _)
  · have rounds := allRounds_moves c.query.maxBoardings 0 consistent (by omega)
    rw [number] at rounds
    exact (access.mono (Nat.le_refl _) (Nat.zero_le _)).trans (rounds.mono (by omega) (by omega))

/-- The state after some of the departure times of the range. -/
def stateAfter (c : Context) (count : Nat) : SearchState :=
  (c.query.departureTimes.take count).foldl (fullIteration c)
    (SearchState.initial c.timetable.nbOfStops c.query.maxBoardings)

theorem take_departureTimes {count : Nat} (more : count < c.query.departureTimes.length) :
    c.query.departureTimes.take (count + 1) =
      c.query.departureTimes.take count ++ [departureOf c (count + 1)] := by
  rw [List.take_succ_eq_append_getElem more]
  simp [departureOf, more]

theorem departureOf_of_left {count : Nat} {departure : SearchTime} {rest : List SearchTime}
    (left : departure :: rest = c.query.departureTimes.drop count) :
    count < c.query.departureTimes.length ∧ departure = departureOf c (count + 1) ∧
      rest = c.query.departureTimes.drop (count + 1) := by
  have more : count < c.query.departureTimes.length := by
    refine Nat.lt_of_not_le fun past => ?_
    rw [List.drop_eq_nil_of_le past] at left
    cases left
  rw [List.drop_eq_getElem_cons more] at left
  obtain ⟨first, others⟩ := List.cons.inj left
  exact ⟨more, by simp [departureOf, more, first], others⟩

theorem stateAfter_succ {count : Nat} (more : count < c.query.departureTimes.length) :
    stateAfter c (count + 1) =
      fullIteration c (stateAfter c count) (departureOf c (count + 1)) := by
  rw [stateAfter, take_departureTimes more, List.foldl_append]
  rfl

theorem stateAfter_spec {count : Nat} (within : count ≤ c.query.departureTimes.length) :
    Consistent c (stateAfter c count) ∧ (stateAfter c count).iteration = count := by
  induction count with
  | zero => exact ⟨Consistent.initial c, rfl⟩
  | succ count ih =>
      obtain ⟨consistent, number⟩ := ih (by omega)
      have moves := fullIteration_moves consistent
      rw [number, ← stateAfter_succ (by omega)] at moves
      refine ⟨consistent.nextIteration.moves moves, ?_⟩
      rw [moves.iteration_eq]
      exact congrArg (· + 1) number

theorem runAll_never (c : Context) (times : List SearchTime) (s : SearchState) :
    runAll c .never times s = ⟨times.foldl (fullIteration c) s, false⟩ := by
  induction times generalizing s with
  | nil => rfl
  | cons departure rest ih =>
      simp only [runAll, Checks.never, runIteration_never c s departure, Bool.false_eq_true,
        if_false]
      exact ih _

theorem run_eq (c : Context) : run c =
    let start := SearchState.initial c.timetable.nbOfStops c.query.maxBoardings
    if c.query.access.isEmpty || c.query.egress.isEmpty then ⟨start, false⟩
    else if c.query.isLate then ⟨start, true⟩
    else ⟨c.query.departureTimes.foldl (fullIteration c) start, false⟩ := by
  rw [run]
  cases late : c.query.isLate with
  | false =>
      simp only [Bool.false_or, Bool.false_eq_true, if_false, ← runAll_never]
  | true =>
      obtain ⟨departure, rest, times⟩ := List.exists_cons_of_ne_nil c.query.departureTimes_ne_nil
      simp only [times, runAll, Bool.true_or, if_true]

theorem exists_run_eq (c : Context) :
    ∃ count ≤ c.query.departureTimes.length, (run c).state = stateAfter c count := by
  rw [run_eq]
  simp only
  split
  · exact ⟨0, Nat.zero_le _, rfl⟩
  · split
    · exact ⟨0, Nat.zero_le _, rfl⟩
    · refine ⟨_, Nat.le_refl _, ?_⟩
      simp only [stateAfter, List.take_length]

end JourneyPlanner.Search
