import JourneyPlanner.Proofs.Search.Frame

/-!
The invariant of a search: each node follows from the older ones, each label says what its node
says and stands in the front of its stop and of its number of vehicles, each arrival at the
destination belongs to a node, and the stops with a label of the iteration are listed. Every move
keeps it, and so does the start of an iteration.
-/

namespace JourneyPlanner.Search

/-- A label of a stop in a round stands for its node. -/
structure IsLabel (tree : JourneyTree) (round : Nat) (stop : StopIndex)
    (label : NodeIndex × Criteria) : Prop where
  older : label.1 < tree.size
  stop_eq : (tree.node label.1).stop = stop
  criteria_eq : (tree.node label.1).criteria = label.2
  trips : label.2.nbOfTrips = round

structure Consistent (c : Context) (s : SearchState) : Prop where
  sized : s.Sized c.timetable.nbOfStops c.query.maxBoardings
  follows : ∀ i < s.tree.size, Follows c s.tree i (s.tree.node i)
  past : ∀ i < s.tree.size, s.tree.iteration i ≤ s.iteration
  allowed : ∀ i < s.tree.size,
    (s.tree.node i).criteria.nbOfTrips ≤ c.query.maxBoardings
  labels : ∀ round stop label, label ∈ (s.round round).front stop →
    IsLabel s.tree round stop label
  transitLabels : ∀ round stop label, label ∈ (s.round round).transitFront stop →
    IsLabel s.tree round stop label ∧ (s.tree.node label.1).step.isRide = true
  arrived : ∀ arrived ∈ s.arrived, ∃ leg, IsArrival c s.tree arrived leg
  touched : ∀ round stop label, label ∈ (s.round round).front stop →
    s.tree.iteration label.1 = s.iteration → stop ∈ (s.round round).stops
  transitTouched : ∀ round stop label, label ∈ (s.round round).transitFront stop →
    s.tree.iteration label.1 = s.iteration → stop ∈ (s.round round).transitStops

variable {c : Context} {t u : JourneyTree}

theorem IsLabel.extends {round : Nat} {stop : StopIndex} {label : NodeIndex × Criteria}
    (h : IsLabel t round stop label) (more : t.Extends u) : IsLabel u round stop label := by
  have same := more.node_eq _ h.older
  exact ⟨Nat.lt_of_lt_of_le h.older more.size_le, by rw [same, h.stop_eq],
    by rw [same, h.criteria_eq], h.trips⟩

theorem IsLabel.push {round : Nat} {stop : StopIndex} {label : NodeIndex × Criteria}
    (h : IsLabel t round stop label) (node : Node) : IsLabel (t.push node) round stop label :=
  h.extends (JourneyTree.Extends.push t node)

theorem IsLabel.node_push {round : Nat} {stop : StopIndex} {label : NodeIndex × Criteria}
    (h : IsLabel t round stop label) (node : Node) : (t.push node).node label.1 = t.node label.1 :=
  JourneyTree.node_push_of_lt h.older

theorem IsArrival.extends {arrived : Arrived × ArrivalCriteria} {leg : StreetLeg}
    (h : IsArrival c t arrived leg) (more : t.Extends u) : IsArrival c u arrived leg := by
  have same := more.node_eq _ h.older
  refine ⟨Nat.lt_of_lt_of_le h.older more.size_le, ?_, ?_, ?_, ?_⟩
  · rw [same, h.atStop]
  · rw [same, h.criteria_eq]
  · rw [JourneyTree.iteration, same]
    exact h.inTime
  · rw [same]
    exact h.byVehicle

theorem board_congr (line : Line) (position : Nat) (label : NodeIndex × Criteria)
    (same : u.node label.1 = t.node label.1) :
    board c line position u label = board c line position t label := by
  simp only [board, same]

theorem board_eq_some {line : Line} {position : Nat} {tree : JourneyTree}
    {label : NodeIndex × Criteria} {o : Onboard} (h : board c line position tree label = some o) :
    ∃ trip time, line.earliestTrip (c.query.readyTime label.2) position = some (trip, time) ∧
      o = {
        parent := label.1
        trip := trip
        boardPosition := position
        boardTime := time
        departure :=
          if 0 < label.2.nbOfTrips then (tree.node label.1).departure
          else time - label.2.arrival.sinceOrZero (tree.node label.1).departure
        nbOfTrips := label.2.nbOfTrips + 1
        boardCost :=
          if 0 < label.2.nbOfTrips then
            label.2.cost + c.query.costs.boardingAfter label.2.nbOfTrips +
              c.query.costs.wait (time.sinceOrZero label.2.arrival)
          else label.2.cost + c.query.costs.boardingAfter label.2.nbOfTrips } := by
  simp only [board] at h
  cases earliest : line.earliestTrip (c.query.readyTime label.2) position with
  | none =>
      rw [earliest] at h
      cases h
  | some boarding =>
      obtain ⟨trip, time⟩ := boarding
      rw [earliest] at h
      exact ⟨trip, time, rfl, (Option.some.inj h).symm⟩

theorem Follows.extends {bound : NodeIndex} {node : Node} (h : Follows c t bound node)
    (more : t.Extends u) (within : bound ≤ t.size) : Follows c u bound node := by
  cases h with
  | access known inTime => exact .access known inTime
  | @walk parent walk older rested known inTime =>
      have same := more.node_eq parent (Nat.lt_of_lt_of_le older within)
      have next := @Follows.walk c u bound parent walk older
      simp only [JourneyTree.iteration, JourneyTree.walkNode, same] at next rested known inTime ⊢
      exact next rested known inTime
  | @ride line o position older boarded atStop ahead inside inTime =>
      have same := more.node_eq o.parent (Nat.lt_of_lt_of_le older within)
      have carried := board_congr (c := c) (c.timetable.line line) o.boardPosition
        (o.parent, (t.node o.parent).criteria) same
      have next := @Follows.ride c u bound line o position older
      simp only [JourneyTree.iteration, same, carried] at next
      exact next boarded atStop ahead inside inTime

theorem Follows.parent_lt {bound : NodeIndex} {node : Node} (h : Follows c t bound node)
    {parent : NodeIndex} (known : node.step.parent? = some parent) : parent < bound := by
  cases h with
  | access => cases known
  | walk older =>
      cases known
      exact older
  | ride older =>
      cases known
      exact older

theorem Follows.arrival_le_latestOf {bound : NodeIndex} {node : Node}
    (h : Follows c t bound node) : node.criteria.arrival ≤ latestOf c node.iteration := by
  cases h with
  | access _ inTime => exact inTime
  | walk _ _ _ inTime => exact inTime
  | ride _ _ _ _ _ inTime => exact inTime

theorem Follows.nbOfTrips_pos {bound : NodeIndex} {node : Node}
    (h : Follows c t bound node) (byVehicle : node.step.isRide = true) :
    0 < node.criteria.nbOfTrips := by
  cases h with
  | access => cases byVehicle
  | walk => cases byVehicle
  | @ride line o position older boarded =>
      obtain ⟨trip, time, -, equal⟩ := board_eq_some boarded
      have trips : o.nbOfTrips = (t.node o.parent).criteria.nbOfTrips + 1 := by rw [equal]
      change 0 < o.nbOfTrips
      omega

/-- The arrival at the stop of a leg for a departure time. -/
def legCriteria (c : Context) (departure : SearchTime) (leg : StreetLeg) : Criteria :=
  ⟨departure + leg.duration, 0, c.query.legCost leg⟩

namespace Consistent

variable {round : Nat} {s : SearchState}

theorem forall_push (P : NodeIndex → Node → Prop) {node : Node}
    (old : ∀ i < t.size, P i (t.node i)) (new : P t.size node) :
    ∀ i < (t.push node).size, P i ((t.push node).node i) := by
  intro i inside
  rw [JourneyTree.size_push] at inside
  by_cases older : i < t.size
  · rw [JourneyTree.node_push_of_lt older]
    exact old i older
  · have last : i = t.size := by omega
    rw [last, JourneyTree.node_push_size]
    exact new

theorem isLabel_new (t : JourneyTree) {node : Node} (trips : node.criteria.nbOfTrips = round) :
    IsLabel (t.push node) round node.stop (t.size, node.criteria) :=
  ⟨by simp, by simp, by simp, trips⟩

theorem isLabel_alight (p : Profile) (s : SearchState) {node : Node}
    (trips : node.criteria.nbOfTrips = round) :
    IsLabel (s.alight p round node).tree round node.stop (s.tree.size, node.criteria) := by
  rw [SearchState.tree_alight]
  exact isLabel_new s.tree trips

theorem tree_push (h : Consistent c s) {node : Node} (follows : Follows c s.tree s.tree.size node)
    (now : node.iteration = s.iteration)
    (allowed : node.criteria.nbOfTrips ≤ c.query.maxBoardings) :
    (∀ i < (s.tree.push node).size,
        Follows c (s.tree.push node) i ((s.tree.push node).node i)) ∧
      (∀ i < (s.tree.push node).size, ((s.tree.push node).node i).iteration ≤ s.iteration) ∧
      (∀ i < (s.tree.push node).size,
        ((s.tree.push node).node i).criteria.nbOfTrips ≤ c.query.maxBoardings) ∧
      ∀ arrived ∈ s.arrived, ∃ leg, IsArrival c (s.tree.push node) arrived leg := by
  have more := JourneyTree.Extends.push s.tree node
  refine ⟨?_, ?_, ?_, ?_⟩
  · refine forall_push (Follows c (s.tree.push node)) (fun i older => ?_)
      (follows.extends more (Nat.le_refl _))
    exact (h.follows i older).extends more (Nat.le_of_lt older)
  · exact forall_push (fun _ n => n.iteration ≤ s.iteration) h.past (Nat.le_of_eq now)
  · exact forall_push (fun _ n => n.criteria.nbOfTrips ≤ c.query.maxBoardings) h.allowed allowed
  · intro arrived member
    obtain ⟨leg, arrival⟩ := h.arrived arrived member
    exact ⟨leg, arrival.extends more⟩

theorem nbOfTrips_le (h : Consistent c s) {node : Node}
    (follows : Follows c s.tree s.tree.size node) (onFoot : node.step.isRide = false) :
    node.criteria.nbOfTrips ≤ c.query.maxBoardings := by
  cases follows with
  | access => exact Nat.zero_le _
  | walk older => exact h.allowed _ older
  | ride => cases onFoot

theorem reach (h : Consistent c s) {node : Node} (follows : Follows c s.tree s.tree.size node)
    (onFoot : node.step.isRide = false) (now : node.iteration = s.iteration)
    (trips : node.criteria.nbOfTrips = round) :
    Consistent c (s.reach c.profile round node) := by
  obtain ⟨grown, past, allowed, arrived⟩ := h.tree_push follows now (h.nbOfTrips_le follows onFoot)
  refine ⟨h.sized.reach _ _ _, grown, past, allowed, ?_, ?_, arrived, ?_, ?_⟩
  · intro i stop label member
    rcases SearchState.mem_front_reach member with old | ⟨⟨rfl, rfl, rfl⟩, -⟩
    · exact (h.labels i stop label old).push node
    · exact isLabel_new s.tree trips
  · intro i stop label member
    rw [SearchState.transitFront_reach] at member
    obtain ⟨known, byVehicle⟩ := h.transitLabels i stop label member
    rw [SearchState.tree_reach, known.node_push node]
    exact ⟨known.push node, byVehicle⟩
  · intro i stop label member current
    rcases SearchState.mem_front_reach member with old | ⟨-, listed⟩
    · refine SearchState.mem_stops_reach (h.touched i stop label old ?_)
      rwa [SearchState.tree_reach, JourneyTree.iteration,
        (h.labels i stop label old).node_push node] at current
    · exact listed
  · intro i stop label member current
    rw [SearchState.transitFront_reach] at member
    rw [Round.transitStops, SearchState.touchedByTransit_reach]
    refine h.transitTouched i stop label member ?_
    rwa [SearchState.tree_reach, JourneyTree.iteration,
      (h.transitLabels i stop label member).1.node_push node] at current

theorem alight (h : Consistent c s) {node : Node} (follows : Follows c s.tree s.tree.size node)
    (byVehicle : node.step.isRide = true) (now : node.iteration = s.iteration)
    (trips : node.criteria.nbOfTrips = round) (within : round ≤ c.query.maxBoardings) :
    Consistent c (s.alight c.profile round node) := by
  obtain ⟨grown, past, allowed, arrived⟩ := h.tree_push follows now (trips ▸ within)
  refine ⟨h.sized.alight _ _ _, ?_, ?_, ?_, ?_, ?_, ?_, ?_, ?_⟩
  · rwa [SearchState.tree_alight]
  · rwa [SearchState.tree_alight, SearchState.iteration_alight]
  · rwa [SearchState.tree_alight]
  · intro i stop label member
    rw [SearchState.tree_alight]
    rcases SearchState.mem_front_alight member with old | ⟨⟨rfl, rfl, rfl⟩, -⟩
    · exact (h.labels i stop label old).push node
    · exact isLabel_new s.tree trips
  · intro i stop label member
    rw [SearchState.tree_alight]
    rcases SearchState.mem_transitFront_alight member with old | ⟨⟨rfl, rfl, rfl⟩, -⟩
    · obtain ⟨known, rides⟩ := h.transitLabels i stop label old
      rw [known.node_push node]
      exact ⟨known.push node, rides⟩
    · refine ⟨isLabel_new s.tree trips, ?_⟩
      rwa [JourneyTree.node_push_size]
  · rwa [SearchState.arrived_alight, SearchState.tree_alight]
  · intro i stop label member current
    rcases SearchState.mem_front_alight member with old | ⟨-, listed⟩
    · refine SearchState.mem_stops_alight (h.touched i stop label old ?_)
      rwa [SearchState.tree_alight, SearchState.iteration_alight, JourneyTree.iteration,
        (h.labels i stop label old).node_push node] at current
    · exact listed
  · intro i stop label member current
    rcases SearchState.mem_transitFront_alight member with old | ⟨-, listed⟩
    · refine SearchState.mem_transitStops_alight (h.transitTouched i stop label old ?_)
      rwa [SearchState.tree_alight, SearchState.iteration_alight, JourneyTree.iteration,
        (h.transitLabels i stop label old).1.node_push node] at current
    · exact listed

theorem arrive (h : Consistent c s) {arrived : Arrived} {criteria : ArrivalCriteria}
    {leg : StreetLeg} (arrival : IsArrival c s.tree (arrived, criteria) leg) :
    Consistent c (s.arrive c.profile arrived criteria) := by
  refine ⟨⟨h.sized.rounds, h.sized.all, h.sized.transit, h.sized.flags⟩, h.follows, h.past, h.allowed, h.labels,
    h.transitLabels, ?_, h.touched, h.transitTouched⟩
  intro other member
  rcases Front.mem_of_mem_add member with old | rfl
  · exact h.arrived other old
  · exact ⟨leg, arrival⟩

theorem move (h : Consistent c s) {s' : SearchState} (move : Move c round s s') :
    Consistent c s' := by
  cases move with
  | reach follows onFoot now trips => exact h.reach follows onFoot now trips
  | alight follows byVehicle now trips allowed => exact h.alight follows byVehicle now trips allowed
  | arrive arrival => exact h.arrive arrival
  | count =>
      exact ⟨⟨h.sized.rounds, h.sized.all, h.sized.transit, h.sized.flags⟩, h.follows, h.past, h.allowed,
        h.labels, h.transitLabels, h.arrived, h.touched, h.transitTouched⟩

theorem moves (h : Consistent c s) {first last : Nat} {s' : SearchState}
    (moves : Moves c first last s s') : Consistent c s' := by
  induction moves with
  | refl => exact h
  | tail _ step ih =>
      obtain ⟨i, -, move⟩ := step
      exact ih.move move

theorem initial (c : Context) :
    Consistent c (SearchState.initial c.timetable.nbOfStops c.query.maxBoardings) := by
  have front (i : Nat) (stop : StopIndex) :
      ((SearchState.initial c.timetable.nbOfStops c.query.maxBoardings).round i).front stop = [] ∧
        ((SearchState.initial c.timetable.nbOfStops c.query.maxBoardings).round i).transitFront
          stop = [] :=
    SearchState.initial_fronts _ _ _ _
  refine ⟨SearchState.Sized.initial _ _, ?_, ?_, ?_, ?_, ?_, ?_, ?_, ?_⟩
  · intro i inside
    cases inside
  · intro i inside
    cases inside
  · intro i inside
    cases inside
  · intro i stop label member
    rw [(front i stop).1] at member
    cases member
  · intro i stop label member
    rw [(front i stop).2] at member
    cases member
  · intro arrived member
    cases member
  · intro i stop label member
    rw [(front i stop).1] at member
    cases member
  · intro i stop label member
    rw [(front i stop).2] at member
    cases member

theorem nextIteration (h : Consistent c s) : Consistent c s.nextIteration := by
  have older : ∀ i < s.tree.size, s.tree.iteration i ≠ s.iteration + 1 := by
    intro i inside
    have := h.past i inside
    omega
  refine ⟨h.sized.nextIteration, h.follows, ?_, h.allowed, ?_, ?_, h.arrived, ?_, ?_⟩
  · intro i inside
    exact Nat.le_succ_of_le (h.past i inside)
  · intro i stop label member
    rw [SearchState.round_nextIteration] at member
    exact h.labels i stop label member
  · intro i stop label member
    rw [SearchState.round_nextIteration] at member
    exact h.transitLabels i stop label member
  · intro i stop label member current
    rw [SearchState.round_nextIteration] at member
    exact absurd current (older _ (h.labels i stop label member).older)
  · intro i stop label member current
    rw [SearchState.round_nextIteration] at member
    exact absurd current (older _ (h.transitLabels i stop label member).1.older)

theorem criteria_of_rested (h : Consistent c s) {i : NodeIndex} (inside : i < s.tree.size)
    (trips : (s.tree.node i).criteria.nbOfTrips = 0)
    (rested : (s.tree.node i).step.isWalk = false) :
    (s.tree.node i).step.isAccess = true ∧ ∃ leg ∈ c.query.access.legs,
      leg.stop = (s.tree.node i).stop ∧
        (s.tree.node i).criteria = legCriteria c (departureOf c (s.tree.iteration i)) leg := by
  have follows := h.follows i inside
  have byVehicle := mt follows.nbOfTrips_pos (by omega)
  rw [JourneyTree.iteration]
  generalize s.tree.node i = node at follows rested byVehicle ⊢
  cases follows with
  | access known => exact ⟨rfl, _, Array.mem_of_getElem? known, rfl, rfl⟩
  | walk => cases rested
  | ride => exact absurd rfl byVehicle

theorem criteria_of_onFoot (h : Consistent c s) {i : NodeIndex} (inside : i < s.tree.size)
    (trips : (s.tree.node i).criteria.nbOfTrips = 0) :
    ∃ leg ∈ c.query.access.legs,
      let criteria := legCriteria c (departureOf c (s.tree.iteration i)) leg
      ((s.tree.node i).step.isAccess = true ∧ leg.stop = (s.tree.node i).stop ∧
          (s.tree.node i).criteria = criteria) ∨
        (s.tree.node i).step.isWalk = true ∧ ∃ w ∈ c.timetable.walksFrom leg.stop,
          w.target = (s.tree.node i).stop ∧ (s.tree.node i).criteria = walkCriteria c criteria w := by
  cases walks : (s.tree.node i).step.isWalk with
  | false =>
      obtain ⟨byLeg, leg, member, found⟩ := h.criteria_of_rested inside trips walks
      exact ⟨leg, member, .inl ⟨byLeg, found⟩⟩
  | true =>
      have follows := h.follows i inside
      rw [JourneyTree.iteration]
      generalize s.tree.node i = node at follows walks trips ⊢
      cases follows with
      | access => cases walks
      | @walk parent w older rested known inTime =>
          obtain ⟨-, leg, member, atStop, criteria⟩ :=
            h.criteria_of_rested (Nat.lt_trans older inside) trips rested
          refine ⟨leg, member, .inr ⟨rfl, w, atStop ▸ known, rfl, ?_⟩⟩
          exact congrArg (fun from' => walkCriteria c from' w) criteria
      | ride => cases walks

end Consistent

end JourneyPlanner.Search
