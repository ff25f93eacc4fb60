import JourneyPlanner.Proofs.Request.StreetLegs
import JourneyPlanner.Proofs.Search.Stages
import JourneyPlanner.Proofs.Timetable.InRange
import JourneyPlanner.Proofs.Timetable.Trips

/-!
The indices that the states of a search store. At each stage there is a round for each number of
boardings, with a front for each stop; a label and an arrival stand for a node that is there, a node
continues an older one by a trip, a footpath or a leg that is there, and only stops of the layer are
listed as reached.
-/

namespace JourneyPlanner

namespace Search

/-- Whatever the timetable and the legs of a search refer to by an index is there. -/
structure Context.InRange (c : Context) : Prop where
  layer : c.timetable.layer.InRange
  timetable : c.timetable.InRange
  access : ∀ leg ∈ c.query.access.legs, leg.stop < c.timetable.nbOfStops
  egress : ∀ leg ∈ c.query.egress.legs, leg.stop < c.timetable.nbOfStops
  accessTable : c.query.access.legAtStop.size = c.timetable.nbOfStops
  egressTable : c.query.egress.legAtStop.size = c.timetable.nbOfStops

end Search

open Search

/-- Whatever a step to a node refers to by an index is there; its parent is an older node. -/
def Step.InRange (c : Context) (node : NodeIndex) : Step → Prop
  | access leg => leg < c.query.access.size
  | ride parent line trip boardPosition _ debarkPosition =>
      parent < node ∧ ∃ l, c.timetable.lines[line]? = some l ∧ trip.day < l.days.size ∧
        trip.schedule < l.pattern.schedules.size ∧ boardPosition < debarkPosition ∧
          debarkPosition < l.nbOfPositions
  | walk parent footpath _ =>
      parent < node ∧ ∃ leaving, c.timetable.layer.footpaths[footpath.source]? = some leaving ∧
        footpath.rank < leaving.size

theorem Step.InRange.parent_lt {c : Context} {index parent : NodeIndex} {step : Step}
    (h : step.InRange c index) (isParent : step.parent? = some parent) : parent < index := by
  cases step with
  | access leg => cases isParent
  | ride => exact Option.some.inj isParent ▸ h.1
  | walk => exact Option.some.inj isParent ▸ h.1

/-- The fronts and the flags of a round and the stops it lists are those of the stops there are. -/
structure Round.InRange (r : Round) (nbOfStops nbOfNodes : Nat) : Prop where
  transit : r.transit.size = nbOfStops
  all : r.all.size = nbOfStops
  transitLabels : ∀ front ∈ r.transit, ∀ label ∈ front, label.1 < nbOfNodes
  labels : ∀ front ∈ r.all, ∀ label ∈ front, label.1 < nbOfNodes
  transitStops : ∀ stop ∈ r.transitStops, stop < nbOfStops
  stops : ∀ stop ∈ r.stops, stop < nbOfStops
  flags : r.touched.flags.size = nbOfStops ∧ r.touchedByTransit.flags.size = nbOfStops

/-- The stops that a round lists are those whose flags are up. -/
theorem Round.InRange.mem_iff_flag {r : Round} {nbOfStops nbOfNodes : Nat}
    (h : r.InRange nbOfStops nbOfNodes) (stop : StopIndex) :
    (stop ∈ r.stops ↔ r.touched.flags[stop]? = some true) ∧
      (stop ∈ r.transitStops ↔ r.touchedByTransit.flags[stop]? = some true) :=
  ⟨TouchedStops.mem_iff_flag (fun x member => h.flags.1.symm ▸ h.stops x member) stop,
    TouchedStops.mem_iff_flag (fun x member => h.flags.2.symm ▸ h.transitStops x member) stop⟩

/-- Whatever a state of a search refers to by an index is there. -/
structure SearchState.InRange (s : SearchState) (c : Context) : Prop where
  rounds : s.rounds.size = c.query.maxBoardings + 1
  fronts : ∀ round ∈ s.rounds, round.InRange c.timetable.nbOfStops s.tree.size
  nodes : ∀ (i : NodeIndex) (node : Node), s.tree.nodes[i]? = some node →
    node.stop < c.timetable.nbOfStops ∧ node.criteria.nbOfTrips < s.rounds.size ∧
      node.step.InRange c i
  arrived : ∀ arrived ∈ s.arrived, arrived.1.node < s.tree.size ∧
    arrived.1.egress < c.query.egress.size

theorem JourneyTree.getElem?_nodes {tree : JourneyTree} {index : NodeIndex}
    (inside : index < tree.size) : tree.nodes[index]? = some (tree.node index) := by
  have inside : index < tree.nodes.size := inside
  simp [JourneyTree.node, inside]

namespace Search

variable {c : Context} {s t : SearchState} {round : Nat}

theorem Context.InRange.line (h : c.InRange) {line : LineIndex} {position : Nat}
    (inside : position < (c.timetable.line line).nbOfPositions) :
    c.timetable.lines[line]? = some (c.timetable.line line) ∧
      (c.timetable.line line).InRange c.timetable.layer := by
  have known := Timetable.getElem?_lines (Timetable.lt_nbOfLines inside)
  exact ⟨known, h.timetable.lines _ (Array.mem_of_getElem? known)⟩

theorem Context.InRange.stopAt_lt (h : c.InRange) {line : LineIndex} {position : Nat}
    (inside : position < (c.timetable.line line).nbOfPositions) :
    (c.timetable.line line).stopAt position < c.timetable.nbOfStops :=
  (h.line inside).2.stops _ (Array.mem_of_getElem? (Line.getElem?_stops inside))

theorem Context.InRange.walk (h : c.InRange) {stop : StopIndex} {walk : Walk}
    (known : walk ∈ c.timetable.walksFrom stop) :
    walk.target < c.timetable.nbOfStops ∧ ∃ leaving,
      c.timetable.layer.footpaths[walk.footpath.source]? = some leaving ∧
        walk.footpath.rank < leaving.size := by
  by_cases inside : stop < c.timetable.stopWalks.size
  · rw [Timetable.walksFrom, Array.getD_eq_getD_getElem?, Array.getElem?_eq_getElem inside,
      Option.getD_some] at known
    exact h.timetable.walks _ (Array.getElem_mem inside) walk known
  · simp [Timetable.walksFrom, inside] at known

theorem Follows.stop_inRange {tree : JourneyTree} {bound : NodeIndex} {node : Node} (h : c.InRange)
    (follows : Follows c tree bound node) : node.stop < c.timetable.nbOfStops := by
  cases follows with
  | access known => exact h.access _ (Array.mem_of_getElem? known)
  | walk _ _ known => exact (h.walk known).1
  | ride _ _ _ _ inside => exact h.stopAt_lt inside

theorem board_inRange (h : c.InRange) {line : LineIndex} {position : Nat} {tree : JourneyTree}
    {label : NodeIndex × Criteria} {o : Onboard}
    (inside : position < (c.timetable.line line).nbOfPositions)
    (boarded : board c (c.timetable.line line) position tree label = some o) :
    o.trip.day < (c.timetable.line line).days.size ∧
      o.trip.schedule < (c.timetable.line line).pattern.schedules.size := by
  obtain ⟨trip, time, earliest, rfl⟩ := board_eq_some boarded
  obtain ⟨boards, -⟩ := Line.earliestTrip_spec earliest
  have onDay := Array.mem_of_getElem? (Line.getElem?_days boards.day_lt)
  exact ⟨boards.day_lt, (h.line inside).2.schedules _ onDay _ boards.runs⟩

theorem Follows.step_inRange {tree : JourneyTree} {bound : NodeIndex} {node : Node} (h : c.InRange)
    (follows : Follows c tree bound node) : node.step.InRange c bound := by
  cases follows with
  | access known => exact (Array.getElem?_eq_some_iff.1 known).1
  | walk older _ known => exact ⟨older, (h.walk known).2⟩
  | ride older boarded _ ahead inside =>
      obtain ⟨day, schedule⟩ := board_inRange h (Nat.lt_trans ahead inside) boarded
      exact ⟨older, _, (h.line inside).1, day, schedule, ahead, inside⟩

/-- Only stops of the layer are listed as reached. -/
def Listed (c : Context) (s : SearchState) : Prop :=
  ∀ i, (∀ stop ∈ (s.round i).transitStops, stop < c.timetable.nbOfStops) ∧
    ∀ stop ∈ (s.round i).stops, stop < c.timetable.nbOfStops

namespace Listed

variable {stop : StopIndex} {node : NodeIndex} {criteria : Criteria}

theorem insert (h : Listed c s) (known : stop < c.timetable.nbOfStops) :
    Listed c (s.insert c.profile stop round node criteria) := by
  refine fun i => ⟨fun x member => ?_, fun x member => ?_⟩
  · rw [Round.transitStops, SearchState.touchedByTransit_insert] at member
    exact (h i).1 x member
  · rw [Round.stops, SearchState.touched_insert] at member
    split at member
    · rcases TouchedStops.mem_touch.1 member with old | rfl
      · exact (h round).2 x old
      · exact known
    · exact (h i).2 x member

theorem insertTransit (h : Listed c s) (known : stop < c.timetable.nbOfStops) :
    Listed c (s.insertTransit c.profile stop round node criteria) := by
  refine fun i => ⟨fun x member => ?_, fun x member => ?_⟩
  · rw [Round.transitStops, SearchState.touchedByTransit_insertTransit] at member
    split at member
    · rcases TouchedStops.mem_touch.1 member with old | rfl
      · exact (h round).1 x old
      · exact known
    · exact (h i).1 x member
  · rw [Round.stops, SearchState.touched_insertTransit] at member
    exact (h i).2 x member

theorem stepOff (h : Listed c s) {node : Node} (known : node.stop < c.timetable.nbOfStops) :
    Listed c (s.stepOff c.profile round node) :=
  insertTransit (s := s.pushNode node) h known

theorem move (h : Listed c s) (inRange : c.InRange) (move : Move c round s t) : Listed c t := by
  cases move with
  | reach follows => exact insert (s := s.pushNode _) h (follows.stop_inRange inRange)
  | alight follows =>
      have known := follows.stop_inRange inRange
      rw [SearchState.alight_eq]
      split
      · exact h.stepOff known
      · exact (h.stepOff known).insert known
  | arrive => exact h
  | count => exact h

theorem of_nothing (h : ∀ i, (s.round i).transitStops = #[] ∧ (s.round i).stops = #[]) :
    Listed c s := by
  intro i
  obtain ⟨byVehicle, any⟩ := h i
  rw [byVehicle, any]
  exact ⟨fun _ none => absurd none (Array.not_mem_empty _),
    fun _ none => absurd none (Array.not_mem_empty _)⟩

theorem nextIteration (s : SearchState) : Listed c s.nextIteration := by
  refine of_nothing fun i => ?_
  rw [SearchState.round_nextIteration]
  exact ⟨rfl, rfl⟩

theorem initial (nbOfStops last : Nat) : Listed c (SearchState.initial nbOfStops last) := by
  refine of_nothing fun i => ?_
  by_cases inside : i < last + 1
  · simp [SearchState.round, SearchState.initial, inside, Round.empty, TouchedStops.empty]
  · simp only [SearchState.round, SearchState.initial, Array.getD_eq_getD_getElem?,
      Array.getElem?_replicate, if_neg inside, Option.getD_none]
    exact ⟨rfl, rfl⟩

end Listed

theorem Reached.listed (reached : Reached c s) (inRange : c.InRange) : Listed c s := by
  induction reached with
  | refl => exact Listed.initial _ _
  | tail _ next ih =>
      cases next with
      | iteration => exact Listed.nextIteration _
      | move move => exact ih.move inRange move

theorem inRange_of_consistent (h : c.InRange) (consistent : Consistent c t)
    (tree : s.tree = t.tree) (arrived : s.arrived = t.arrived)
    (sized : s.Sized c.timetable.nbOfStops c.query.maxBoardings) (listed : Listed c s)
    (transitLabels : ∀ i stop, ∀ label ∈ (s.round i).transitFront stop, label.1 < s.tree.size)
    (labels : ∀ i stop, ∀ label ∈ (s.round i).front stop, label.1 < s.tree.size) :
    s.InRange c := by
  refine ⟨sized.rounds, fun round member => ?_, fun i node known => ?_, fun found member => ?_⟩
  · obtain ⟨i, inside, rfl⟩ := Array.getElem_of_mem member
    have same : s.rounds[i] = s.round i := by
      simp [SearchState.round, inside]
    have within : i ≤ c.query.maxBoardings := by
      have := sized.rounds
      omega
    rw [same]
    refine ⟨sized.transit i within, sized.all i within, fun front among label inFront => ?_,
      fun front among label inFront => ?_, (listed i).1, (listed i).2, sized.flags i within⟩
    · obtain ⟨stop, known, rfl⟩ := Array.getElem_of_mem among
      refine transitLabels i stop label ?_
      simpa [Round.transitFront, known] using inFront
    · obtain ⟨stop, known, rfl⟩ := Array.getElem_of_mem among
      refine labels i stop label ?_
      simpa [Round.front, known] using inFront
  · rw [tree] at known
    have inside : i < t.tree.size := (Array.getElem?_eq_some_iff.1 known).1
    obtain rfl := Option.some.inj ((JourneyTree.getElem?_nodes inside).symm.trans known)
    rw [sized.rounds]
    have follows := consistent.follows i inside
    exact ⟨follows.stop_inRange h, Nat.lt_succ_of_le (consistent.allowed i inside),
      follows.step_inRange h⟩
  · rw [arrived] at member
    obtain ⟨leg, arrival⟩ := consistent.arrived found member
    rw [tree]
    refine ⟨arrival.older, ?_⟩
    obtain ⟨index, known, made⟩ := Option.map_eq_some_iff.1 arrival.atStop
    cases made
    exact (StreetLegs.indexAt?_eq_some known).1

theorem Reached.inRange (reached : Reached c s) (h : c.InRange) : s.InRange c := by
  have consistent := reached.consistent
  exact inRange_of_consistent h consistent rfl rfl consistent.sized (reached.listed h)
    (fun i stop label member => (consistent.transitLabels i stop label member).1.older)
    fun i stop label member => (consistent.labels i stop label member).older

theorem inRange_of_mem_stages (h : c.InRange) {stage : Stage} (member : stage ∈ stages c) :
    stage.state.InRange c := by
  cases isStage_of_mem_stages member with
  | settled reached => exact reached.inRange h
  | @halfway round s node reached getsOff =>
      -- The label is in one of its two fronts, and the node is in the tree.
      have later := (reached.moves getsOff.move.moves).consistent
      have tree : (s.stepOff c.profile round node).tree = (s.alight c.profile round node).tree := by
        rw [SearchState.tree_alight]
        rfl
      change (s.stepOff c.profile round node).InRange c
      refine inRange_of_consistent h later tree ?_ (reached.consistent.sized.stepOff ..)
        ((reached.listed h).stepOff (getsOff.follows.stop_inRange h))
        (fun i stop label among => ?_) fun i stop label among => ?_
      · rw [SearchState.arrived_alight]
        rfl
      · rw [← SearchState.transitFront_alight] at among
        exact tree ▸ (later.transitLabels i stop label among).1.older
      · rw [SearchState.front_stepOff] at among
        exact ((reached.consistent.labels i stop label among).push node).older

end Search

end JourneyPlanner
