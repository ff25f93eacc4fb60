import JourneyPlanner.Proofs.Journey.Transfers
import JourneyPlanner.Proofs.Request.Context
import JourneyPlanner.Proofs.Search.Stages

/-!
The partial journeys of a search, whether or not a front still knows them. From any node the parents
lead back to a leg from the origin, within one iteration and without going forward in time. Read from
there, at most one walk comes first, and then rides with at most one walk after each. A ride leaves
the stop of its parent on a vehicle that its parent can board, and ends further down the line.
-/

namespace JourneyPlanner

/-- Rides, each with at most one walk after it. -/
inductive Rides : List Step → Prop
  | nil : Rides []
  | ride {ride : Step} {rest : List Step} (isRide : ride.isRide = true) (others : Rides rest) :
      Rides (ride :: rest)
  | rideAndWalk {ride walk : Step} {rest : List Step} (isRide : ride.isRide = true)
      (isWalk : walk.isWalk = true) (others : Rides rest) : Rides (ride :: walk :: rest)

/-- A leg from the origin, at most one walk, and rides. -/
def IsFromOrigin (steps : List Step) : Prop :=
  ∃ access, ∃ first : Option Step, ∃ rides, steps = access :: (first.toList ++ rides) ∧
    access.isAccess = true ∧ (∀ walk ∈ first, walk.isWalk = true) ∧ Rides rides

namespace Rides

variable {steps : List Step} {step : Step}

theorem concat_ride (h : Rides steps) (isRide : step.isRide = true) : Rides (steps ++ [step]) := by
  induction h with
  | nil => exact .ride isRide .nil
  | ride first _ ih => exact .ride first ih
  | rideAndWalk first isWalk _ ih => exact .rideAndWalk first isWalk ih

theorem concat_walk (h : Rides steps) (some : steps ≠ [])
    (rested : ∀ last ∈ steps.getLast?, last.isWalk = false) (isWalk : step.isWalk = true) :
    Rides (steps ++ [step]) := by
  induction h with
  | nil => exact absurd rfl some
  | @ride ride rest isRide _ ih =>
      by_cases alone : rest = []
      · rw [alone]
        exact .rideAndWalk isRide isWalk .nil
      · refine .ride isRide (ih alone fun last member => rested last ?_)
        rwa [List.getLast?_cons_of_ne_nil alone]
  | @rideAndWalk ride walk rest isRide walks _ ih =>
      by_cases alone : rest = []
      · rw [alone] at rested
        rw [rested walk rfl] at walks
        cases walks
      · refine .rideAndWalk isRide walks (ih alone fun last member => rested last ?_)
        rwa [List.getLast?_cons_of_ne_nil (List.cons_ne_nil _ _),
          List.getLast?_cons_of_ne_nil alone]

end Rides

namespace IsFromOrigin

variable {steps : List Step} {step : Step}

theorem concat_ride (h : IsFromOrigin steps) (isRide : step.isRide = true) :
    IsFromOrigin (steps ++ [step]) := by
  obtain ⟨access, first, rides, rfl, isAccess, isWalk, others⟩ := h
  exact ⟨access, first, rides ++ [step], by simp, isAccess, isWalk, others.concat_ride isRide⟩

theorem concat_walk (h : IsFromOrigin steps)
    (rested : ∀ last ∈ steps.getLast?, last.isWalk = false) (isWalk : step.isWalk = true) :
    IsFromOrigin (steps ++ [step]) := by
  obtain ⟨access, first, rides, rfl, isAccess, walks, others⟩ := h
  by_cases alone : rides = []
  · subst alone
    cases first with
    | none =>
        exact ⟨access, some step, [], rfl, isAccess, fun _ new => Option.some.inj new ▸ isWalk, .nil⟩
    | some walk =>
        have walked := walks walk rfl
        rw [rested walk rfl] at walked
        cases walked
  · refine ⟨access, first, rides ++ [step], by simp, isAccess, walks,
      others.concat_walk alone (fun last member => rested last ?_) isWalk⟩
    rw [← List.cons_append, List.getLast?_append, member]
    rfl

end IsFromOrigin

/-- Some nodes from one without parent to a given one, each the parent of the next. -/
inductive JourneyTree.IsTrail (t : JourneyTree) : List NodeIndex → NodeIndex → Prop
  | first {i : NodeIndex} (origin : t.parent? i = none) : IsTrail t [i] i
  | next {nodes : List NodeIndex} {parent i : NodeIndex} (before : IsTrail t nodes parent)
      (known : t.parent? i = some parent) : IsTrail t (nodes ++ [i]) i

namespace Search

/-- How a ride continues a node, and where it ends. -/
structure RidesOn (c : Context) (line : Line) (parent node : Node) (trip : TripOnDay)
    (boardPosition : Nat) (boardTime : SearchTime) (debarkPosition : Nat) : Prop where
  ahead : boardPosition < debarkPosition
  inside : debarkPosition < line.nbOfPositions
  boardStop : line.stopAt boardPosition = parent.stop
  debarkStop : line.stopAt debarkPosition = node.stop
  boardTime_eq : boardTime = line.boardTime trip boardPosition
  ready : c.query.readyTime parent.criteria ≤ boardTime
  arrival : node.criteria.arrival = line.debarkTime trip debarkPosition

/-- How a node of a tree continues its parent, if it has one. -/
structure Continues (c : Context) (tree : JourneyTree) (i : NodeIndex) : Prop where
  parent : ∀ parent, tree.parent? i = some parent →
    parent < i ∧ tree.iteration parent = tree.iteration i ∧
      (tree.node parent).criteria.arrival ≤ (tree.node i).criteria.arrival
  ride : ∀ parent line trip boardPosition boardTime debarkPosition,
    (tree.node i).step = .ride parent line trip boardPosition boardTime debarkPosition →
      RidesOn c (c.timetable.line line) (tree.node parent) (tree.node i) trip boardPosition boardTime
        debarkPosition

variable {c : Context} {tree : JourneyTree} {i : NodeIndex}

theorem continues_walk {parent : NodeIndex} {walk : Walk} (older : parent < i)
    (timed : Journey.IsTimed c (tree.node parent))
    (equal : tree.node i = tree.walkNode parent walk.footpath walk.duration walk.target
      (walkCriteria c (tree.node parent).criteria walk) (tree.iteration parent)) :
    Continues c tree i := by
  refine ⟨fun other known => ?_, fun other line trip boardPosition boardTime debarkPosition step => ?_⟩
  · have same : other = parent := by
      rw [JourneyTree.parent?, equal] at known
      exact (Option.some.inj known).symm
    subst same
    refine ⟨older, by rw [JourneyTree.iteration, JourneyTree.iteration, equal]; rfl, ?_⟩
    have later := clampWord_mono (m := (tree.node other).criteria.arrival.seconds)
      (n := (tree.node other).criteria.arrival.seconds + walk.duration.step) (by omega)
    rw [timed.inRange] at later
    rw [equal]
    exact later
  · rw [equal] at step
    cases step

theorem continues_ride (regular : Journey.IsRegular c) {line : LineIndex} {o : Onboard}
    {position : Nat} (older : o.parent < i)
    (boarded : board c (c.timetable.line line) o.boardPosition tree
      (o.parent, (tree.node o.parent).criteria) = some o)
    (atStop : (c.timetable.line line).stopAt o.boardPosition = (tree.node o.parent).stop)
    (ahead : o.boardPosition < position)
    (inside : position < (c.timetable.line line).nbOfPositions)
    (timed : Journey.IsTimed c (tree.node o.parent))
    (equal : tree.node i = rideNode c line (tree.iteration o.parent) o position) :
    Continues c tree i := by
  obtain ⟨trip, time, earliest, boarding⟩ := board_eq_some boarded
  have sameTrip : o.trip = trip := by rw [boarding]
  have sameTime : o.boardTime = time := by rw [boarding]
  obtain ⟨boards, timeEq⟩ := Line.earliestTrip_spec earliest
  rw [← sameTrip] at boards timeEq
  rw [← sameTime] at timeEq
  obtain ⟨arrives, inRange⟩ := Journey.arrival_le_readyTime (q := c.query) timed.inRange
  have ready : c.query.readyTime (tree.node o.parent).criteria ≤ o.boardTime := by
    rw [timeEq]
    exact boards.waiting_le inRange
  have forward : o.boardTime ≤ (c.timetable.line line).debarkTime o.trip position := by
    rw [timeEq]
    exact regular.timetable.forward line (Timetable.lt_nbOfLines inside) _ _ _ boards position
      ahead inside
  refine ⟨fun other known => ?_, fun other line trip boardPosition boardTime debarkPosition step => ?_⟩
  · have same : other = o.parent := by
      rw [JourneyTree.parent?, equal] at known
      exact (Option.some.inj known).symm
    subst same
    refine ⟨older, by rw [JourneyTree.iteration, JourneyTree.iteration, equal]; rfl, ?_⟩
    rw [equal]
    exact Int.le_trans arrives (Int.le_trans ready forward)
  · rw [equal] at step
    cases step
    rw [equal]
    exact ⟨ahead, inside, atStop, rfl, timeEq, ready, rfl⟩

theorem continues (regular : Journey.IsRegular c)
    (follows : ∀ i < tree.size, Follows c tree i (tree.node i)) (inside : i < tree.size) :
    Continues c tree i := by
  have timed (parent : NodeIndex) (older : parent < i) : Journey.IsTimed c (tree.node parent) :=
    (Journey.isRebuilt regular follows parent (Nat.lt_trans older inside)).timed
  generalize equal : tree.node i = node
  have node_follows := follows i inside
  rw [equal] at node_follows
  cases node_follows with
  | access =>
      refine ⟨fun parent known => ?_, fun parent line trip position time last step => ?_⟩
      · rw [JourneyTree.parent?, equal] at known
        cases known
      · rw [equal] at step
        cases step
  | walk older => exact continues_walk older (timed _ older) equal
  | ride older boarded atStop ahead within =>
      exact continues_ride regular older boarded atStop ahead within (timed _ older) equal

theorem isTrail_lineage (follows : ∀ i < tree.size, Follows c tree i (tree.node i))
    (inside : i < tree.size) : tree.IsTrail (tree.lineage i) i := by
  induction i using Nat.strongRecOn with
  | ind i ih =>
      cases known : tree.parent? i with
      | none =>
          rw [JourneyTree.lineage_of_first known]
          exact .first known
      | some parent =>
          have older := (follows i inside).parent_lt known
          rw [JourneyTree.lineage_of_parent known older]
          exact .next (ih parent older (Nat.lt_trans older inside)) known

theorem isFromOrigin_lineage (follows : ∀ i < tree.size, Follows c tree i (tree.node i))
    (inside : i < tree.size) :
    IsFromOrigin ((tree.lineage i).map fun j => (tree.node j).step) := by
  induction i using Nat.strongRecOn with
  | ind i ih =>
      have node_follows := follows i inside
      generalize equal : tree.node i = node at node_follows
      cases node_follows with
      | access =>
          have first : tree.parent? i = none := by
            rw [JourneyTree.parent?, equal]
            rfl
          rw [JourneyTree.lineage_of_first first, List.map_singleton, equal]
          exact ⟨_, none, [], rfl, rfl, fun _ known => (by cases known), .nil⟩
      | @walk parent walk older rested =>
          have known : tree.parent? i = some parent := by
            rw [JourneyTree.parent?, equal]
            rfl
          rw [JourneyTree.lineage_of_parent known older, List.map_append, List.map_singleton, equal]
          refine (ih parent older (Nat.lt_trans older inside)).concat_walk (fun last member => ?_) rfl
          obtain ⟨before, ends⟩ := JourneyTree.exists_lineage_eq tree parent
          rw [ends, List.map_append, List.map_singleton, List.getLast?_concat] at member
          rw [← Option.some.inj member]
          exact rested
      | @ride line o position older =>
          have known : tree.parent? i = some o.parent := by
            rw [JourneyTree.parent?, equal]
            rfl
          rw [JourneyTree.lineage_of_parent known older, List.map_append, List.map_singleton, equal]
          exact (ih o.parent older (Nat.lt_trans older inside)).concat_ride rfl

end Search

open Search

/-- At every stage of the search for an accepted request each node continues its parent, and the
steps from the origin to it are a walk and rides as many as its trips. -/
theorem Request.isFromOrigin_of_mem_stages {network : Network} {layer : Layer}
    (built : Layer.build network = .ok layer) {r : Request} {c : Context}
    (accepted : r.context layer = .ok c) :
    (∀ isOver, .settled (run c isOver).state ∈ stages c) ∧
      ∀ stage ∈ stages c, ∀ i < stage.state.tree.size,
        Continues c stage.state.tree i ∧
          ∃ nodes, stage.state.tree.IsTrail nodes i ∧
            IsFromOrigin (nodes.map fun j => (stage.state.tree.node j).step) ∧
              nodes.countP (fun j => (stage.state.tree.node j).step.isRide) =
                (stage.state.tree.node i).criteria.nbOfTrips := by
  refine ⟨run_mem_stages c, fun stage member i inside => ?_⟩
  obtain ⟨s, reached, same⟩ := (isStage_of_mem_stages member).exists_tree_eq
  rw [← same] at inside ⊢
  have consistent := reached.consistent
  have regular := isRegular built accepted
  exact ⟨continues regular consistent.follows inside, s.tree.lineage i,
    isTrail_lineage consistent.follows inside, isFromOrigin_lineage consistent.follows inside,
    Journey.countP_isRide_lineage consistent inside⟩

theorem Request.isFromOrigin_of_mem_stages_relay : ∃ layer c, Layer.build .relay = .ok layer ∧
    hurriedRelay.context layer = .ok c ∧
      let tree := (run c (hurriedRelay.isOver .ticking)).state.tree
      (tree.node 3).step.isRide = true ∧ (tree.node 3).criteria.nbOfTrips = 2 ∧
        Continues c tree 3 ∧ ∃ nodes, tree.IsTrail nodes 3 ∧
          IsFromOrigin (nodes.map fun j => (tree.node j).step) ∧
            nodes.countP (fun j => (tree.node j).step.isRide) = 2 := by
  have found : (Layer.build .relay).toOption.any (fun layer =>
      (hurriedRelay.context layer).toOption.any fun c =>
        let tree := (run c (hurriedRelay.isOver .ticking)).state.tree
        decide (3 < tree.size ∧ (tree.node 3).step.isRide = true ∧
          (tree.node 3).criteria.nbOfTrips = 2)) = true := by
    decide +kernel
  obtain ⟨layer, built, found⟩ := exists_ok_of_any found
  obtain ⟨c, accepted, found⟩ := exists_ok_of_any found
  obtain ⟨inside, isRide, twice⟩ := of_decide_eq_true found
  obtain ⟨ends, all⟩ := isFromOrigin_of_mem_stages built accepted
  obtain ⟨continues, nodes, isTrail, steps, rides⟩ :=
    all _ (ends (hurriedRelay.isOver .ticking)) 3 inside
  exact ⟨layer, c, built, accepted, isRide, twice, continues, nodes, isTrail, steps,
    rides.trans twice⟩

end JourneyPlanner
