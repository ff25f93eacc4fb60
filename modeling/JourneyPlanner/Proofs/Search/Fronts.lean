import JourneyPlanner.Proofs.Search.RoundClosure
import JourneyPlanner.Proofs.Search.Stages

/-!
The fronts at every stage of a search. No label of a front is at least as good as another one of it,
each label says what its node says, and an arrival by vehicle is covered among all arrivals too, as
soon as whoever got off there is put among these. What is covered once is covered ever after, so the best arrivals only get sooner, and nothing
that is covered is ever put into a front.
-/

namespace JourneyPlanner

namespace Front

variable {α C : Type} {le : C → C → Bool} {front : Front α C}

/-- No element is at least as good as another one. -/
def IsAntichain (le : C → C → Bool) (front : Front α C) : Prop :=
  front.Pairwise fun a b => le a.2 b.2 = false ∧ le b.2 a.2 = false

theorem IsAntichain.pruneAndPush (h : front.IsAntichain le) (item : α) {criteria : C}
    (uncovered : front.covers le criteria = false) :
    (front.pruneAndPush le item criteria).IsAntichain le := by
  refine List.pairwise_append.2 ⟨List.Pairwise.filter _ h, List.pairwise_singleton _ _, ?_⟩
  intro old stays new isNew
  obtain ⟨member, worse⟩ := List.mem_filter.1 stays
  rw [List.mem_singleton.1 isNew]
  exact ⟨Bool.eq_false_iff.2 (List.any_eq_false.1 uncovered old member), by simpa using worse⟩

theorem IsAntichain.add (h : front.IsAntichain le) (item : α) (criteria : C) :
    (front.add le item criteria).IsAntichain le := by
  simp only [Front.add]
  split
  · exact h
  · next uncovered => exact h.pruneAndPush item (Bool.eq_false_iff.2 uncovered)

theorem covers_eq_false_of_mem_add {item : α} {criteria : C} {element : α × C}
    (member : element ∈ front.add le item criteria) (new : element ∉ front) :
    front.covers le element.2 = false := by
  simp only [Front.add] at member
  split at member
  · exact absurd member new
  · next uncovered =>
      rcases mem_pruneAndPush.1 member with old | rfl
      · exact absurd old.1 new
      · exact Bool.eq_false_iff.2 uncovered

theorem IsAntichain.length_le_one (h : front.IsAntichain le)
    (total : ∀ a b, le a b = true ∨ le b a = true) : front.length ≤ 1 := by
  match front, h with
  | [], _ => exact Nat.zero_le _
  | [_], _ => exact Nat.le_refl _
  | first :: second :: rest, h =>
      obtain ⟨forth, back⟩ := (List.pairwise_cons.1 h).1 second List.mem_cons_self
      rcases total first.2 second.2 with better | better
      · rw [forth] at better
        cases better
      · rw [back] at better
        cases better

end Front

theorem Profile.standard_total (a b : Criteria) :
    standard.atLeastAsGood a b = true ∨ standard.atLeastAsGood b a = true := by
  simp only [atLeastAsGood, decide_eq_true_eq, SearchTime.le_def]
  omega

theorem earliest?_le {times others : List SearchTime}
    (sooner : ∀ time ∈ times, ∃ other ∈ others, other ≤ time) {time : SearchTime}
    (known : earliest? times = some time) : ∃ best ≤ time, earliest? others = some best := by
  obtain ⟨least, isLeast, rfl⟩ := Option.map_eq_some_iff.1 known
  obtain ⟨first, listed, rfl⟩ := List.mem_map.1 (List.min?_mem isLeast)
  obtain ⟨other, among, le⟩ := sooner first listed
  have among := List.mem_map_of_mem (f := SearchTime.seconds) among
  cases found : (others.map SearchTime.seconds).min? with
  | none =>
      rw [List.min?_eq_none_iff.1 found] at among
      cases among
  | some best =>
      refine ⟨⟨best⟩, ?_, by rw [earliest?, found]; rfl⟩
      exact Int.le_trans ((List.min?_eq_some_iff.1 found).2 _ among) le

namespace SearchState

variable {p : Profile} {s : SearchState} {stop x : StopIndex} {round i : Nat} {index : NodeIndex}
  {criteria : Criteria}

theorem isAntichain_insert (h : ((s.round i).front x).IsAntichain p.atLeastAsGood)
    (uncovered : ((s.round round).front stop).covers p.atLeastAsGood criteria = false) :
    (((s.insert p stop round index criteria).round i).front x).IsAntichain p.atLeastAsGood := by
  rw [front_insert]
  split
  · next here =>
      obtain ⟨⟨rfl, -⟩, rfl, -⟩ := here
      exact h.pruneAndPush index uncovered
  · exact h

theorem isAntichain_insertTransit
    (h : ((s.round i).transitFront x).IsAntichain p.atLeastAsGood)
    (uncovered : ((s.round round).transitFront stop).covers p.atLeastAsGood criteria = false) :
    (((s.insertTransit p stop round index criteria).round i).transitFront x).IsAntichain
      p.atLeastAsGood := by
  rw [transitFront_insertTransit]
  split
  · next here =>
      obtain ⟨⟨rfl, -⟩, rfl, -⟩ := here
      exact h.pruneAndPush index uncovered
  · exact h

theorem covers_eq_false (h : s.isCovered p stop round criteria = false) :
    ((s.round round).front stop).covers p.atLeastAsGood criteria = false := by
  refine Bool.eq_false_iff.2 fun covered => Bool.eq_false_iff.1 h ?_
  exact isCovered_iff.2 ⟨round, Nat.le_refl _, covered⟩

theorem transit_covers_eq_false (h : s.isCoveredByTransit p stop round criteria = false) :
    ((s.round round).transitFront stop).covers p.atLeastAsGood criteria = false := by
  refine Bool.eq_false_iff.2 fun covered => Bool.eq_false_iff.1 h ?_
  exact isCoveredByTransit_iff.2 ⟨round, Nat.le_refl _, covered⟩

end SearchState

namespace Search

variable {c : Context} {round : Nat} {s t : SearchState}

/-- The fronts are antichains whose labels stand for their nodes, and each arrival by vehicle is
covered among all arrivals, but for one that is still to be put in there. -/
structure InOrder (c : Context) (pending : Option (NodeIndex × Criteria)) (s : SearchState) :
    Prop where
  fronts : ∀ round stop, ((s.round round).front stop).IsAntichain c.profile.atLeastAsGood
  transitFronts : ∀ round stop,
    ((s.round round).transitFront stop).IsAntichain c.profile.atLeastAsGood
  arrived : s.arrived.IsAntichain c.profile.atLeastAsGoodAtDestination
  labels : ∀ round stop, ∀ label ∈ (s.round round).front stop, IsLabel s.tree round stop label
  transitLabels : ∀ round stop, ∀ label ∈ (s.round round).transitFront stop,
    IsLabel s.tree round stop label ∧ (s.tree.node label.1).step.isRide = true
  transitCovered : ∀ round stop, ∀ label ∈ (s.round round).transitFront stop,
    some label ≠ pending → s.isCovered c.profile stop round label.2 = true

namespace InOrder

theorem initial (c : Context) :
    InOrder c none (SearchState.initial c.timetable.nbOfStops c.query.maxBoardings) := by
  have consistent := Consistent.initial c
  refine ⟨fun i x => ?_, fun i x => ?_, .nil, consistent.labels, consistent.transitLabels,
    fun i x label member => ?_⟩
  · rw [(SearchState.initial_fronts _ _ i x).1]
    exact .nil
  · rw [(SearchState.initial_fronts _ _ i x).2]
    exact .nil
  · rw [(SearchState.initial_fronts _ _ i x).2] at member
    cases member

theorem nextIteration (h : InOrder c none s) : InOrder c none s.nextIteration := by
  refine ⟨fun i x => ?_, fun i x => ?_, h.arrived, fun i x => ?_, fun i x => ?_, fun i x => ?_⟩
  · rw [SearchState.front_nextIteration]
    exact h.fronts i x
  · rw [SearchState.transitFront_nextIteration]
    exact h.transitFronts i x
  · rw [SearchState.front_nextIteration]
    exact h.labels i x
  · rw [SearchState.transitFront_nextIteration]
    exact h.transitLabels i x
  · intro label member settled
    rw [SearchState.transitFront_nextIteration] at member
    have covered := h.transitCovered i x label member settled
    simpa only [SearchState.isCovered, SearchState.front_nextIteration] using covered

theorem reach (h : InOrder c none s) (consistent : Consistent c s) {node : Node}
    (uncovered : s.isCovered c.profile node.stop round node.criteria = false)
    (move : Move c round s (s.reach c.profile round node)) :
    InOrder c none (s.reach c.profile round node) := by
  have after := consistent.move move
  refine ⟨fun i x => ?_, fun i x => ?_, h.arrived, after.labels, after.transitLabels,
    fun i x label member settled => ?_⟩
  · exact SearchState.isAntichain_insert (s := s.pushNode node) (h.fronts i x)
      (SearchState.covers_eq_false uncovered)
  · rw [SearchState.transitFront_reach]
    exact h.transitFronts i x
  · rw [SearchState.transitFront_reach] at member
    exact move.moves.isCovered (h.transitCovered i x label member settled)

theorem stepOff (h : InOrder c none s) {node : Node} (getsOff : GetsOff c round s node) :
    InOrder c (some (s.tree.size, node.criteria)) (s.stepOff c.profile round node) := by
  refine ⟨fun i x => ?_, fun i x => ?_, h.arrived, fun i x label member => ?_,
    fun i x label member => ?_, fun i x label member settled => ?_⟩
  · rw [SearchState.front_stepOff]
    exact h.fronts i x
  · exact SearchState.isAntichain_insertTransit (s := s.pushNode node) (h.transitFronts i x)
      (SearchState.transit_covers_eq_false getsOff.uncovered)
  · rw [SearchState.front_stepOff] at member
    exact (h.labels i x label member).push node
  · rcases SearchState.mem_transitFront_insertTransit member with old | ⟨⟨rfl, rfl, rfl⟩, -⟩
    · obtain ⟨isLabel, byVehicle⟩ := h.transitLabels i x label old
      refine ⟨isLabel.push node, ?_⟩
      rwa [← isLabel.node_push node] at byVehicle
    · exact ⟨Consistent.isLabel_new s.tree getsOff.trips,
        (congrArg (·.step.isRide) (JourneyTree.node_push_size s.tree node)).trans
          getsOff.byVehicle⟩
  · rcases SearchState.mem_transitFront_insertTransit member with old | ⟨⟨-, -, new⟩, -⟩
    · rw [SearchState.isCovered_stepOff]
      exact h.transitCovered i x label old (by simp)
    · exact absurd (congrArg some new) settled

theorem isCovered_alight (sized : s.Sized c.timetable.nbOfStops c.query.maxBoardings)
    (node : Node) (allowed : round ≤ c.query.maxBoardings)
    (inside : node.stop < c.timetable.nbOfStops) :
    (s.alight c.profile round node).isCovered c.profile node.stop round node.criteria = true := by
  have half := sized.stepOff c.profile round node
  rw [SearchState.alight_eq]
  split
  · next covered => exact covered
  · refine SearchState.isCovered_insert_self ?_ ?_
    · rw [half.rounds]
      exact Nat.lt_succ_of_le allowed
    · rwa [half.all round allowed]

theorem alight (h : InOrder c none s) (consistent : Consistent c s) {node : Node}
    (getsOff : GetsOff c round s node) : InOrder c none (s.alight c.profile round node) := by
  have half := h.stepOff getsOff
  have after := consistent.move getsOff.move
  refine ⟨fun i x => ?_, fun i x => ?_, ?_, after.labels, after.transitLabels,
    fun i x label member _ => ?_⟩
  · rw [SearchState.alight_eq]
    split
    · exact half.fronts i x
    · next uncovered =>
        exact SearchState.isAntichain_insert (half.fronts i x)
          (SearchState.covers_eq_false (Bool.eq_false_iff.2 uncovered))
  · rw [SearchState.transitFront_alight]
    exact half.transitFronts i x
  · rw [SearchState.arrived_alight]
    exact h.arrived
  · rcases SearchState.mem_transitFront_alight member with old | ⟨⟨rfl, rfl, rfl⟩, -⟩
    · exact getsOff.move.moves.isCovered (h.transitCovered i x label old (by simp))
    · refine isCovered_alight consistent.sized node getsOff.allowed ?_
      rw [← after.sized.transit i getsOff.allowed]
      exact Round.lt_size_of_mem_transitFront member

theorem move (h : InOrder c none s) (consistent : Consistent c s) (move : Move c round s t) :
    InOrder c none t := by
  cases move with
  | reach follows onFoot now trips uncovered =>
      exact h.reach consistent uncovered (.reach follows onFoot now trips uncovered)
  | alight follows byVehicle now trips allowed uncovered =>
      exact h.alight consistent ⟨follows, byVehicle, now, trips, allowed, uncovered⟩
  | arrive =>
      exact ⟨h.fronts, h.transitFronts, h.arrived.add _ _, h.labels, h.transitLabels,
        h.transitCovered⟩
  | count =>
      exact ⟨h.fronts, h.transitFronts, h.arrived, h.labels, h.transitLabels, h.transitCovered⟩

end InOrder

theorem Reached.inOrder (h : Reached c s) : InOrder c none s := by
  induction h with
  | refl => exact InOrder.initial c
  | tail before next ih =>
      cases next with
      | iteration => exact ih.nextIteration
      | move move => exact ih.move (Reached.consistent before) move

theorem InOrder.length_le_one {pending : Option (NodeIndex × Criteria)} (h : InOrder c pending s)
    (standard : c.profile = .standard) (round : Nat) (stop : StopIndex) :
    ((s.round round).front stop).length ≤ 1 ∧ ((s.round round).transitFront stop).length ≤ 1 := by
  have total := Profile.standard_total
  rw [← standard] at total
  exact ⟨(h.fronts round stop).length_le_one total, (h.transitFronts round stop).length_le_one total⟩

theorem IsStage.inOrder {stage : Stage} (h : IsStage c stage) : InOrder c stage.pending stage.state := by
  cases h with
  | settled reached => exact reached.inOrder
  | halfway reached getsOff => exact reached.inOrder.stepOff getsOff

/-- All that a state covers is covered in another one. -/
structure Retains (c : Context) (s t : SearchState) : Prop where
  covered : ∀ stop round criteria, s.isCovered c.profile stop round criteria = true →
    t.isCovered c.profile stop round criteria = true
  coveredByTransit : ∀ stop round criteria,
    s.isCoveredByTransit c.profile stop round criteria = true →
      t.isCoveredByTransit c.profile stop round criteria = true
  arrived : ∀ criteria, s.arrived.covers c.profile.atLeastAsGoodAtDestination criteria = true →
    t.arrived.covers c.profile.atLeastAsGoodAtDestination criteria = true

namespace Retains

theorem refl (s : SearchState) : Retains c s s :=
  ⟨fun _ _ _ => id, fun _ _ _ => id, fun _ => id⟩

theorem trans {u : SearchState} (st : Retains c s t) (tu : Retains c t u) : Retains c s u :=
  ⟨fun x i criteria covered => tu.covered x i criteria (st.covered x i criteria covered),
    fun x i criteria covered =>
      tu.coveredByTransit x i criteria (st.coveredByTransit x i criteria covered),
    fun criteria covered => tu.arrived criteria (st.arrived criteria covered)⟩

theorem move (h : Move c round s t) : Retains c s t := by
  refine ⟨fun _ _ _ => h.moves.isCovered, fun _ _ _ => h.moves.isCoveredByTransit,
    fun criteria covered => ?_⟩
  cases h with
  | reach => exact covered
  | alight =>
      rw [SearchState.arrived_alight]
      exact covered
  | arrive =>
      exact Front.covers_add c.profile.atLeastAsGoodAtDestination_refl
        c.profile.atLeastAsGoodAtDestination_trans covered _ _
  | count => exact covered

theorem next (h : Next c s t) : Retains c s t := by
  cases h with
  | iteration =>
      refine ⟨fun x i criteria covered => ?_, fun x i criteria covered => ?_, fun _ => id⟩
      · simpa only [SearchState.isCovered, SearchState.front_nextIteration] using covered
      · simpa only [SearchState.isCoveredByTransit, SearchState.transitFront_nextIteration]
          using covered
  | move step => exact move step

theorem stepOff {node : Node} : Retains c s (s.stepOff c.profile round node) := by
  refine ⟨fun x i criteria covered => ?_, fun x i criteria covered => ?_, fun _ => id⟩
  · rwa [SearchState.isCovered_stepOff]
  · obtain ⟨j, within, here⟩ := SearchState.isCoveredByTransit_iff.1 covered
    exact SearchState.isCoveredByTransit_iff.2
      ⟨j, within, SearchState.covers_insertTransit (s := s.pushNode node) here⟩

theorem alight {node : Node} (getsOff : GetsOff c round s node) :
    Retains c (s.stepOff c.profile round node) (s.alight c.profile round node) := by
  refine ⟨fun x i criteria covered => ?_, fun x i criteria covered => ?_, fun criteria covered => ?_⟩
  · rw [SearchState.isCovered_stepOff] at covered
    exact getsOff.move.moves.isCovered covered
  · simpa only [SearchState.isCoveredByTransit, SearchState.transitFront_alight] using covered
  · rw [SearchState.arrived_alight]
    exact covered

theorem bestArrival?_le (h : Retains c s t) {stop : StopIndex} {round : Nat} {time : SearchTime}
    (known : s.bestArrival? stop round = some time) :
    ∃ best ≤ time, t.bestArrival? stop round = some best := by
  refine earliest?_le (fun arrival member => ?_) known
  obtain ⟨i, within, here⟩ := List.mem_flatMap.1 member
  obtain ⟨label, inFront, rfl⟩ := List.mem_map.1 here
  have covered : s.isCovered c.profile stop round label.2 = true := by
    refine SearchState.isCovered_iff.2 ⟨i, Nat.lt_succ_iff.1 (List.mem_range.1 within), ?_⟩
    exact Front.covers_iff.2 ⟨label, inFront, c.profile.atLeastAsGood_refl _⟩
  obtain ⟨j, upTo, kept⟩ := SearchState.isCovered_iff.1 (h.covered _ _ _ covered)
  obtain ⟨better, among, lower⟩ := Front.covers_iff.1 kept
  refine ⟨better.2.arrival, ?_, Profile.arrival_le_of_atLeastAsGood lower⟩
  exact List.mem_flatMap.2
    ⟨j, List.mem_range.2 (Nat.lt_succ_of_le upTo), List.mem_map_of_mem among⟩

end Retains

/-- The labels that a second state has and the first one has not are not covered in the first
one. -/
structure AddsUncovered (c : Context) (s t : SearchState) : Prop where
  fronts : ∀ round stop, ∀ label ∈ (t.round round).front stop,
    label ∉ (s.round round).front stop → s.isCovered c.profile stop round label.2 = false
  transitFronts : ∀ round stop, ∀ label ∈ (t.round round).transitFront stop,
    label ∉ (s.round round).transitFront stop →
      s.isCoveredByTransit c.profile stop round label.2 = false
  arrived : ∀ arrival ∈ t.arrived, arrival ∉ s.arrived →
    s.arrived.covers c.profile.atLeastAsGoodAtDestination arrival.2 = false

namespace AddsUncovered

theorem refl (s : SearchState) : AddsUncovered c s s :=
  ⟨fun _ _ _ member new => absurd member new, fun _ _ _ member new => absurd member new,
    fun _ member new => absurd member new⟩

theorem trans {u : SearchState} (st : AddsUncovered c s t) (retains : Retains c s t)
    (tu : AddsUncovered c t u) : AddsUncovered c s u := by
  refine ⟨fun i x label member new => ?_, fun i x label member new => ?_,
    fun arrival member new => ?_⟩
  · by_cases between : label ∈ (t.round i).front x
    · exact st.fronts i x label between new
    · exact Bool.eq_false_iff.2 fun covered => Bool.eq_false_iff.1
        (tu.fronts i x label member between) (retains.covered x i label.2 covered)
  · by_cases between : label ∈ (t.round i).transitFront x
    · exact st.transitFronts i x label between new
    · exact Bool.eq_false_iff.2 fun covered => Bool.eq_false_iff.1
        (tu.transitFronts i x label member between) (retains.coveredByTransit x i label.2 covered)
  · by_cases between : arrival ∈ t.arrived
    · exact st.arrived arrival between new
    · exact Bool.eq_false_iff.2 fun covered => Bool.eq_false_iff.1
        (tu.arrived arrival member between) (retains.arrived arrival.2 covered)

theorem reach {node : Node}
    (uncovered : s.isCovered c.profile node.stop round node.criteria = false) :
    AddsUncovered c s (s.reach c.profile round node) := by
  refine ⟨fun i x label member new => ?_, fun i x label member new => ?_,
    fun arrival member new => absurd member new⟩
  · rcases SearchState.mem_front_reach member with old | ⟨⟨rfl, rfl, rfl⟩, -⟩
    · exact absurd old new
    · exact uncovered
  · rw [SearchState.transitFront_reach] at member
    exact absurd member new

theorem stepOff {node : Node} (getsOff : GetsOff c round s node) :
    AddsUncovered c s (s.stepOff c.profile round node) := by
  refine ⟨fun i x label member new => ?_, fun i x label member new => ?_,
    fun arrival member new => absurd member new⟩
  · rw [SearchState.front_stepOff] at member
    exact absurd member new
  · rcases SearchState.mem_transitFront_insertTransit member with old | ⟨⟨rfl, rfl, rfl⟩, -⟩
    · exact absurd old new
    · exact getsOff.uncovered

theorem alight {node : Node} :
    AddsUncovered c (s.stepOff c.profile round node) (s.alight c.profile round node) := by
  rw [SearchState.alight_eq]
  split
  · exact refl _
  · next uncovered =>
      refine ⟨fun i x label member new => ?_, fun i x label member new => ?_,
        fun arrival member new => absurd member new⟩
      · rcases SearchState.mem_front_insert member with old | ⟨⟨rfl, rfl, rfl⟩, -⟩
        · exact absurd old new
        · exact Bool.eq_false_iff.2 uncovered
      · rw [SearchState.transitFront_insert] at member
        exact absurd member new

theorem next (h : Next c s t) : AddsUncovered c s t := by
  cases h with
  | iteration =>
      refine ⟨fun i x label member new => ?_, fun i x label member new => ?_,
        fun arrival member new => absurd member new⟩
      · rw [SearchState.front_nextIteration] at member
        exact absurd member new
      · rw [SearchState.transitFront_nextIteration] at member
        exact absurd member new
  | move move =>
      cases move with
      | reach follows onFoot now trips uncovered => exact reach uncovered
      | alight follows byVehicle now trips allowed uncovered =>
          have getsOff : GetsOff c _ s _ := ⟨follows, byVehicle, now, trips, allowed, uncovered⟩
          exact (stepOff getsOff).trans Retains.stepOff alight
      | arrive =>
          refine ⟨fun _ _ label member new => absurd member new,
            fun _ _ label member new => absurd member new, fun arrival member new => ?_⟩
          exact Front.covers_eq_false_of_mem_add member new
      | count =>
          exact ⟨fun _ _ _ member new => absurd member new, fun _ _ _ member new => absurd member new,
            fun _ member new => absurd member new⟩

end AddsUncovered

/-- A state goes on to another one: it stays covered what was, and nothing that was is added. -/
structure GoesOn (c : Context) (s t : SearchState) : Prop where
  retains : Retains c s t
  addsUncovered : AddsUncovered c s t

namespace GoesOn

theorem trans {u : SearchState} (st : GoesOn c s t) (tu : GoesOn c t u) : GoesOn c s u :=
  ⟨st.retains.trans tu.retains, st.addsUncovered.trans st.retains tu.addsUncovered⟩

theorem later (h : Later c s t) : GoesOn c s t := by
  induction h with
  | refl => exact ⟨.refl s, .refl s⟩
  | tail _ step ih => exact ih.trans ⟨.next step, .next step⟩

theorem onward {stage next : Stage} (h : Onward c stage next) : GoesOn c stage.state next.state := by
  cases h with
  | settled _ onward => exact later onward
  | stepOff _ getsOff => exact ⟨.stepOff, .stepOff getsOff⟩
  | alight _ getsOff => exact ⟨.alight getsOff, .alight⟩

end GoesOn

theorem pairwise_stages (c : Context) :
    (stages c).Pairwise fun before after => GoesOn c before.state after.state :=
  (stagesUpTo_course (Nat.le_refl _)).pairwise GoesOn.onward GoesOn.trans

/-- The stages of a search lead from its first state to its last one, wherever it is cut short, by way
of the states after its iterations. The fronts are in order at every stage, and each arrival by
vehicle is covered among all arrivals, but for one that is still to be put in there; all later stages
retain what a stage covers and add nothing that it covers. From one iteration to the next no best
arrival gets later. -/
theorem fronts_of_search (c : Context) :
    (∀ count ≤ c.query.departureTimes.length, .settled (stateAfter c count) ∈ stages c) ∧
      (∀ isOver, .settled (run c isOver).state ∈ stages c) ∧
      (∀ stage ∈ stages c, InOrder c stage.pending stage.state ∧
        (c.profile = .standard → ∀ round stop,
          ((stage.state.round round).front stop).length ≤ 1 ∧
            ((stage.state.round round).transitFront stop).length ≤ 1)) ∧
      ((stages c).Pairwise fun before after =>
        Retains c before.state after.state ∧ AddsUncovered c before.state after.state) ∧
      ∀ count more, count ≤ more → more ≤ c.query.departureTimes.length → ∀ stop round time,
        (stateAfter c count).bestArrival? stop round = some time →
          ∃ best ≤ time, (stateAfter c more).bestArrival? stop round = some best := by
  refine ⟨fun _ => stateAfter_mem_stages, run_mem_stages c, fun stage member => ?_, ?_,
    fun count more le within stop round time known => ?_⟩
  · have inOrder := (isStage_of_mem_stages member).inOrder
    exact ⟨inOrder, inOrder.length_le_one⟩
  · exact (pairwise_stages c).imp fun goesOn => ⟨goesOn.retains, goesOn.addsUncovered⟩
  · exact (GoesOn.later (later_stateAfter le within)).retains.bestArrival?_le known

/-- From the first to the last stop of the relay, with two departure times. -/
def relayQuery : Query where
  access := .ofLegs 4 [⟨0, .ofSeconds 300, 0, some .zero, none⟩]
  egress := .ofLegs 4 [⟨3, .ofSeconds 300, 0, some .zero, none⟩]
  earliestDeparture := ⟨30000⟩
  window := .ofHms 0 2 0
  step := .ofHms 0 1 0
  maxBoardings := 2
  maxDuration := .ofHms 24 0 0
  minTransferTime := .ofHms 0 1 0
  costs := {}

theorem fronts_of_search_relay : ∃ layer t, Layer.build .relay = .ok layer ∧
    Timetable.build layer ⟨100⟩ 3 {} 1 = .ok t ∧
      let c : Context := ⟨t, .standard, relayQuery⟩
      (∃ stage ∈ stages c, stage.pending.isSome ∧ InOrder c stage.pending stage.state) ∧
        InOrder c none (run c).state ∧ (((run c).state.round 1).front 3).length ≤ 1 ∧
          (stateAfter c 1).bestArrival? 3 2 = some ⟨32100⟩ ∧
            ∃ best ≤ ⟨32100⟩, (stateAfter c 2).bestArrival? 3 2 = some best := by
  have found : (Layer.build .relay).toOption.any (fun layer =>
      (Timetable.build layer ⟨100⟩ 3 {} 1).toOption.any fun t =>
        let c : Context := ⟨t, .standard, relayQuery⟩
        (stages c).any (fun stage => stage.pending.isSome) &&
          (stateAfter c 1).bestArrival? 3 2 == some ⟨32100⟩) = true := by
    decide +kernel
  obtain ⟨layer, built, found⟩ := exists_ok_of_any found
  obtain ⟨t, made, found⟩ := exists_ok_of_any found
  obtain ⟨halfway, known⟩ := Bool.and_eq_true_iff.1 found
  obtain ⟨stage, member, pending⟩ := List.any_eq_true.1 halfway
  have two : 2 ≤ relayQuery.departureTimes.length := by decide
  obtain ⟨-, ends, inOrder, -, sooner⟩ := fronts_of_search ⟨t, .standard, relayQuery⟩
  obtain ⟨last, single⟩ := inOrder _ (ends .never)
  exact ⟨layer, t, built, made, ⟨stage, member, pending, (inOrder stage member).1⟩, last,
    (single rfl 1 3).1, eq_of_beq known,
    sooner 1 2 (Nat.le_succ 1) two 3 2 ⟨32100⟩ (eq_of_beq known)⟩

/-- An arrival by vehicle is put among those by vehicle first. Before it is put among all arrivals, at
the first stop where somebody gets off, none of these is at least as good. -/
theorem exists_uncovered_halfway : ∃ layer t, Layer.build .relay = .ok layer ∧
    Timetable.build layer ⟨100⟩ 3 {} 1 = .ok t ∧
      let c : Context := ⟨t, .standard, relayQuery⟩
      ∃ stage ∈ stages c, ∃ label ∈ (stage.state.round 1).transitFront 1,
        stage.state.isCovered c.profile 1 1 label.2 = false := by
  have found : (Layer.build .relay).toOption.any (fun layer =>
      (Timetable.build layer ⟨100⟩ 3 {} 1).toOption.any fun t =>
        (stages ⟨t, .standard, relayQuery⟩).any fun stage =>
          ((stage.state.round 1).transitFront 1).any fun label =>
            !stage.state.isCovered .standard 1 1 label.2) = true := by
    decide +kernel
  obtain ⟨layer, built, found⟩ := exists_ok_of_any found
  obtain ⟨t, made, found⟩ := exists_ok_of_any found
  simp only [List.any_eq_true, Bool.not_eq_true'] at found
  exact ⟨layer, t, built, made, found⟩

end Search

end JourneyPlanner
