import JourneyPlanner.Proofs.Search.Run

/-!
Nobody who gets off where a leg leads to the destination is forgotten. Right after a node of a ride
is made, its arrival at the destination is added to the front there, unless it is too late for its
departure time; and what that front covers once it always covers. Between the two the invariant does
not hold, so it is not one of the moves but of the functions that make them.
-/

namespace JourneyPlanner.Search

variable {c : Context} {latest : SearchTime} {round : Nat} {s t u : SearchState}

/-- The front of the destination has an arrival at least as good as each one, in time, by a leg from
the stop of a node. -/
def IsDelivered (c : Context) (s : SearchState) (node : Node) : Prop :=
  ∀ index leg, c.query.egress.atStop? node.stop = some (index, leg) →
    (arrivalBy c leg node).arrival ≤ latestOf c node.iteration →
      s.arrived.covers c.profile.atLeastAsGoodAtDestination (arrivalBy c leg node) = true

def AllDelivered (c : Context) (s : SearchState) : Prop :=
  ∀ i < s.tree.size, (s.tree.node i).step.isRide = true → IsDelivered c s (s.tree.node i)

/-- A part of an iteration that keeps everybody delivered. -/
structure Delivers (c : Context) (s t : SearchState) : Prop where
  iteration_eq : t.iteration = s.iteration
  allDelivered : AllDelivered c s → AllDelivered c t

theorem Delivers.refl (s : SearchState) : Delivers c s s :=
  ⟨rfl, id⟩

theorem Delivers.trans (st : Delivers c s t) (tu : Delivers c t u) : Delivers c s u :=
  ⟨tu.iteration_eq.trans st.iteration_eq, tu.allDelivered ∘ st.allDelivered⟩

theorem Delivers.foldl {f : SearchState → α → SearchState} {l : List α}
    (step : ∀ a ∈ l, ∀ t, t.iteration = s.iteration → Delivers c t (f t a)) :
    Delivers c s (l.foldl f s) := by
  refine List.foldlRecOn (motive := Delivers c s) l f (.refl s) fun t before a member => ?_
  exact before.trans (step a member t before.iteration_eq)

theorem finish_spec (c : Context) (latest departure : SearchTime) (transfers : Nat)
    (index : NodeIndex) (stop : StopIndex) (criteria : Criteria) (s : SearchState) :
    let t := finish c latest departure transfers index stop criteria s
    (t.tree = s.tree ∧ t.iteration = s.iteration) ∧
      ∀ good, s.arrived.covers c.profile.atLeastAsGoodAtDestination good = true →
        t.arrived.covers c.profile.atLeastAsGoodAtDestination good = true := by
  simp only [finish]
  split
  · exact ⟨⟨rfl, rfl⟩, fun _ => id⟩
  · split
    · exact ⟨⟨rfl, rfl⟩, fun _ => id⟩
    · exact ⟨⟨rfl, rfl⟩, fun _ covered => Front.covers_add
        c.profile.atLeastAsGoodAtDestination_refl c.profile.atLeastAsGoodAtDestination_trans
        covered _ _⟩

theorem IsDelivered.finish {node : Node} (h : IsDelivered c s node) (departure : SearchTime)
    (transfers : Nat) (index : NodeIndex) (stop : StopIndex) (criteria : Criteria) :
    IsDelivered c (finish c latest departure transfers index stop criteria s) node :=
  fun egress leg atStop inTime =>
    (finish_spec c latest departure transfers index stop criteria s).2 _ (h egress leg atStop inTime)

theorem isDelivered_finish (node : Node) (index : NodeIndex) (s : SearchState) :
    IsDelivered c (finish c (latestOf c node.iteration) node.departure
      (node.criteria.nbOfTrips - 1) index node.stop node.criteria s) node := by
  intro egress leg atStop inTime
  have notLate : ¬latestOf c node.iteration < node.criteria.arrival + leg.duration :=
    Int.not_lt.2 inTime
  simp only [Search.finish, atStop, if_neg notLate]
  exact Front.covers_add_self c.profile.atLeastAsGoodAtDestination_refl _ _ _

theorem Delivers.reach {node : Node} (onFoot : node.step.isRide = false) :
    Delivers c s (s.reach c.profile round node) := by
  refine ⟨rfl, fun all => ?_⟩
  refine Consistent.forall_push
    (fun _ n => n.step.isRide = true → IsDelivered c (s.reach c.profile round node) n) all
    fun byVehicle => ?_
  rw [onFoot] at byVehicle
  cases byVehicle

theorem depart_delivers (departure latest : SearchTime) (entry : StreetLeg × Nat) :
    Delivers c s (depart c departure latest s entry) := by
  simp only [depart]
  split
  · exact .refl s
  · split
    · exact .refl s
    · exact Delivers.reach rfl

theorem walk_delivers (latest : SearchTime) (round : Nat) (label : NodeIndex × Criteria)
    (w : Walk) : Delivers c s (walk c latest round label s w) := by
  simp only [walk]
  split
  · exact .refl s
  · split
    · exact .refl s
    · exact Delivers.reach rfl

theorem walkAll_delivers (latest : SearchTime) (round : Nat) (stop : StopIndex)
    (labels : StopFront) : Delivers c s (walkAll c latest round stop labels s) :=
  Delivers.foldl fun label _ _ _ => Delivers.foldl fun w _ _ _ =>
    walk_delivers latest round label w

theorem walkFromAccess_delivers (latest : SearchTime) :
    Delivers c s (walkFromAccess c latest s) := by
  rw [walkFromAccess, ← Array.foldl_toList]
  exact Delivers.foldl fun stop _ t _ => walkAll_delivers latest 0 stop (accessLabels t stop)

theorem walkFromTransit_delivers (latest : SearchTime) (round : Nat) :
    Delivers c s (walkFromTransit c latest round s) := by
  rw [walkFromTransit, ← Array.foldl_toList]
  exact Delivers.foldl fun stop _ t _ =>
    walkAll_delivers latest round stop (transitLabels t round stop)

theorem debark_delivers (round : Nat) (line : LineIndex) (position : Nat) (stop : StopIndex)
    (o : Onboard × Criteria) :
    Delivers c s (debark c (latestOf c s.iteration) round line position stop s o) := by
  rw [debark_eq]
  split
  · exact .refl s
  · split
    · exact .refl s
    · let node : Node := ⟨stop, o.2, o.1.departure, s.iteration,
        .ride o.1.parent line o.1.trip o.1.boardPosition o.1.boardTime position⟩
      have finished := finish_spec c (latestOf c s.iteration) node.departure
        (node.criteria.nbOfTrips - 1) s.tree.size stop node.criteria
        (s.alight c.profile round node)
      obtain ⟨⟨tree, iteration⟩, -⟩ := finished
      rw [SearchState.tree_alight] at tree
      rw [SearchState.iteration_alight] at iteration
      refine ⟨iteration, fun all => ?_⟩
      rw [AllDelivered, tree]
      refine Consistent.forall_push (fun _ n => n.step.isRide = true → IsDelivered c _ n) ?_ ?_
      · intro i inside byVehicle
        refine IsDelivered.finish (fun egress leg atStop inTime => ?_) _ _ _ _ _
        rw [SearchState.arrived_alight]
        exact all i inside byVehicle egress leg atStop inTime
      · exact fun _ => isDelivered_finish node s.tree.size (s.alight c.profile round node)

theorem visit_delivers (round : Nat) (line : LineIndex) (onboard : Front Onboard Criteria)
    (position : Nat) :
    Delivers c s (visit c (latestOf c s.iteration) round line (onboard, s) position).2 := by
  have debarked : Delivers c s (onboard.foldl (debark c (latestOf c s.iteration) round line
      position ((c.timetable.line line).stopAt position)) s) :=
    Delivers.foldl fun o _ t same => same ▸ debark_delivers round line position _ o
  simp only [visit]
  split
  · exact debarked
  · exact debarked

theorem ride_delivers (round : Nat) (entry : LineIndex × Nat) :
    Delivers c s (ride c (latestOf c s.iteration) round s entry) := by
  have nobody : Delivers c s (([], { s with nbOfScans := s.nbOfScans + 1 }) :
      Front Onboard Criteria × SearchState).2 := ⟨rfl, id⟩
  let Keeps (after : Front Onboard Criteria × SearchState) : Prop := Delivers c s after.2
  refine List.foldlRecOn (motive := Keeps) _ _ nobody fun ride before position _ => ?_
  obtain ⟨onboard, t⟩ := ride
  rw [← before.iteration_eq]
  exact before.trans (visit_delivers round entry.1 onboard position)

theorem runRound_delivers (round : Nat) (lines : List (LineIndex × Nat)) :
    Delivers c s (runRound c (latestOf c s.iteration) round lines s) := by
  have counted : Delivers c s { s with lastRound := max s.lastRound round } := ⟨rfl, id⟩
  have rides : Delivers c { s with lastRound := max s.lastRound round }
      (lines.foldl (ride c (latestOf c s.iteration) round)
        { s with lastRound := max s.lastRound round }) := by
    refine Delivers.foldl fun entry _ t same => ?_
    have number : t.iteration = s.iteration := same
    exact number ▸ ride_delivers round entry
  exact (counted.trans rides).trans (walkFromTransit_delivers _ round)

theorem allRounds_delivers (left round : Nat) :
    Delivers c s (allRounds c (latestOf c s.iteration) left round s) := by
  induction left generalizing round s with
  | zero => exact .refl s
  | succ left ih =>
      rw [allRounds_succ]
      split
      · exact .refl s
      · have first := runRound_delivers (c := c) (s := s) (round + 1) (linesToRide c s round)
        have rest := ih (s := runRound c (latestOf c s.iteration) (round + 1)
          (linesToRide c s round) s) (round + 1)
        rw [first.iteration_eq] at rest
        exact first.trans rest

theorem arriveOnFoot_delivers (latest : SearchTime) : Delivers c s (arriveOnFoot c latest s) := by
  rw [arriveOnFoot, ← Array.foldl_toList]
  refine Delivers.foldl fun stop _ t _ => Delivers.foldl fun label _ u _ => ?_
  have finished := finish_spec c latest (u.tree.node label.1).departure 0 label.1 stop label.2 u
  obtain ⟨⟨tree, iteration⟩, -⟩ := finished
  refine ⟨iteration, fun all => ?_⟩
  rw [AllDelivered, tree]
  exact fun i inside byVehicle => (all i inside byVehicle).finish _ _ _ _ _

theorem runAccess_delivers (departure : SearchTime) :
    Delivers c s.nextIteration (runAccess c departure s) := by
  have departs : Delivers c s.nextIteration (c.query.access.legs.toList.zipIdx.foldl
      (depart c departure (latestArrival c departure)) s.nextIteration) :=
    Delivers.foldl fun entry _ _ _ => depart_delivers departure _ entry
  exact departs.trans (walkFromAccess_delivers _)

theorem allDelivered_fullIteration (h : AllDelivered c s) :
    AllDelivered c (fullIteration c s (departureOf c (s.iteration + 1))) := by
  have access := runAccess_delivers (c := c) (s := s) (departureOf c (s.iteration + 1))
  have number : (runAccess c (departureOf c (s.iteration + 1)) s).iteration = s.iteration + 1 :=
    access.iteration_eq
  have onFoot : AllDelivered c (runAccess c (departureOf c (s.iteration + 1)) s) :=
    access.allDelivered h
  rw [fullIteration_eq]
  split
  · exact (arriveOnFoot_delivers _).allDelivered onFoot
  · have rounds := allRounds_delivers (c := c)
      (s := runAccess c (departureOf c (s.iteration + 1)) s) c.query.maxBoardings 0
    rw [number] at rounds
    exact rounds.allDelivered onFoot

theorem allDelivered_stateAfter {count : Nat} (within : count ≤ c.query.departureTimes.length) :
    AllDelivered c (stateAfter c count) := by
  induction count with
  | zero =>
      intro i inside
      cases inside
  | succ count ih =>
      have next := allDelivered_fullIteration (ih (by omega))
      rwa [(stateAfter_spec (Nat.le_of_lt within)).2, ← stateAfter_succ within] at next

theorem allDelivered_run (c : Context) : AllDelivered c (run c).state := by
  obtain ⟨count, within, equal⟩ := exists_run_eq c
  rw [equal]
  exact allDelivered_stateAfter within

end JourneyPlanner.Search
