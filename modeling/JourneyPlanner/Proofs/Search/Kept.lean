import JourneyPlanner.Proofs.Search.Run
import JourneyPlanner.Proofs.Timetable.Trips

/-!
What an iteration has made, and what is left of it. A node of the iteration has been on as many
vehicles as the round that made it. A node reached by vehicle may lose its place in the front of its
stop, but only to one of the same iteration that is at least as good.
-/

namespace JourneyPlanner.Search

variable {c : Context} {round first last : Nat} {s t : SearchState}

/-- No node of the iteration has been on as many vehicles. -/
def Fresh (round : Nat) (s : SearchState) : Prop :=
  ∀ i < s.tree.size, s.tree.iteration i = s.iteration → (s.tree.node i).criteria.nbOfTrips < round

theorem Move.nbOfTrips_eq (h : Move c round s t) {i : Nat} (new : s.tree.size ≤ i)
    (inside : i < t.tree.size) : (t.tree.node i).criteria.nbOfTrips = round := by
  cases h with
  | reach _ _ _ trips =>
      rw [SearchState.tree_reach] at inside ⊢
      rw [JourneyTree.size_push] at inside
      have last : i = s.tree.size := by omega
      rw [last, JourneyTree.node_push_size]
      exact trips
  | alight _ _ _ trips =>
      rw [SearchState.tree_alight] at inside ⊢
      rw [JourneyTree.size_push] at inside
      have last : i = s.tree.size := by omega
      rw [last, JourneyTree.node_push_size]
      exact trips
  | arrive => exact absurd inside (Nat.not_lt.2 new)
  | count => exact absurd inside (Nat.not_lt.2 new)

theorem Moves.nbOfTrips_mem (h : Moves c first last s t) {i : Nat} (new : s.tree.size ≤ i)
    (inside : i < t.tree.size) :
    first ≤ (t.tree.node i).criteria.nbOfTrips ∧ (t.tree.node i).criteria.nbOfTrips ≤ last := by
  induction h with
  | refl => exact absurd inside (Nat.not_lt.2 new)
  | @tail u v before step ih =>
      obtain ⟨round, within, move⟩ := step
      by_cases older : i < u.tree.size
      · rw [move.extends.node_eq i older]
        exact ih older
      · rw [move.nbOfTrips_eq (Nat.not_lt.1 older) inside]
        exact within

theorem Fresh.moves (h : Fresh round s) (moves : Moves c first last s t) (le : last ≤ round) :
    Fresh (round + 1) t := by
  intro i inside current
  by_cases older : i < s.tree.size
  · rw [JourneyTree.iteration, moves.extends.node_eq i older, moves.iteration_eq] at current
    rw [moves.extends.node_eq i older]
    exact Nat.lt_succ_of_lt (h i older current)
  · have bound := (moves.nbOfTrips_mem (Nat.not_lt.1 older) inside).2
    omega

/-- Some arrival by vehicle of the iteration is at least as good. -/
def IsKept (p : Profile) (s : SearchState) (round : Nat) (stop : StopIndex)
    (criteria : Criteria) : Prop :=
  ∃ label ∈ (s.round round).transitFront stop, s.tree.iteration label.1 = s.iteration ∧
    p.atLeastAsGood label.2 criteria = true

theorem IsKept.insertTransit {p : Profile} {stop x : StopIndex} {i : Nat} {criteria : Criteria}
    {node : Node} (h : IsKept p s i x criteria)
    (labels : ∀ label ∈ (s.round i).transitFront x, label.1 < s.tree.size)
    (now : node.iteration = s.iteration) :
    IsKept p ((s.pushNode node).insertTransit p stop round s.tree.size node.criteria) i x
      criteria := by
  obtain ⟨label, member, current, better⟩ := h
  have stays : (s.tree.push node).iteration label.1 = s.iteration := by
    rw [JourneyTree.iteration, JourneyTree.node_push_of_lt (labels label member)]
    exact current
  rw [IsKept, SearchState.transitFront_insertTransit]
  split
  · next here =>
      obtain ⟨⟨rfl, -⟩, rfl, -⟩ := here
      obtain ⟨kept, inFront, atLeast, same⟩ := Front.exists_mem_pruneAndPush p.atLeastAsGood_refl
        member s.tree.size node.criteria
      refine ⟨kept, inFront, ?_, p.atLeastAsGood_trans _ _ _ atLeast better⟩
      rcases same with rfl | rfl
      · exact stays
      · change ((s.tree.push node).node s.tree.size).iteration = s.iteration
        rw [JourneyTree.node_push_size, now]
  · exact ⟨label, member, stays, better⟩

theorem isKept_insert {p : Profile} {stop x : StopIndex} {i : Nat} {index : NodeIndex}
    {criteria other : Criteria} (h : IsKept p s i x criteria) :
    IsKept p (s.insert p stop round index other) i x criteria := by
  obtain ⟨label, member, current, better⟩ := h
  refine ⟨label, ?_, current, better⟩
  rwa [SearchState.transitFront_insert]

theorem isKept_alight {p : Profile} {stop : StopIndex} {i : Nat} {criteria : Criteria} {node : Node}
    (h : IsKept p ((s.pushNode node).insertTransit p node.stop round s.tree.size node.criteria) i
      stop criteria) : IsKept p (s.alight p round node) i stop criteria := by
  simp only [SearchState.alight]
  split
  · exact h
  · exact isKept_insert h

theorem Move.isKept (h : Move c round s t) (consistent : Consistent c s) {i : Nat}
    {stop : StopIndex} {criteria : Criteria} (kept : IsKept c.profile s i stop criteria) :
    IsKept c.profile t i stop criteria := by
  have older : ∀ label ∈ (s.round i).transitFront stop, label.1 < s.tree.size :=
    fun label member => (consistent.transitLabels i stop label member).1.older
  cases h with
  | reach follows onFoot now trips =>
      obtain ⟨label, member, current, better⟩ := kept
      refine ⟨label, ?_, ?_, better⟩
      · rwa [SearchState.transitFront_reach]
      · rw [SearchState.tree_reach, JourneyTree.iteration,
          JourneyTree.node_push_of_lt (older label member)]
        exact current
  | alight follows byVehicle now => exact isKept_alight (kept.insertTransit older now)
  | arrive => exact kept
  | count => exact kept

theorem Follows.stop_lt (regular : c.timetable.IsRegular) {tree : JourneyTree} {bound : NodeIndex}
    {node : Node} (h : Follows c tree bound node) (byVehicle : node.step.isRide = true) :
    node.stop < c.timetable.nbOfStops := by
  cases h with
  | access => cases byVehicle
  | walk => cases byVehicle
  | ride _ _ _ _ inside =>
      exact regular.stopAt_lt _ (Timetable.lt_nbOfLines inside) _ inside

/-- Every node of the iteration that was reached by vehicle is kept in its round. -/
def AllKept (c : Context) (s : SearchState) : Prop :=
  ∀ i < s.tree.size, s.tree.iteration i = s.iteration → (s.tree.node i).step.isRide = true →
    IsKept c.profile s (s.tree.node i).criteria.nbOfTrips (s.tree.node i).stop
      (s.tree.node i).criteria

theorem isKept_new (p : Profile) {nbOfStops upTo : Nat} (sized : s.Sized nbOfStops upTo)
    {node : Node} (allowed : round ≤ upTo) (known : node.stop < nbOfStops)
    (now : node.iteration = s.iteration) :
    IsKept p (s.alight p round node) round node.stop node.criteria := by
  refine isKept_alight ⟨(s.tree.size, node.criteria), ?_, ?_, p.atLeastAsGood_refl _⟩
  · have inRounds : round < (s.pushNode node).rounds.size := by
      change round < s.rounds.size
      rw [sized.rounds]
      omega
    have inRound : node.stop < ((s.pushNode node).round round).transit.size := by
      change node.stop < (s.round round).transit.size
      rw [sized.transit round allowed]
      exact known
    rw [SearchState.transitFront_insertTransit, if_pos ⟨⟨rfl, inRounds⟩, rfl, inRound⟩]
    exact Front.mem_pruneAndPush.2 (.inr rfl)
  · change ((s.tree.push node).node s.tree.size).iteration = s.iteration
    rw [JourneyTree.node_push_size, now]

theorem AllKept.move (h : AllKept c s) (regular : c.timetable.IsRegular)
    (consistent : Consistent c s) (move : Move c round s t) : AllKept c t := by
  intro i inside current byVehicle
  by_cases older : i < s.tree.size
  · have same := move.extends.node_eq i older
    rw [JourneyTree.iteration, same, move.iteration_eq] at current
    rw [same] at byVehicle ⊢
    exact move.isKept consistent (h i older current byVehicle)
  · cases move with
    | reach follows onFoot =>
        rw [SearchState.tree_reach] at inside byVehicle
        rw [JourneyTree.size_push] at inside
        have last : i = s.tree.size := by omega
        rw [last, JourneyTree.node_push_size, onFoot] at byVehicle
        cases byVehicle
    | alight follows rides now trips allowed =>
        rw [SearchState.tree_alight] at inside ⊢
        rw [JourneyTree.size_push] at inside
        have last : i = s.tree.size := by omega
        rw [last, JourneyTree.node_push_size, trips]
        exact isKept_new c.profile consistent.sized allowed (follows.stop_lt regular rides) now
    | arrive => exact absurd inside older
    | count => exact absurd inside older

theorem AllKept.moves (h : AllKept c s) (regular : c.timetable.IsRegular)
    (consistent : Consistent c s) (moves : Moves c first last s t) : AllKept c t := by
  induction moves with
  | refl => exact h
  | tail before step ih =>
      obtain ⟨i, -, move⟩ := step
      exact ih.move regular (consistent.moves before) move

theorem Consistent.iteration_ne (h : Consistent c s) {i : Nat} (inside : i < s.tree.size) :
    s.nextIteration.tree.iteration i ≠ s.nextIteration.iteration := by
  have past := h.past i inside
  exact Nat.ne_of_lt (Nat.lt_succ_of_le past)

theorem Consistent.fresh_nextIteration (h : Consistent c s) (round : Nat) :
    Fresh round s.nextIteration :=
  fun _ inside current => absurd current (h.iteration_ne inside)

theorem Consistent.allKept_nextIteration (h : Consistent c s) : AllKept c s.nextIteration :=
  fun _ inside current => absurd current (h.iteration_ne inside)

end JourneyPlanner.Search
