import JourneyPlanner.Proofs.Search.Move

/-!
What a move keeps: the nodes there are, the number of the iteration, the other rounds, and whatever
the fronts cover. A label of a state after a move was there before or is the label of the new node.
-/

namespace JourneyPlanner

namespace SearchState

section

variable (p : Profile) (s : SearchState) (round : Nat) (node : Node)

@[simp] theorem tree_reach : (s.reach p round node).tree = s.tree.push node := rfl

@[simp] theorem arrived_reach : (s.reach p round node).arrived = s.arrived := rfl

@[simp] theorem tree_alight : (s.alight p round node).tree = s.tree.push node := by
  simp only [alight]
  split <;> rfl

@[simp] theorem iteration_alight : (s.alight p round node).iteration = s.iteration := by
  simp only [alight]
  split <;> rfl

@[simp] theorem arrived_alight : (s.alight p round node).arrived = s.arrived := by
  simp only [alight]
  split <;> rfl

end

variable {p : Profile} {s : SearchState} {round : Nat} {node : Node}

theorem round_reach_of_ne {i : Nat} (other : i ≠ round) :
    (s.reach p round node).round i = s.round i := by
  simp only [reach, round_insert]
  rw [if_neg fun here => other here.1.symm]
  rfl

theorem round_alight_of_ne {i : Nat} (other : i ≠ round) :
    (s.alight p round node).round i = s.round i := by
  have away : ∀ t : SearchState, ¬(round = i ∧ round < t.rounds.size) :=
    fun _ here => other here.1.symm
  simp only [alight]
  split
  · rw [round_insertTransit, if_neg (away _), round_pushNode]
  · rw [round_insert, if_neg (away _), round_insertTransit, if_neg (away _), round_pushNode]

theorem mem_front_insert {stop x : StopIndex} {index : NodeIndex} {criteria : Criteria} {i : Nat}
    {label : NodeIndex × Criteria}
    (h : label ∈ ((s.insert p stop round index criteria).round i).front x) :
    label ∈ (s.round i).front x ∨
      (i = round ∧ x = stop ∧ label = (index, criteria)) ∧
        x ∈ ((s.insert p stop round index criteria).round i).stops := by
  rw [front_insert] at h
  split at h
  · next here =>
      obtain ⟨⟨rfl, known⟩, rfl, -⟩ := here
      rcases Front.mem_pruneAndPush.1 h with old | new
      · exact .inl old.1
      · refine .inr ⟨⟨rfl, rfl, new⟩, ?_⟩
        rw [Round.stops, touched_insert, if_pos ⟨rfl, known⟩]
        exact TouchedStops.mem_touch.2 (.inr rfl)
  · exact .inl h

theorem mem_transitFront_insertTransit {stop x : StopIndex} {index : NodeIndex}
    {criteria : Criteria} {i : Nat} {label : NodeIndex × Criteria}
    (h : label ∈ ((s.insertTransit p stop round index criteria).round i).transitFront x) :
    label ∈ (s.round i).transitFront x ∨
      (i = round ∧ x = stop ∧ label = (index, criteria)) ∧
        x ∈ ((s.insertTransit p stop round index criteria).round i).transitStops := by
  rw [transitFront_insertTransit] at h
  split at h
  · next here =>
      obtain ⟨⟨rfl, known⟩, rfl, -⟩ := here
      rcases Front.mem_pruneAndPush.1 h with old | new
      · exact .inl old.1
      · refine .inr ⟨⟨rfl, rfl, new⟩, ?_⟩
        rw [Round.transitStops, touchedByTransit_insertTransit, if_pos ⟨rfl, known⟩]
        exact TouchedStops.mem_touch.2 (.inr rfl)
  · exact .inl h

theorem mem_stops_insert {stop x : StopIndex} {index : NodeIndex} {criteria : Criteria} {i : Nat}
    (h : x ∈ (s.round i).stops) : x ∈ ((s.insert p stop round index criteria).round i).stops := by
  rw [Round.stops, touched_insert]
  split
  · next here =>
      obtain ⟨rfl, -⟩ := here
      exact TouchedStops.mem_touch.2 (.inl h)
  · exact h

theorem mem_transitStops_insertTransit {stop x : StopIndex} {index : NodeIndex}
    {criteria : Criteria} {i : Nat} (h : x ∈ (s.round i).transitStops) :
    x ∈ ((s.insertTransit p stop round index criteria).round i).transitStops := by
  rw [Round.transitStops, touchedByTransit_insertTransit]
  split
  · next here =>
      obtain ⟨rfl, -⟩ := here
      exact TouchedStops.mem_touch.2 (.inl h)
  · exact h

theorem mem_front_reach {i : Nat} {x : StopIndex} {label : NodeIndex × Criteria}
    (h : label ∈ ((s.reach p round node).round i).front x) :
    label ∈ (s.round i).front x ∨
      (i = round ∧ x = node.stop ∧ label = (s.tree.size, node.criteria)) ∧
        x ∈ ((s.reach p round node).round i).stops :=
  mem_front_insert h

theorem mem_stops_reach {i : Nat} {x : StopIndex} (h : x ∈ (s.round i).stops) :
    x ∈ ((s.reach p round node).round i).stops :=
  mem_stops_insert (s := s.pushNode node) h

@[simp] theorem touchedByTransit_reach (i : Nat) :
    ((s.reach p round node).round i).touchedByTransit = (s.round i).touchedByTransit := by
  simp only [reach, touchedByTransit_insert, round_pushNode]

theorem mem_front_alight {i : Nat} {x : StopIndex} {label : NodeIndex × Criteria}
    (h : label ∈ ((s.alight p round node).round i).front x) :
    label ∈ (s.round i).front x ∨
      (i = round ∧ x = node.stop ∧ label = (s.tree.size, node.criteria)) ∧
        x ∈ ((s.alight p round node).round i).stops := by
  simp only [alight] at h ⊢
  split at h
  · rw [front_insertTransit] at h
    exact .inl h
  · next uncovered =>
      rcases mem_front_insert h with old | new
      · rw [front_insertTransit] at old
        exact .inl old
      · rw [if_neg uncovered]
        exact .inr new

theorem mem_stops_alight {i : Nat} {x : StopIndex} (h : x ∈ (s.round i).stops) :
    x ∈ ((s.alight p round node).round i).stops := by
  simp only [alight]
  split
  · rwa [Round.stops, touched_insertTransit]
  · refine mem_stops_insert ?_
    rwa [Round.stops, touched_insertTransit]

theorem mem_transitFront_alight {i : Nat} {x : StopIndex} {label : NodeIndex × Criteria}
    (h : label ∈ ((s.alight p round node).round i).transitFront x) :
    label ∈ (s.round i).transitFront x ∨
      (i = round ∧ x = node.stop ∧ label = (s.tree.size, node.criteria)) ∧
        x ∈ ((s.alight p round node).round i).transitStops := by
  simp only [alight] at h ⊢
  split at h
  · next covered =>
      rw [if_pos covered]
      exact mem_transitFront_insertTransit h
  · next uncovered =>
      rw [if_neg uncovered, Round.transitStops, touchedByTransit_insert]
      rw [transitFront_insert] at h
      exact mem_transitFront_insertTransit h

theorem mem_transitStops_alight {i : Nat} {x : StopIndex} (h : x ∈ (s.round i).transitStops) :
    x ∈ ((s.alight p round node).round i).transitStops := by
  simp only [alight]
  split
  · exact mem_transitStops_insertTransit (s := s.pushNode node) h
  · rw [Round.transitStops, touchedByTransit_insert]
    exact mem_transitStops_insertTransit (s := s.pushNode node) h

@[simp] theorem transitFront_reach (i : Nat) (x : StopIndex) :
    ((s.reach p round node).round i).transitFront x = (s.round i).transitFront x := by
  simp only [reach, transitFront_insert, round_pushNode]

theorem Sized.reach {nbOfStops last : Nat} (h : s.Sized nbOfStops last) (p : Profile)
    (round : Nat) (node : Node) : (s.reach p round node).Sized nbOfStops last :=
  (h.pushNode node).insert _ _ _ _ _

theorem Sized.alight {nbOfStops last : Nat} (h : s.Sized nbOfStops last) (p : Profile)
    (round : Nat) (node : Node) : (s.alight p round node).Sized nbOfStops last := by
  simp only [SearchState.alight]
  split
  · exact (h.pushNode node).insertTransit _ _ _ _ _
  · exact ((h.pushNode node).insertTransit _ _ _ _ _).insert _ _ _ _ _

theorem covers_insert {stop x : StopIndex} {index : NodeIndex} {criteria covered : Criteria}
    {i : Nat} (h : ((s.round i).front x).covers p.atLeastAsGood covered = true) :
    (((s.insert p stop round index criteria).round i).front x).covers p.atLeastAsGood covered =
      true := by
  rw [front_insert]
  split
  · next here =>
      obtain ⟨⟨rfl, -⟩, rfl, -⟩ := here
      exact Front.covers_pruneAndPush p.atLeastAsGood_refl p.atLeastAsGood_trans h _ _
  · exact h

theorem covers_insertTransit {stop x : StopIndex} {index : NodeIndex}
    {criteria covered : Criteria} {i : Nat}
    (h : ((s.round i).transitFront x).covers p.atLeastAsGood covered = true) :
    (((s.insertTransit p stop round index criteria).round i).transitFront x).covers
      p.atLeastAsGood covered = true := by
  rw [transitFront_insertTransit]
  split
  · next here =>
      obtain ⟨⟨rfl, -⟩, rfl, -⟩ := here
      exact Front.covers_pruneAndPush p.atLeastAsGood_refl p.atLeastAsGood_trans h _ _
  · exact h

theorem isCovered_insert_self {stop : StopIndex} {index : NodeIndex} {criteria : Criteria}
    (known : round < s.rounds.size) (inside : stop < (s.round round).all.size) :
    (s.insert p stop round index criteria).isCovered p stop round criteria = true := by
  refine isCovered_iff.2 ⟨round, Nat.le_refl _, ?_⟩
  rw [front_insert, if_pos ⟨⟨rfl, known⟩, rfl, inside⟩]
  exact Front.covers_pruneAndPush_self p.atLeastAsGood_refl _ _ _

end SearchState

namespace Search

variable {c : Context} {round first last : Nat} {s t : SearchState}

theorem Move.extends (h : Move c round s t) : s.tree.Extends t.tree := by
  cases h with
  | reach => exact JourneyTree.Extends.push _ _
  | alight =>
      rw [SearchState.tree_alight]
      exact JourneyTree.Extends.push _ _
  | arrive => exact JourneyTree.Extends.refl _
  | count => exact JourneyTree.Extends.refl _

theorem Move.iteration_eq (h : Move c round s t) : t.iteration = s.iteration := by
  cases h with
  | reach => rfl
  | alight => exact SearchState.iteration_alight _ _ _ _
  | arrive => rfl
  | count => rfl

theorem Move.round_eq {i : Nat} (h : Move c round s t) (other : i ≠ round) :
    t.round i = s.round i := by
  cases h with
  | reach => exact SearchState.round_reach_of_ne other
  | alight => exact SearchState.round_alight_of_ne other
  | arrive => rfl
  | count => rfl

theorem Move.covers {i : Nat} {stop : StopIndex} {criteria : Criteria} (h : Move c round s t)
    (covered : ((s.round i).front stop).covers c.profile.atLeastAsGood criteria = true) :
    ((t.round i).front stop).covers c.profile.atLeastAsGood criteria = true := by
  cases h with
  | reach => exact SearchState.covers_insert (s := s.pushNode _) covered
  | alight =>
      simp only [SearchState.alight]
      split
      · rwa [SearchState.front_insertTransit]
      · refine SearchState.covers_insert ?_
        rwa [SearchState.front_insertTransit]
  | arrive => exact covered
  | count => exact covered

theorem Move.transit_covers {i : Nat} {stop : StopIndex} {criteria : Criteria}
    (h : Move c round s t)
    (covered : ((s.round i).transitFront stop).covers c.profile.atLeastAsGood criteria = true) :
    ((t.round i).transitFront stop).covers c.profile.atLeastAsGood criteria = true := by
  cases h with
  | reach => rwa [SearchState.transitFront_reach]
  | alight =>
      simp only [SearchState.alight]
      split
      · exact SearchState.covers_insertTransit (s := s.pushNode _) covered
      · rw [SearchState.transitFront_insert]
        exact SearchState.covers_insertTransit (s := s.pushNode _) covered
  | arrive => exact covered
  | count => exact covered

theorem Moves.mono {lower upper : Nat} (h : Moves c first last s t) (lower_le : lower ≤ first)
    (le_upper : last ≤ upper) : Moves c lower upper s t := by
  induction h with
  | refl => exact .refl
  | tail _ step ih =>
      obtain ⟨i, within, move⟩ := step
      exact ih.tail ⟨i, ⟨by omega, by omega⟩, move⟩

theorem Moves.extends (h : Moves c first last s t) : s.tree.Extends t.tree := by
  induction h with
  | refl => exact JourneyTree.Extends.refl _
  | tail _ step ih =>
      obtain ⟨i, -, move⟩ := step
      exact ih.trans move.extends

theorem Moves.iteration_eq (h : Moves c first last s t) : t.iteration = s.iteration := by
  induction h with
  | refl => rfl
  | tail _ step ih =>
      obtain ⟨i, -, move⟩ := step
      rw [move.iteration_eq, ih]

theorem Moves.round_eq {i : Nat} (h : Moves c first last s t) (earlier : i < first) :
    t.round i = s.round i := by
  induction h with
  | refl => rfl
  | tail _ step ih =>
      obtain ⟨j, within, move⟩ := step
      rw [move.round_eq (by omega), ih]

theorem Moves.isCovered {stop : StopIndex} {upTo : Nat} {criteria : Criteria}
    (h : Moves c first last s t) (covered : s.isCovered c.profile stop upTo criteria = true) :
    t.isCovered c.profile stop upTo criteria = true := by
  induction h with
  | refl => exact covered
  | tail _ step ih =>
      obtain ⟨j, -, move⟩ := step
      obtain ⟨i, within, here⟩ := SearchState.isCovered_iff.1 ih
      exact SearchState.isCovered_iff.2 ⟨i, within, move.covers here⟩

theorem Moves.isCoveredByTransit {stop : StopIndex} {upTo : Nat} {criteria : Criteria}
    (h : Moves c first last s t)
    (covered : s.isCoveredByTransit c.profile stop upTo criteria = true) :
    t.isCoveredByTransit c.profile stop upTo criteria = true := by
  induction h with
  | refl => exact covered
  | tail _ step ih =>
      obtain ⟨j, -, move⟩ := step
      obtain ⟨i, within, here⟩ := SearchState.isCoveredByTransit_iff.1 ih
      exact SearchState.isCoveredByTransit_iff.2 ⟨i, within, move.transit_covers here⟩

/-- A fold whose steps are moves is a run of moves; each step may use what the moves before it
have kept. -/
theorem Moves.foldl {f : SearchState → α → SearchState} {l : List α}
    (step : ∀ a ∈ l, ∀ t, Moves c first last s t → Moves c first last t (f t a)) :
    Moves c first last s (l.foldl f s) := by
  refine List.foldlRecOn (motive := Moves c first last s) l f .refl fun t moves a member => ?_
  exact moves.trans (step a member t moves)

end Search

end JourneyPlanner
