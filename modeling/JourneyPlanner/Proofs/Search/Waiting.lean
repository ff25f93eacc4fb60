import JourneyPlanner.Proofs.Search.Facts

/-!
Who waits at a stop after a round. In the standard profile each front has one label at most, so a
stop has one arrival of the iteration in a round at most: the earliest one there, if it was not known
before the round. The facts before and after a round tell which one it is, and nothing else of the
two states counts.
-/

namespace JourneyPlanner.Search

theorem eq_of_mem_of_length_le_one {α : Type} {l : List α} {a b : α} (few : l.length ≤ 1)
    (left : a ∈ l) (right : b ∈ l) : a = b := by
  match l, few with
  | [x], _ => rw [List.mem_singleton.1 left, List.mem_singleton.1 right]

theorem eq_of_length_le_one {α : Type} {l m : List α} (left : l.length ≤ 1) (right : m.length ≤ 1)
    (same : ∀ a, a ∈ l ↔ a ∈ m) : l = m := by
  match l, m, left, right, same with
  | [], [], _, _, _ => rfl
  | [], b :: _, _, _, same => exact absurd ((same b).2 List.mem_cons_self) List.not_mem_nil
  | a :: _, [], _, _, same => exact absurd ((same a).1 List.mem_cons_self) List.not_mem_nil
  | [a], [b], _, _, same => rw [List.mem_singleton.1 ((same a).1 List.mem_cons_self)]

/-- The arrivals of the iteration at a stop in a round, or only those by vehicle. -/
def arrivalsAt (s : SearchState) (round : Nat) (stop : StopIndex) (byVehicle : Bool) :
    List SearchTime :=
  ((labelsAt s round stop byVehicle).filter fun label =>
    s.tree.iteration label.1 == s.iteration).map (·.2.arrival)

variable {c d : Context} {s t : SearchState} {round first last i : Nat} {stop : StopIndex}
  {time : SearchTime} {byVehicle : Bool} {label : NodeIndex × Criteria}

theorem mem_arrivalsAt :
    time ∈ arrivalsAt s round stop byVehicle ↔
      ∃ label ∈ labelsAt s round stop byVehicle,
        s.tree.iteration label.1 = s.iteration ∧ label.2.arrival = time := by
  simp only [arrivalsAt, List.mem_map, List.mem_filter, beq_iff_eq, and_assoc]

theorem Consistent.isLabel_of_mem (h : Consistent c s)
    (member : label ∈ labelsAt s i stop byVehicle) :
    IsLabel s.tree i stop label := by
  cases byVehicle with
  | true => exact (h.transitLabels i stop label member).1
  | false => exact h.labels i stop label member

theorem arrivalsAt_congr (h : Consistent c s) (grows : s.tree.Extends t.tree)
    (iteration_eq : t.iteration = s.iteration)
    (same : labelsAt t i stop byVehicle = labelsAt s i stop byVehicle) :
    arrivalsAt t i stop byVehicle = arrivalsAt s i stop byVehicle := by
  rw [arrivalsAt, arrivalsAt, same]
  congr 1
  refine List.filter_congr fun label member => ?_
  rw [JourneyTree.iteration, grows.node_eq _ (h.isLabel_of_mem member).older, iteration_eq]
  rfl

theorem arrivalsAt_of_moves (h : Consistent c s) (moves : Moves c first last s t)
    (less : i < first) : arrivalsAt t i stop byVehicle = arrivalsAt s i stop byVehicle :=
  arrivalsAt_congr h moves.extends moves.iteration_eq
    (labelsAt_congr (moves.round_eq (by omega)) stop byVehicle)

theorem Move.iteration_of_new_label (move : Move c round s t)
    (member : label ∈ labelsAt t i stop byVehicle) (new : label ∉ labelsAt s i stop byVehicle) :
    t.tree.iteration label.1 = t.iteration := by
  cases move with
  | @reach node _ _ now =>
      cases byVehicle with
      | true =>
          refine absurd ?_ new
          simpa only [labelsAt, if_true, SearchState.transitFront_reach] using member
      | false =>
          rcases SearchState.mem_front_reach member with old | ⟨⟨-, -, rfl⟩, -⟩
          · exact absurd old new
          · rw [SearchState.tree_reach, JourneyTree.iteration, JourneyTree.node_push_size]
            exact now
  | @alight node _ _ now =>
      rw [SearchState.tree_alight, SearchState.iteration_alight, JourneyTree.iteration]
      cases byVehicle with
      | true =>
          rcases SearchState.mem_transitFront_alight member with old | ⟨⟨-, -, rfl⟩, -⟩
          · exact absurd old new
          · rw [JourneyTree.node_push_size]
            exact now
      | false =>
          rcases SearchState.mem_front_alight member with old | ⟨⟨-, -, rfl⟩, -⟩
          · exact absurd old new
          · rw [JourneyTree.node_push_size]
            exact now
  | arrive => exact absurd member new
  | count => exact absurd member new

theorem Moves.iteration_of_new_label (moves : Moves c first last s t) (h : Consistent c s)
    (member : label ∈ labelsAt t i stop byVehicle) (new : label ∉ labelsAt s i stop byVehicle) :
    t.tree.iteration label.1 = t.iteration := by
  induction moves with
  | refl => exact absurd member new
  | @tail u v before step ih =>
      obtain ⟨j, -, move⟩ := step
      by_cases old : label ∈ labelsAt u i stop byVehicle
      · have isLabel := (h.moves before).isLabel_of_mem old
        rw [JourneyTree.iteration, move.extends.node_eq _ isLabel.older, move.iteration_eq]
        exact ih old
      · exact move.iteration_of_new_label member old

/-- A part of an iteration that makes moves of one round only, from a state that has not seen the
round in this iteration, and with it all the moves so far of that round. -/
structure IsRound (c : Context) (round : Nat) (s t : SearchState) : Prop where
  reached : Reached c s
  fresh : Fresh round s
  moves : Moves c round round s t

namespace IsRound

theorem iteration_iff (h : IsRound c round s t) (member : label ∈ labelsAt t round stop byVehicle) :
    t.tree.iteration label.1 = t.iteration ↔ label ∉ labelsAt s round stop byVehicle := by
  constructor
  · intro now old
    have isLabel := h.reached.consistent.isLabel_of_mem old
    rw [JourneyTree.iteration, h.moves.extends.node_eq _ isLabel.older, h.moves.iteration_eq] at now
    have few := h.fresh label.1 isLabel.older now
    rw [isLabel.criteria_eq, isLabel.trips] at few
    exact Nat.lt_irrefl _ few
  · exact h.moves.iteration_of_new_label h.reached.consistent member

theorem not_knows (h : IsRound c round s t) (standard : c.profile = .standard)
    (member : label ∈ labelsAt t round stop byVehicle)
    (new : label ∉ labelsAt s round stop byVehicle) :
    ¬Knows s round ⟨stop, label.2.arrival, byVehicle⟩ := by
  have adds := (GoesOn.later h.moves.later).addsUncovered
  intro known
  cases byVehicle with
  | false =>
      have uncovered := adds.fronts round stop label member new
      rw [(knows_iff_isCovered standard).1 known] at uncovered
      cases uncovered
  | true =>
      have uncovered := adds.transitFronts round stop label member new
      rw [(knows_iff_isCoveredByTransit standard).1 known] at uncovered
      cases uncovered

theorem length_labelsAt (h : IsRound c round s t) (standard : c.profile = .standard) :
    (labelsAt t round stop byVehicle).length ≤ 1 := by
  obtain ⟨all, transit⟩ := (h.reached.moves h.moves).inOrder.length_le_one standard round stop
  cases byVehicle with
  | true => exact transit
  | false => exact all

theorem length_arrivalsAt (h : IsRound c round s t) (standard : c.profile = .standard) :
    (arrivalsAt t round stop byVehicle).length ≤ 1 := by
  rw [arrivalsAt, List.length_map]
  exact Nat.le_trans (List.length_filter_le _ _) (h.length_labelsAt standard)

theorem mem_arrivalsAt_iff (h : IsRound c round s t) (standard : c.profile = .standard) :
    time ∈ arrivalsAt t round stop byVehicle ↔
      Knows t round ⟨stop, time, byVehicle⟩ ∧ ¬Knows s round ⟨stop, time, byVehicle⟩ ∧
        ∀ earlier < time, ¬Knows t round ⟨stop, earlier, byVehicle⟩ := by
  have others : ∀ {i x kind}, i ≠ round → labelsAt t i x kind = labelsAt s i x kind :=
    fun other => labelsAt_congr (h.moves.round_eq_of_ne other) _ _
  rw [mem_arrivalsAt]
  constructor
  · rintro ⟨label, member, now, rfl⟩
    have new := (h.iteration_iff member).1 now
    have unknown := h.not_knows standard member new
    refine ⟨⟨round, Nat.le_refl _, label, member, Int.le_refl _⟩, unknown, ?_⟩
    rintro earlier less ⟨i, within, other, among, arrival⟩
    by_cases here : i = round
    · subst here
      rw [eq_of_mem_of_length_le_one (h.length_labelsAt standard) among member] at arrival
      exact absurd less (Int.not_lt.2 arrival)
    · rw [others here] at among
      exact unknown ⟨i, within, other, among, Int.le_trans arrival (Int.le_of_lt less)⟩
  · rintro ⟨⟨i, within, label, member, arrival⟩, unknown, earliest⟩
    have new : label ∉ labelsAt s i stop byVehicle :=
      fun old => unknown ⟨i, within, label, old, arrival⟩
    by_cases here : i = round
    · subst here
      refine ⟨label, member, (h.iteration_iff member).2 new, ?_⟩
      rcases Int.lt_or_eq_of_le arrival with less | same
      · exact absurd ⟨i, within, label, member, Int.le_refl _⟩ (earliest _ less)
      · exact SearchTime.ext same
    · rw [others here] at member
      exact absurd member new

end IsRound

theorem arrivalsAt_eq_of_knows {u v : SearchState} (left : IsRound c round s t)
    (right : IsRound d round u v) (standard : c.profile = .standard) (other : d.profile = .standard)
    (before : ∀ fact, Knows u round fact ↔ Knows s round fact)
    (after : ∀ fact, Knows v round fact ↔ Knows t round fact) :
    arrivalsAt v round stop byVehicle = arrivalsAt t round stop byVehicle := by
  refine eq_of_length_le_one (right.length_arrivalsAt other) (left.length_arrivalsAt standard)
    fun time => ?_
  simp only [right.mem_arrivalsAt_iff other, left.mem_arrivalsAt_iff standard, before, after]

end JourneyPlanner.Search
