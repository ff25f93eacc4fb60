import JourneyPlanner.Proofs.Journey.Extraction
import JourneyPlanner.Proofs.Journey.Shown
import JourneyPlanner.Proofs.Journey.Twins
import JourneyPlanner.Proofs.Search.Stages

/-!
The rides of a journey are counted by its last node, so the patterns that a journey boards tell how
many transfers it has. So of each journey that was found one is shown that is no worse.
-/

namespace JourneyPlanner

namespace Journey

open Search

variable {c : Context} {s : SearchState} {walkOnly : Bool} {j k : Journey}

theorem countP_isRide_legsOf (tree : JourneyTree) (time : SearchTime) (nodes : List NodeIndex) :
    (legsOf c tree time nodes).countP Leg.isRide =
      nodes.countP fun i => (tree.node i).step.isRide := by
  induction nodes generalizing time with
  | nil => rfl
  | cons index rest ih =>
      rw [legsOf, List.countP_cons, List.countP_cons, ih, isRide_legOf]

theorem countP_isRide_lineage (h : Consistent c s) {i : NodeIndex} (inside : i < s.tree.size) :
    (s.tree.lineage i).countP (fun j => (s.tree.node j).step.isRide) =
      (s.tree.node i).criteria.nbOfTrips := by
  induction i using Nat.strongRecOn with
  | ind i ih =>
      have follows := h.follows i inside
      generalize equal : s.tree.node i = node at follows
      cases follows with
      | access =>
          have first : s.tree.parent? i = none := by
            rw [JourneyTree.parent?, equal]
            rfl
          rw [JourneyTree.lineage_of_first first, List.countP_singleton, equal]
          rfl
      | @walk parent walk older =>
          have known : s.tree.parent? i = some parent := by
            rw [JourneyTree.parent?, equal]
            rfl
          rw [JourneyTree.lineage_of_parent known older, List.countP_append,
            ih parent older (Nat.lt_trans older inside), List.countP_singleton, equal]
          rfl
      | @ride line o position older boarded =>
          have known : s.tree.parent? i = some o.parent := by
            rw [JourneyTree.parent?, equal]
            rfl
          obtain ⟨trip, time, -, boarding⟩ := board_eq_some boarded
          have trips : o.nbOfTrips = (s.tree.node o.parent).criteria.nbOfTrips + 1 := by
            rw [boarding]
          rw [JourneyTree.lineage_of_parent known older, List.countP_append,
            ih o.parent older (Nat.lt_trans older inside), List.countP_singleton, equal]
          exact trips.symm

theorem nbOfRides_ofArrived (h : Consistent c s) {arrived : Arrived × ArrivalCriteria}
    (member : arrived ∈ s.arrived) :
    (ofArrived c s.tree arrived).nbOfRides = (s.tree.node arrived.1.node).criteria.nbOfTrips ∧
      (ofArrived c s.tree arrived).nbOfTransfers =
        (s.tree.node arrived.1.node).criteria.nbOfTrips - 1 := by
  obtain ⟨leg, arrival⟩ := h.arrived arrived member
  constructor
  · rw [nbOfRides, ofArrived, legsFrom_eq, List.countP_append, countP_isRide_legsOf,
      countP_isRide_lineage h arrival.older]
    rfl
  · exact congrArg ArrivalCriteria.nbOfTransfers arrival.criteria_eq

theorem length_patterns (j : Journey) : j.patterns.length = j.nbOfRides := by
  have boards : (fun leg : Leg => leg.pattern?.isSome) = Leg.isRide := by
    funext leg
    cases leg <;> rfl
  rw [patterns, nbOfRides, List.length_filterMap_eq_countP, boards]

theorem nbOfTransfers_of_mem_extract (h : Consistent c s) (member : j ∈ extract c s walkOnly) :
    j.nbOfTransfers = j.patterns.length - 1 ∧ j.nbOfTransfers ≤ c.query.maxBoardings - 1 := by
  obtain ⟨arrived, inFront, rfl⟩ := List.mem_map.1 (List.mem_filter.1 member).1
  obtain ⟨leg, arrival⟩ := h.arrived arrived inFront
  obtain ⟨rides, transfers⟩ := nbOfRides_ofArrived h inFront
  have allowed := h.allowed arrived.1.node arrival.older
  rw [length_patterns, rides, transfers]
  exact ⟨rfl, Nat.sub_le_sub_right allowed 1⟩

theorem isByPatterns_transfers (h : Consistent c s) (few : Nat → Bool) :
    IsByPatterns (fun j => few j.nbOfTransfers) (extract c s walkOnly) := by
  intro j first k second same
  simp only
  rw [(nbOfTransfers_of_mem_extract h first).1, (nbOfTransfers_of_mem_extract h second).1, same]

theorem exists_shown_of_arrived (regular : IsRegular c) {good : Arrived × ArrivalCriteria}
    (found : good ∈ (run c).state.arrived) :
    ∃ k ∈ distinct (extract c (run c).state (c.query.maxBoardings == 0)),
      good.2.departure ≤ k.departure ∧ k.arrival ≤ good.2.arrival ∧
        k.nbOfTransfers ≤ good.2.nbOfTransfers := by
  have consistent := consistent_run c .never
  have extracted : ofArrived c (run c).state.tree good ∈
      extract c (run c).state (c.query.maxBoardings == 0) := by
    rw [extract_eq consistent regular]
    exact List.mem_map_of_mem found
  obtain ⟨k, shown, replaces⟩ := exists_replaces_of_mem extracted
  have transfers : k.nbOfTransfers = good.2.nbOfTransfers := by
    rw [(nbOfTransfers_of_mem_extract consistent (mem_of_mem_distinct shown)).1,
      patterns_eq_of_replaces replaces, ← (nbOfTransfers_of_mem_extract consistent extracted).1]
    rfl
  simp only [Journey.replaces, Bool.and_eq_true, decide_eq_true_eq] at replaces
  obtain ⟨⟨-, leaves⟩, arrives⟩ := replaces
  exact ⟨k, shown, leaves, arrives, Nat.le_of_eq transfers⟩

end Journey

end JourneyPlanner
