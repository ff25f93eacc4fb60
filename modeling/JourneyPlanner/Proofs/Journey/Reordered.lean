import JourneyPlanner.Proofs.Journey.Changes
import JourneyPlanner.Proofs.Journey.Shown
import JourneyPlanner.Proofs.Journey.Transfers
import JourneyPlanner.Proofs.Search.Remembered

/-!
Two searches that do the same on the same lines, in any order, find journeys that match each other:
for each journey of one the other one shows a journey that arrives no later, has no more transfers
and leaves no earlier than the departure time at which the first one was found.
-/

namespace JourneyPlanner

theorem Query.pairwise_departureTimes (q : Query) :
    q.departureTimes.Pairwise fun later earlier => earlier ≤ later := by
  simp only [departureTimes]
  split
  · exact List.pairwise_singleton _ _
  · refine List.pairwise_map.2 (List.pairwise_reverse.2 ?_)
    refine List.pairwise_lt_range.imp fun {earlier later} less => ?_
    have steps := Nat.mul_le_mul_right q.step.seconds (Nat.le_of_lt less)
    refine clampWord_mono (Int.add_le_add_left (Int.ofNat_le.2 ?_) _)
    simp only [Duration.step, Duration.seconds_ofSeconds]
    omega

namespace Search

variable {c d : Context} {count : Nat}

theorem departureOf_antitone {first later : Nat} (positive : 1 ≤ first) (le : first ≤ later)
    (within : later ≤ c.query.departureTimes.length) :
    departureOf c later ≤ departureOf c first := by
  have entry {iteration : Nat} (inside : iteration - 1 < c.query.departureTimes.length) :
      departureOf c iteration = c.query.departureTimes[iteration - 1] := by
    simp [departureOf, inside]
  rcases Nat.eq_or_lt_of_le le with rfl | less
  · exact Int.le_refl _
  · rw [entry (show later - 1 < _ by omega), entry (show first - 1 < _ by omega)]
    exact List.pairwise_iff_getElem.1 c.query.pairwise_departureTimes _ _ _ _ (by omega)

theorem latestOf_antitone {first later : Nat} (positive : 1 ≤ first) (le : first ≤ later)
    (within : later ≤ c.query.departureTimes.length) : latestOf c later ≤ latestOf c first :=
  SearchTime.add_le_add (departureOf_antitone positive le within) _

theorem exists_arrived_of_label (regular : Journey.IsRegular d) {first last round : Nat}
    (le : first ≤ last) (within : last ≤ d.query.departureTimes.length) {stop : StopIndex}
    {byVehicle : Bool} {label : NodeIndex × Criteria}
    (member : label ∈ labelsAt (stateAfter d first) round stop byVehicle)
    (leaves : byVehicle = true ∨ d.query.maxBoardings = 0) {egress : Nat} {leg : StreetLeg}
    (atStop : d.query.egress.atStop? stop = some (egress, leg))
    (inTime : label.2.arrival + leg.duration ≤ latestOf d first) :
    ∃ good ∈ (stateAfter d last).arrived, good.2.arrival ≤ label.2.arrival + leg.duration ∧
      good.2.nbOfTransfers ≤ round - 1 ∧ departureOf d first ≤ good.2.departure := by
  have delivered := isDelivered_of_label within le member leaves
  have later := later_stateAfter (c := d) le within
  obtain ⟨before, number⟩ := stateAfter_spec (c := d) (Nat.le_trans le within)
  have older := (before.isLabel_of_mem member).older
  have isLabel := (before.isLabel_of_mem member).extends later.extends
  -- The label may be of an earlier iteration, of a later departure time.
  have made := before.past label.1 older
  rw [number, JourneyTree.iteration, ← later.extends.node_eq _ older] at made
  have positive := (lt_size_stateAfter within isLabel.older).1
  have sooner := latestOf_antitone positive made (Nat.le_trans le within)
  have arrivalBy_le : (arrivalBy d leg ((stateAfter d last).tree.node label.1)).arrival ≤
      latestOf d ((stateAfter d last).tree.node label.1).iteration := by
    rw [arrivalBy, isLabel.criteria_eq]
    exact Int.le_trans inTime sooner
  rw [← isLabel.stop_eq] at atStop
  obtain ⟨good, among, better⟩ :=
    Front.covers_iff.1 (delivered egress leg atStop arrivalBy_le)
  obtain ⟨arrives, departs, fewer, -⟩ := (Profile.atLeastAsGoodAtDestination_iff _ _ _).1 better
  rw [arrivalBy, isLabel.criteria_eq] at arrives fewer
  rw [isLabel.trips] at fewer
  have notBefore := Journey.departureOf_le_departure regular
    (stateAfter_spec within).1.follows label.1 isLabel.older
  exact ⟨good, among, arrives, fewer, Int.le_trans (departureOf_antitone positive made
    (Nat.le_trans le within)) (Int.le_trans notBefore departs)⟩

theorem Reordered.exists_arrived (h : Reordered c d) (start : StartAlike c d)
    (legs : ∀ leg ∈ c.query.access.legs, leg.stop < c.timetable.nbOfStops)
    (regular : Journey.IsRegular d) (within : count ≤ c.query.departureTimes.length)
    {arrived : Arrived × ArrivalCriteria} (member : arrived ∈ (stateAfter c count).arrived) :
    ∃ good ∈ (stateAfter d count).arrived, good.2.arrival ≤ arrived.2.arrival ∧
      good.2.nbOfTransfers ≤ arrived.2.nbOfTransfers ∧
        departureOf c ((stateAfter c count).tree.iteration arrived.1.node) ≤ good.2.departure := by
  obtain ⟨leg, arrival⟩ := (stateAfter_spec within).1.arrived arrived member
  obtain ⟨-, past, inside, same⟩ := lt_size_stateAfter within arrival.older
  generalize iteration : (stateAfter c count).tree.iteration arrived.1.node = k at *
  have known := (reached_stateAfter (c := c) (Nat.le_trans past within)).knows_node h.standard.1
    h.regular.1 legs inside
  rw [same, ← h.knows_stateAfter start (Nat.le_trans past within)] at known
  -- The other search knows of a label no later than the node.
  obtain ⟨round, few, label, inFront, sooner⟩ := known
  have egress : d.query.egress = c.query.egress := by rw [h.query_eq]
  have arrives : label.2.arrival + leg.duration ≤ arrived.2.arrival := by
    rw [arrival.criteria_eq, arrivalBy]
    exact SearchTime.add_le_add sooner _
  have inTime := arrival.inTime
  rw [iteration, ← h.latestOf_eq] at inTime
  obtain ⟨good, among, arrivesToo, fewer, departs⟩ := exists_arrived_of_label regular past
    (h.departureTimes_eq ▸ within) inFront (h.maxBoardings_eq ▸ arrival.byVehicle)
    (egress ▸ arrival.atStop) (Int.le_trans arrives inTime)
  refine ⟨good, among, Int.le_trans arrivesToo arrives, Nat.le_trans fewer ?_,
    h.departureOf_eq k ▸ departs⟩
  rw [arrival.criteria_eq, arrivalBy]
  exact Nat.sub_le_sub_right few 1

theorem Reordered.exists_run_eq (h : Reordered c d)
    (sameEmpty : d.query.access.isEmpty = c.query.access.isEmpty) :
    ∃ count ≤ c.query.departureTimes.length,
      (run c).state = stateAfter c count ∧ (run d).state = stateAfter d count := by
  have egress : d.query.egress = c.query.egress := by rw [h.query_eq]
  have late : d.query.isLate = c.query.isLate := by rw [h.query_eq]
  simp only [run_eq, sameEmpty, egress, late]
  split
  · exact ⟨0, Nat.zero_le _, rfl, rfl⟩
  · split
    · exact ⟨0, Nat.zero_le _, rfl, rfl⟩
    · refine ⟨_, Nat.le_refl _, ?_, ?_⟩
      · rw [stateAfter, List.take_length]
      · rw [stateAfter, ← h.departureTimes_eq, List.take_length]

end Search

namespace Journey

open Search

variable {c d : Context} {j : Journey}

/-- A journey that a search has found with a departure time. -/
def IsFoundAt (c : Context) (time : SearchTime) (j : Journey) : Prop :=
  ∃ arrived ∈ (run c).state.arrived, ofArrived c (run c).state.tree arrived = j ∧
    departureOf c ((run c).state.tree.iteration arrived.1.node) = time

theorem IsFoundAt.mem_departureTimes {time : SearchTime} (h : IsFoundAt c time j) :
    time ∈ c.query.departureTimes := by
  obtain ⟨arrived, among, -, rfl⟩ := h
  obtain ⟨count, within, equal⟩ := Search.exists_run_eq c
  rw [equal] at among ⊢
  obtain ⟨_, arrival⟩ := (stateAfter_spec within).1.arrived arrived among
  obtain ⟨positive, past, -⟩ := lt_size_stateAfter within arrival.older
  rw [departureOf, List.getD_eq_getElem?_getD, List.getElem?_eq_getElem (by omega),
    Option.getD_some]
  exact List.getElem_mem _

theorem exists_shown_of_reordered (h : Reordered c d) (start : StartAlike c d)
    (sameEmpty : d.query.access.isEmpty = c.query.access.isEmpty)
    (legs : ∀ leg ∈ c.query.access.legs, leg.stop < c.timetable.nbOfStops) (regular : IsRegular d)
    {walkOnly : Bool} (member : j ∈ extract c (run c).state walkOnly) :
    ∃ time, IsFoundAt c time j ∧
      ∃ k ∈ distinct (extract d (run d).state (d.query.maxBoardings == 0)),
        k.arrival ≤ j.arrival ∧ k.nbOfTransfers ≤ j.nbOfTransfers ∧ time ≤ k.departure := by
  obtain ⟨arrived, among, rfl⟩ := List.mem_map.1 (List.mem_filter.1 member).1
  refine ⟨_, ⟨arrived, among, rfl, rfl⟩, ?_⟩
  obtain ⟨count, within, left, right⟩ := h.exists_run_eq sameEmpty
  rw [left] at among ⊢
  obtain ⟨good, found, arrives, fewer, departs⟩ :=
    h.exists_arrived start legs regular within among
  rw [← right] at found
  obtain ⟨k, shown, leaves, arrivesToo, fewerToo⟩ := exists_shown_of_arrived regular found
  exact ⟨k, shown, Int.le_trans arrivesToo arrives, Nat.le_trans fewerToo fewer,
    Int.le_trans departs leaves⟩

end Journey

end JourneyPlanner
