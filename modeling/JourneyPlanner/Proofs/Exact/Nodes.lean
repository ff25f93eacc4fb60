import JourneyPlanner.Proofs.Exact.Boarding
import JourneyPlanner.Proofs.Journey.Changes

/-!
The times of the nodes of a search are in order: the departure time that was tried, the departure of
the node, which may be later, its arrival, and the latest arrival that is allowed. So all of them are
near the start of the search day, and so are the times at which vehicles are boarded and left.
-/

namespace JourneyPlanner

open Search

/-- A search on the days that one may scan, from a departure on its first day. -/
structure Search.Context.IsNear (c : Context) : Prop where
  regular : Journey.IsRegular c
  scanned : ∀ index, (c.timetable.line index).IsScanned
  earliest : 0 ≤ c.query.earliestDeparture.seconds ∧
    c.query.earliestDeparture.seconds < secondsPerDay

theorem Search.Context.IsNear.isNear_earliest {c : Context} (h : c.IsNear) :
    c.query.earliestDeparture.IsNear := by
  obtain ⟨low, high⟩ := h.earliest
  simp only [secondsPerDay] at high
  exact ⟨by omega, by omega⟩

/-- The times of a node are in order. -/
structure Search.IsTimely (c : Context) (node : Node) : Prop where
  starts : departureOf c node.iteration ≤ node.departure
  forward : node.departure ≤ node.criteria.arrival
  inTime : node.criteria.arrival ≤ latestOf c node.iteration

namespace Exact

variable {c : Context} {tree : JourneyTree}

theorem le_add {t : SearchTime} (inRange : clampWord t.seconds = t.seconds) (d : Duration) :
    t ≤ t + d := by
  rw [SearchTime.le_def, SearchTime.seconds_add, ← inRange]
  exact clampWord_mono (by rw [inRange]; omega)

theorem departure_le_arrival (regular : Journey.IsRegular c)
    (follows : ∀ i < tree.size, Follows c tree i (tree.node i)) :
    ∀ i < tree.size, (tree.node i).departure ≤ (tree.node i).criteria.arrival := by
  intro i
  induction i using Nat.strongRecOn with
  | ind i ih =>
      intro inside
      have node_follows := follows i inside
      have rebuilt := Journey.isRebuilt regular follows
      have timed := (rebuilt i inside).timed
      generalize tree.node i = node at node_follows timed
      cases node_follows with
      | access =>
          have notNegative := timed.notNegative rfl
          rw [Journey.elapsed] at notNegative
          exact Int.sub_nonneg.1 notNegative
      | walk older =>
          have known := Nat.lt_trans older inside
          exact Int.le_trans (ih _ older known) (le_add (rebuilt _ known).timed.inRange _)
      | @ride line o position older boarded _ ahead within =>
          have known := Nat.lt_trans older inside
          have timed := (rebuilt o.parent known).timed
          obtain ⟨ready, -⟩ := Journey.arrival_le_readyTime (q := c.query) timed.inRange
          obtain ⟨waited, inRange⟩ := timed.readyTime_le boarded
          have arrived := Int.le_trans ready waited
          refine Int.le_trans ?_ (Journey.boardTime_le_debarkTime regular boarded ahead within)
          change o.departure ≤ o.boardTime
          rw [Journey.departure_of_board boarded]
          split
          · exact Int.le_trans (ih _ older known) arrived
          · next ridden =>
              have direct := Nat.eq_zero_of_not_pos ridden
              have notNegative := timed.notNegative direct
              rw [SearchTime.le_def, timed.seconds_moved regular direct arrived inRange]
              omega

theorem isTimely (regular : Journey.IsRegular c)
    (follows : ∀ i < tree.size, Follows c tree i (tree.node i)) :
    ∀ i < tree.size, IsTimely c (tree.node i) :=
  fun i inside => ⟨Journey.departureOf_le_departure regular follows i inside,
    departure_le_arrival regular follows i inside, (follows i inside).arrival_le_latestOf⟩

section

variable (near : c.IsNear) (iteration : Nat)
include near

theorem isNear_departureOf : (departureOf c iteration).IsNear := by
  have low := near.regular.notBefore iteration
  have high := near.regular.notAfter iteration
  simp only [secondsPerDay, maxSearchSeconds] at high
  exact ⟨by omega, by omega⟩

theorem latestOf_bounds :
    0 ≤ (latestOf c iteration).seconds ∧ (latestOf c iteration).seconds ≤ 1296000 := by
  have low := near.regular.notBefore iteration
  have high := near.regular.notAfter iteration
  have short := step_le c.query.maxDuration
  simp only [secondsPerDay, maxSearchSeconds] at high
  rw [latestOf, latestArrival, SearchTime.seconds_add, clampWord_of_bounds (by omega) (by omega)]
  omega

variable {node : Node} (timely : IsTimely c node)
include timely

theorem arrival_bounds :
    0 ≤ node.criteria.arrival.seconds ∧ node.criteria.arrival.seconds ≤ 1296000 := by
  have low := near.regular.notBefore node.iteration
  have high := (latestOf_bounds near node.iteration).2
  obtain ⟨starts, forward, inTime⟩ := timely
  rw [SearchTime.le_def] at starts forward inTime
  omega

theorem isNear_arrival : node.criteria.arrival.IsNear := by
  obtain ⟨low, high⟩ := arrival_bounds near timely
  exact ⟨by omega, by omega⟩

theorem isNear_departure : node.departure.IsNear := by
  have low := near.regular.notBefore node.iteration
  have high := (arrival_bounds near timely).2
  obtain ⟨starts, forward, -⟩ := timely
  rw [SearchTime.le_def] at starts forward
  exact ⟨by omega, by omega⟩

theorem isNear_readyTime : (c.query.readyTime node.criteria).IsNear := by
  obtain ⟨low, high⟩ := arrival_bounds near timely
  have short := step_le c.query.minTransferTime
  simp only [Query.readyTime]
  split
  · simp only [SearchTime.IsNear]
    rw [SearchTime.seconds_add, clampWord_of_bounds (by omega) (by omega)]
    omega
  · exact ⟨by omega, by omega⟩

end

end Exact

end JourneyPlanner
