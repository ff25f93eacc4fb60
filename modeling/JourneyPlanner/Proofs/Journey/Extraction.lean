import JourneyPlanner.Proofs.Journey.Times
import JourneyPlanner.Proofs.Request.StreetLegs

/-!
Reading off the journeys of a search drops none of them: each arrival at the destination gives a
journey whose legs join, from its leg from the origin to its leg to the destination.
-/

namespace JourneyPlanner

namespace Journey

open Search

variable {c : Context} {s : SearchState}

theorem exists_ride_at_end {access last : Leg} {rest before : List Leg}
    (equal : access :: rest = before ++ [last]) (isAccess : access.isAccess = true)
    (isRide : last.isRide = true) : ∃ ride ∈ rest.getLast?, ride.isRide = true := by
  cases before with
  | nil =>
      cases equal
      cases access with
      | access => cases isRide
      | ride => cases isAccess
      | walk => cases isAccess
      | egress => cases isAccess
  | cons first before =>
      rw [List.cons_append, List.cons.injEq] at equal
      refine ⟨last, ?_, isRide⟩
      rw [equal.2]
      exact List.getLast?_concat

theorem legs_ofArrived {tree : JourneyTree} {arrived : Arrived × ArrivalCriteria} {leg : StreetLeg}
    (arrival : IsArrival c tree arrived leg)
    (rebuilt : Rebuilds c tree arrived.1.node (tree.node arrived.1.node).departure
      (tree.node arrived.1.node).criteria.arrival) :
    (ofArrived c tree arrived).legs =
      legsOf c tree (tree.node arrived.1.node).departure (tree.lineage arrived.1.node) ++
        [.egress arrived.1.egress (tree.node arrived.1.node).stop
          (tree.node arrived.1.node).criteria.arrival arrived.2.arrival] := by
  obtain ⟨sameLeg, -, atStop⟩ := StreetLegs.atStop?_spec arrival.atStop
  rw [ofArrived, arrival.criteria_eq, arrivalBy, legsFrom_eq, rebuilt.finish_eq, egressOf, sameLeg,
    atStop]

theorem isProper_ofArrived (h : Consistent c s) (regular : IsRegular c)
    {arrived : Arrived × ArrivalCriteria} (member : arrived ∈ s.arrived) :
    (ofArrived c s.tree arrived).IsProper (c.query.maxBoardings == 0) := by
  obtain ⟨leg, arrival⟩ := h.arrived arrived member
  have rebuilt := isRebuilt regular h.follows arrived.1.node arrival.older
  obtain ⟨access, rest, legs, isAccess, departure, others⟩ := rebuilt.legs.parts
  obtain ⟨before, start, ended, -⟩ := rebuilt.legs.last
  have departs : arrived.2.departure = (s.tree.node arrived.1.node).departure := by
    rw [arrival.criteria_eq]
    rfl
  have all := legs_ofArrived arrival rebuilt.legs
  have whole := all
  rw [legs] at whole
  have joined : Joined (ofArrived c s.tree arrived).legs := by
    rw [all]
    exact rebuilt.legs.joined_egress arrived.1.egress arrived.2.arrival
  refine ⟨⟨access, rest, _, whole, isAccess, rfl, others, ?_⟩, joined, ?_, ?_, ?_⟩
  · by_cases none : c.query.maxBoardings = 0
    · -- Without boardings no node has been on a vehicle.
      have trips : (s.tree.node arrived.1.node).criteria.nbOfTrips = 0 :=
        Nat.le_zero.1 (none ▸ h.allowed _ arrival.older)
      have walks := rebuilt.legs.isWalk trips legs others
      rw [none]
      exact ⟨Joined.length_le_one (whole ▸ joined) walks, walks⟩
    · have some : (c.query.maxBoardings == 0) = false := beq_eq_false_iff_ne.2 none
      rw [some]
      have isRide : (legOf c s.tree start arrived.1.node).isRide = true := by
        rw [isRide_legOf]
        exact arrival.byVehicle.resolve_right none
      exact exists_ride_at_end (legs.symm.trans ended) isAccess isRide
  · intro leg among
    rw [all] at among
    rcases List.mem_append.1 among with inside | new
    · exact rebuilt.legs.forward leg inside
    · rw [List.mem_singleton.1 new]
      rfl
  · rw [whole]
    change some access.departure = some arrived.2.departure
    rw [departure, departs]
  · rw [whole, List.getLast?_concat]
    rfl

theorem extract_eq (h : Consistent c s) (regular : IsRegular c) :
    extract c s (c.query.maxBoardings == 0) = s.arrived.map (ofArrived c s.tree) := by
  rw [extract, List.filter_eq_self]
  intro journey member
  obtain ⟨arrived, among, rfl⟩ := List.mem_map.1 member
  exact (isProper_ofArrived h regular among).isSound

end Journey

theorem Query.departureTimes_bounds {q : Query} (positive : 0 ≤ q.earliestDeparture.seconds)
    (within : q.earliestDeparture.seconds < secondsPerDay) {time : SearchTime}
    (member : time ∈ q.departureTimes) :
    0 ≤ time.seconds ∧ time.seconds < secondsPerDay + maxSearchSeconds := by
  simp only [secondsPerDay, maxSearchSeconds] at within ⊢
  simp only [departureTimes] at member
  split at member
  · rw [List.mem_singleton.1 member]
    omega
  · obtain ⟨index, -, rfl⟩ := List.mem_map.1 member
    have step_le : (Duration.ofSeconds (index * q.step.seconds)).step ≤ maxSearchSeconds :=
      Nat.min_le_right _ _
    simp only [maxSearchSeconds] at step_le
    rw [SearchTime.seconds_add, clampWord_of_bounds (by omega) (by omega)]
    omega

end JourneyPlanner
