import JourneyPlanner.Proofs.Journey.Changes
import JourneyPlanner.Proofs.Journey.Transfers
import JourneyPlanner.Proofs.Request.Context
import JourneyPlanner.Proofs.Search.Kept
import JourneyPlanner.Proofs.Time.Moment

/-!
Every itinerary of an answer is within the limits that its request sets: it does not leave too
early, does not take too long, leaves time for each change and does not board too often.
-/

namespace JourneyPlanner

theorem Query.earliestDeparture_le {q : Query}
    (inRange : clampWord q.earliestDeparture.seconds = q.earliestDeparture.seconds)
    {time : SearchTime} (member : time ∈ q.departureTimes) : q.earliestDeparture ≤ time := by
  simp only [departureTimes] at member
  split at member
  · rw [List.mem_singleton.1 member]
    exact Int.le_refl _
  · obtain ⟨index, -, rfl⟩ := List.mem_map.1 member
    rw [SearchTime.le_def, SearchTime.seconds_add, ← inRange]
    exact clampWord_mono (by omega)

theorem Search.earliestDeparture_le_departureOf {c : Search.Context}
    (inRange : clampWord c.query.earliestDeparture.seconds = c.query.earliestDeparture.seconds)
    {iteration : Nat} (within : iteration ≤ c.query.departureTimes.length) :
    c.query.earliestDeparture ≤ departureOf c iteration := by
  have some := List.length_pos_iff.2 c.query.departureTimes_ne_nil
  have known : iteration - 1 < c.query.departureTimes.length := by omega
  refine Query.earliestDeparture_le inRange ?_
  rw [departureOf, List.getD_eq_getElem?_getD, List.getElem?_eq_getElem known, Option.getD_some]
  exact List.getElem_mem known

namespace Journey

/-- The limits of a search, met by a journey. -/
structure IsWithin (q : Query) (j : Journey) : Prop where
  notBefore : q.earliestDeparture ≤ j.departure
  inTime : j.arrival.seconds ≤ j.departure.seconds + q.maxDuration.seconds
  changes : AllowsChanges q.minTransferTime.seconds j.legs
  onFoot : q.maxBoardings = 0 → j.nbOfRides = 0 ∧ j.nbOfTransfers = 0
  byVehicle : 0 < q.maxBoardings →
    j.nbOfTransfers + 1 = j.nbOfRides ∧ j.nbOfRides ≤ q.maxBoardings

open Search

variable {c : Context} {s : SearchState}

theorem isWithin_ofArrived (h : Consistent c s) (regular : IsRegular c)
    (started : ∀ i < s.tree.size, c.query.earliestDeparture ≤ departureOf c (s.tree.iteration i))
    (short : c.query.minTransferTime.seconds ≤ maxSearchSeconds)
    {arrived : Arrived × ArrivalCriteria} (member : arrived ∈ s.arrived) :
    (ofArrived c s.tree arrived).IsWithin c.query := by
  obtain ⟨leg, arrival⟩ := h.arrived arrived member
  obtain ⟨rides, transfers⟩ := nbOfRides_ofArrived h member
  have allowed := h.allowed arrived.1.node arrival.older
  have leaves := departureOf_le_departure regular h.follows arrived.1.node arrival.older
  have departs : (ofArrived c s.tree arrived).departure =
      (s.tree.node arrived.1.node).departure :=
    congrArg ArrivalCriteria.departure arrival.criteria_eq
  refine ⟨?_, ?_, ?_, fun none => ?_, fun positive => ?_⟩
  · rw [departs]
    exact Int.le_trans (started arrived.1.node arrival.older) leaves
  · have inTime : arrived.2.arrival.seconds ≤
        clampWord ((departureOf c (s.tree.iteration arrived.1.node)).seconds +
          c.query.maxDuration.step) := arrival.inTime
    have start := regular.notBefore (s.tree.iteration arrived.1.node)
    have step_le : c.query.maxDuration.step ≤ c.query.maxDuration.seconds := Nat.min_le_left _ _
    have leaves : (departureOf c (s.tree.iteration arrived.1.node)).seconds ≤
      (s.tree.node arrived.1.node).departure.seconds := leaves
    rw [departs]
    change arrived.2.arrival.seconds ≤ _
    simp only [clampWord] at inTime
    omega
  · have legs := allowsChanges_legsOf regular h.follows short arrived.1.node arrival.older
    rw [← departs] at legs
    rw [ofArrived, legsFrom_eq]
    refine legs.concat fun ride => ?_
    cases ride
  · rw [rides, transfers]
    omega
  · have ridden := (h.follows arrived.1.node arrival.older).nbOfTrips_pos
      (arrival.byVehicle.resolve_right (by omega))
    rw [rides, transfers]
    omega

theorem isWithin_of_mem_extract (regular : IsRegular c) {isOver : Checks}
    (inRange : clampWord c.query.earliestDeparture.seconds = c.query.earliestDeparture.seconds)
    (short : c.query.minTransferTime.seconds ≤ maxSearchSeconds) {walkOnly : Bool} {j : Journey}
    (member : j ∈ extract c (run c isOver).state walkOnly) : j.IsWithin c.query := by
  obtain ⟨arrived, among, rfl⟩ := List.mem_map.1 (List.mem_filter.1 member).1
  have consistent := consistent_run c isOver
  refine isWithin_ofArrived consistent regular (fun i inside => ?_) short among
  have past := consistent.past i inside
  have tried := (reached_run c isOver).iteration_le
  exact earliestDeparture_le_departureOf inRange (by omega)

end Journey

/-- The limits of a request, met by an itinerary. -/
structure Itinerary.IsWithin (r : Request) (i : Itinerary) : Prop where
  notBefore : r.departure.moment ≤ i.departure.moment
  inTime : i.arrival.moment ≤ i.departure.moment + r.maxDuration.seconds
  changes : ∀ before previous next after, i.legs = before ++ previous :: next :: after →
    next.isRide = true → (before ++ [previous]).any Leg.isRide = true →
      previous.arrival.moment + r.minTransferTime.seconds ≤ next.departure.moment
  onFoot : r.maxBoardings = 0 → i.nbOfRides = 0 ∧ i.nbOfTransfers = 0
  byVehicle : 0 < r.maxBoardings →
    i.nbOfTransfers + 1 = i.nbOfRides ∧ i.nbOfRides ≤ r.maxBoardings

section

variable {layer : Layer} {access egress : StreetLegs} {date : Date}

theorem Itinerary.isRide_legOf (leg : Journey.Leg) :
    (Itinerary.legOf layer access egress date leg).isRide = leg.isRide := by
  cases leg <;> rfl

theorem Itinerary.moments_legOf (leg : Journey.Leg) :
    (Itinerary.legOf layer access egress date leg).departure.moment =
        date.day * secondsPerDay + leg.departure.seconds ∧
      (Itinerary.legOf layer access egress date leg).arrival.moment =
        date.day * secondsPerDay + leg.arrival.seconds := by
  cases leg <;> exact ⟨SearchTime.moment_toDateTime _ _, SearchTime.moment_toDateTime _ _⟩

theorem Itinerary.any_isRide_map (legs : List Journey.Leg) :
    (legs.map (Itinerary.legOf layer access egress date)).any Leg.isRide =
      legs.any Journey.Leg.isRide := by
  rw [List.any_map]
  exact congrArg _ (funext isRide_legOf)

theorem Itinerary.nbOfRides_ofJourney (j : Journey) :
    (ofJourney layer access egress date j).nbOfRides = j.nbOfRides := by
  rw [nbOfRides, ofJourney, List.countP_map]
  exact congrArg (List.countP · j.legs) (funext isRide_legOf)

theorem Itinerary.changes_ofJourney {transfer : Nat} {j : Journey}
    (h : Journey.AllowsChanges transfer j.legs) {before after : List Itinerary.Leg}
    {previous next : Itinerary.Leg}
    (equal : (ofJourney layer access egress date j).legs = before ++ previous :: next :: after)
    (ride : next.isRide = true) (ridden : (before ++ [previous]).any Leg.isRide = true) :
    previous.arrival.moment + transfer ≤ next.departure.moment := by
  obtain ⟨first, rest, legs, rfl, others⟩ := List.map_eq_append_iff.1 equal
  obtain ⟨leg, further, rfl, rfl, more⟩ := List.map_eq_cons_iff.1 others
  obtain ⟨later, last, rfl, rfl, -⟩ := List.map_eq_cons_iff.1 more
  rw [← List.map_singleton, ← List.map_append, any_isRide_map] at ridden
  rw [isRide_legOf] at ride
  have enough := h first leg later last legs ride ridden
  rw [(moments_legOf leg).2, (moments_legOf later).1]
  omega

end

namespace Request

open Search

/-- Every itinerary of an answer is within the limits of the request, whenever its time is over. -/
theorem isWithin_of_mem_itineraries {network : Network} {layer : Layer} {r : Request}
    {clock : Clock} {response : Response} (built : Layer.build network = .ok layer)
    (answered : layer.route r clock = .ok response) {i : Itinerary}
    (member : i ∈ response.itineraries) : i.IsWithin r := by
  obtain ⟨c, accepted, answered⟩ := bind_eq_ok.1 answered
  cases answered
  obtain ⟨-, -, -, query⟩ := context_spec accepted
  have valid := isValid_of_context accepted
  obtain ⟨j, shown, rfl⟩ := List.mem_map.1 member
  have start : c.query.earliestDeparture.seconds = r.departure.second := by rw [query]; rfl
  have inDay := r.departure.second_lt
  simp only [secondsPerDay] at inDay
  have within : j.IsWithin c.query := by
    refine Journey.isWithin_of_mem_extract (isRegular built accepted) ?_ ?_
      (Journey.mem_of_mem_distinct shown)
    · rw [start]
      exact clampWord_of_bounds (by omega) (by omega)
    · rw [query]
      exact valid.minTransferTime_le
  have notBefore := within.notBefore
  have inTime := within.inTime
  rw [SearchTime.le_def, start] at notBefore
  rw [query] at inTime within
  refine ⟨?_, ?_, fun before previous next after => ?_, ?_, ?_⟩
  · rw [Itinerary.ofJourney, SearchTime.moment_toDateTime, DateTime.moment]
    omega
  · simp only [Itinerary.ofJourney, SearchTime.moment_toDateTime]
    have same : (r.query layer).maxDuration = r.maxDuration := rfl
    rw [same] at inTime
    omega
  · exact Itinerary.changes_ofJourney within.changes
  · rw [Itinerary.nbOfRides_ofJourney]
    exact within.onFoot
  · rw [Itinerary.nbOfRides_ofJourney]
    exact within.byVehicle

theorem isWithin_of_mem_itineraries_relay : ∃ layer response i,
    Layer.build .relay = .ok layer ∧ layer.route hurriedRelay .ticking = .ok response ∧
      response.truncated = true ∧ i ∈ response.itineraries ∧ i.nbOfRides = 2 ∧
        i.IsWithin hurriedRelay := by
  obtain ⟨layer, -, response, i, built, -, answered, truncated, -, member, legs⟩ :=
    exists_answer_hurriedRelay
  have rides : i.nbOfRides = (i.legs.map Itinerary.Leg.isRide).countP id := by
    rw [List.countP_map]
    rfl
  exact ⟨layer, response, i, built, answered, truncated, member, by rw [rides, legs]; rfl,
    isWithin_of_mem_itineraries built answered member⟩

end Request

end JourneyPlanner
