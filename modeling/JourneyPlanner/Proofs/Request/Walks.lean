import JourneyPlanner.Proofs.Request.Constraints

/-!
How long the walks of an answer last. Each leg on foot lasts as long as the reach or the footpath that
it is says, and no longer than the journey may take. A duration adds a week to a time at most, and the
latest arrival is such a sum too; so where the journey may take a whole week, a walk of more than a
week is in time, and is shown to last a week.
-/

namespace JourneyPlanner

namespace Journey

open Search

variable {c : Context} {s : SearchState} {j : Journey} {leg : Leg}

theorem lasts_of_mem_extract (h : Consistent c s) (regular : IsRegular c) {walkOnly : Bool}
    (member : j ∈ extract c s walkOnly) (among : leg ∈ j.legs) : leg.Lasts c := by
  obtain ⟨arrived, inFront, rfl⟩ := List.mem_map.1 (List.mem_filter.1 member).1
  obtain ⟨last, arrival⟩ := h.arrived arrived inFront
  have rebuilt := isRebuilt regular h.follows arrived.1.node arrival.older
  rw [legs_ofArrived arrival rebuilt.legs] at among
  rcases List.mem_append.1 among with inside | final
  · exact rebuilt.legs.lasting leg inside
  · obtain rfl := List.mem_singleton.1 final
    obtain ⟨-, -, atStop⟩ := StreetLegs.atStop?_spec arrival.atStop
    have ends : arrived.2.arrival =
        (s.tree.node arrived.1.node).criteria.arrival + last.duration := by
      rw [arrival.criteria_eq]
      rfl
    have inTime := arrival.inTime
    rw [ends] at inTime
    refine fun _ => ⟨last.duration, ?_, ?_⟩
    · rw [← atStop]
      exact .egress (StreetLegs.getElem?_of_atStop? arrival.atStop)
    · change arrived.2.arrival.seconds = _
      rw [ends]
      exact seconds_add_of_inTime regular rebuilt.timed.inRange inTime

theorem forward_of_mem_extract (h : Consistent c s) (regular : IsRegular c)
    (member : j ∈ extract c s (c.query.maxBoardings == 0)) (among : leg ∈ j.legs) :
    leg.departure ≤ leg.arrival := by
  have lasts : leg.Lasts c := lasts_of_mem_extract h regular member among
  obtain ⟨arrived, inFront, rfl⟩ := List.mem_map.1 (List.mem_filter.1 member).1
  cases ride : leg.isRide with
  | true =>
      have forward := (isProper_ofArrived h regular inFront).forward leg among
      cases leg with
      | ride =>
          simp only [Leg.isBackward, Bool.or_eq_false_iff, decide_eq_false_iff_not] at forward
          exact Int.not_lt.1 forward.2
      | access => cases ride
      | walk => cases ride
      | egress => cases ride
  | false =>
      obtain ⟨duration, -, ends⟩ := lasts ride
      rw [SearchTime.le_def, ends]
      omega

theorem between_of_mem_extract (h : Consistent c s) (regular : IsRegular c)
    (member : j ∈ extract c s (c.query.maxBoardings == 0)) (among : leg ∈ j.legs) :
    j.departure ≤ leg.departure ∧ leg.arrival ≤ j.arrival := by
  have forward (leg) (among : leg ∈ j.legs) := forward_of_mem_extract h regular member among
  obtain ⟨arrived, inFront, rfl⟩ := List.mem_map.1 (List.mem_filter.1 member).1
  have proper := isProper_ofArrived h regular inFront
  exact proper.joined.between forward proper.departure proper.arrival among

end Journey

/-- The seconds between the ends of a leg that is shown. -/
def Itinerary.Leg.seconds (leg : Itinerary.Leg) : Int :=
  leg.arrival.moment - leg.departure.moment

def Itinerary.Leg.kind? : Itinerary.Leg → Option WalkKind
  | .walk kind .. => some kind
  | .ride .. => none

namespace Request

open Search

variable {network : Network} {layer : Layer} {r : Request} {clock : Clock} {c : Context}
  {response : Response}

/-- How long a leg on foot that is shown takes, by the reach or the footpath that it is. -/
inductive Takes (layer : Layer) (r : Request) : Itinerary.Leg → Duration → Prop
  | access {reach : Reach} {leg : StreetLeg} {departure arrival : DateTime} {geometry : List Coord}
      (given : reach ∈ r.access) (kept : leg ∈ (r.query layer).access.legs)
      (made : StreetLegs.ofReach? layer reach = some leg) :
      Takes layer r (.walk .access none (some (Itinerary.place layer leg.stop)) departure arrival
        leg.distance geometry) reach.duration
  | transfer {source : StopIndex} {w : Walk} {departure arrival : DateTime} {geometry : List Coord}
      (known : w ∈ Timetable.walks layer r.walkSpeed source) :
      Takes layer r (.walk .transfer (some (Itinerary.place layer source))
        (some (Itinerary.place layer w.target)) departure arrival
        (layer.footpath w.footpath).distance geometry) w.duration
  | egress {reach : Reach} {leg : StreetLeg} {departure arrival : DateTime} {geometry : List Coord}
      (given : reach ∈ r.egress) (kept : leg ∈ (r.query layer).egress.legs)
      (made : StreetLegs.ofReach? layer reach = some leg) :
      Takes layer r (.walk .egress (some (Itinerary.place layer leg.stop)) none departure arrival
        leg.distance geometry) reach.duration

theorem takes_legOf (accepted : r.context layer = .ok c) {leg : Journey.Leg} {duration : Duration}
    (takes : leg.Takes c duration) :
    Takes layer r (Itinerary.legOf layer c.query.access c.query.egress r.departure.date leg)
      duration := by
  obtain ⟨spec, -, -, query⟩ := context_spec accepted
  cases takes with
  | @access index leg departure arrival known =>
      have kept := Array.mem_of_getElem? known
      simp only [Itinerary.legOf, StreetLegs.leg_of_getElem? known]
      rw [query] at kept
      obtain ⟨reach, given, made⟩ := StreetLegs.exists_reach_of_mem_ofReaches kept
      obtain ⟨stop, -, rfl⟩ := Option.map_eq_some_iff.1 made
      exact .access given kept made
  | @walk source w departure arrival known =>
      rw [spec.walksFrom] at known
      split at known
      · exact .transfer known
      · cases known
  | @egress index leg departure arrival known =>
      have kept := Array.mem_of_getElem? known
      simp only [Itinerary.legOf, StreetLegs.leg_of_getElem? known]
      rw [query] at kept
      obtain ⟨reach, given, made⟩ := StreetLegs.exists_reach_of_mem_ofReaches kept
      obtain ⟨stop, -, rfl⟩ := Option.map_eq_some_iff.1 made
      exact .egress given kept made

theorem exists_takes_of_mem (built : Layer.build network = .ok layer)
    (answered : layer.route r clock = .ok response) {i : Itinerary} (member : i ∈ response.itineraries)
    {leg : Itinerary.Leg} (among : leg ∈ i.legs) (onFoot : leg.isRide = false) :
    ∃ duration, Takes layer r leg duration ∧ leg.seconds = duration.step ∧
      leg.seconds ≤ r.maxDuration.seconds := by
  have within := (isWithin_of_mem_itineraries built answered member).inTime
  obtain ⟨c, accepted, answered⟩ := bind_eq_ok.1 answered
  cases answered
  obtain ⟨j, shown, rfl⟩ := List.mem_map.1 member
  obtain ⟨inner, inJourney, rfl⟩ := List.mem_map.1 among
  have found := Journey.mem_of_mem_distinct shown
  have regular := isRegular built accepted
  rw [Itinerary.isRide_legOf] at onFoot
  obtain ⟨duration, takes, ends⟩ :=
    Journey.lasts_of_mem_extract (consistent_run c (r.isOver clock)) regular found inJourney onFoot
  obtain ⟨leaves, arrives⟩ :=
    Journey.between_of_mem_extract (consistent_run c (r.isOver clock)) regular found inJourney
  simp only [Itinerary.ofJourney, SearchTime.moment_toDateTime] at within
  rw [SearchTime.le_def] at leaves arrives
  refine ⟨duration, takes_legOf accepted takes, ?_, ?_⟩
  · rw [Itinerary.Leg.seconds, (Itinerary.moments_legOf inner).1, (Itinerary.moments_legOf inner).2]
    omega
  · rw [Itinerary.Leg.seconds, (Itinerary.moments_legOf inner).1, (Itinerary.moments_legOf inner).2]
    omega

/-- Every leg on foot of an answer lasts as long as its reach or its footpath says, which is no longer
than a journey may take; or it takes more than a week, a journey may take a week, and a week is what
it is shown to last. -/
theorem walk_lasts (built : Layer.build network = .ok layer)
    (answered : layer.route r clock = .ok response) {i : Itinerary} (member : i ∈ response.itineraries)
    {leg : Itinerary.Leg} (among : leg ∈ i.legs) (onFoot : leg.isRide = false) :
    ∃ duration, Takes layer r leg duration ∧
      (leg.seconds = duration.seconds ∧ duration.seconds ≤ r.maxDuration.seconds ∨
        leg.seconds = maxSearchSeconds ∧ maxSearchSeconds < duration.seconds ∧
          r.maxDuration.seconds = maxSearchSeconds) := by
  obtain ⟨duration, takes, lasts, short⟩ :=
    exists_takes_of_mem built answered member among onFoot
  obtain ⟨c, accepted, -⟩ := bind_eq_ok.1 answered
  have atMost := (isValid_of_context accepted).maxDuration_le
  refine ⟨duration, takes, ?_⟩
  rw [Duration.step] at lasts
  omega

theorem walk_lasts_relay : ∃ layer response i leg duration,
    Layer.build .relay = .ok layer ∧ layer.route hurriedRelay .ticking = .ok response ∧
      response.truncated = true ∧ i ∈ response.itineraries ∧ leg ∈ i.legs ∧
        leg.kind? = some .transfer ∧ Takes layer hurriedRelay leg duration ∧
          leg.seconds = duration.seconds ∧ duration.seconds = 60 := by
  have found : (Layer.build .relay).toOption.any (fun layer =>
      (layer.route hurriedRelay .ticking).toOption.any fun response =>
        response.truncated && response.itineraries.any fun i => i.legs.any fun leg =>
          decide (leg.kind? = some .transfer ∧ leg.isRide = false ∧ leg.seconds = 60)) = true := by
    decide +kernel
  obtain ⟨layer, built, found⟩ := exists_ok_of_any found
  obtain ⟨response, answered, found⟩ := exists_ok_of_any found
  obtain ⟨truncated, found⟩ := Bool.and_eq_true_iff.1 found
  obtain ⟨i, member, found⟩ := List.any_eq_true.1 found
  obtain ⟨leg, among, found⟩ := List.any_eq_true.1 found
  obtain ⟨transfer, onFoot, lasts⟩ := of_decide_eq_true found
  obtain ⟨duration, takes, exact | ⟨week, -⟩⟩ := walk_lasts built answered member among onFoot
  · exact ⟨layer, response, i, leg, duration, built, answered, truncated, member, among, transfer,
      takes, exact.1, by omega⟩
  · rw [lasts] at week
    cases week

end Request

/-- A walk of ten days to the first stop, where the destination is, in a journey of a week at most. -/
def Request.trek : Request :=
  { Request.relay with
    access := [⟨"a", .ofSeconds 864000, 0, some .zero, none⟩]
    egress := [⟨"a", .ofSeconds 0, 0, some .zero, none⟩]
    maxRounds := some 0
    maxDuration := .ofHms 168 0 0 }

/-- The walk is shown, and is shown to last a week. -/
theorem Request.exists_cut_walk : ∃ layer response i leg duration,
    Layer.build .relay = .ok layer ∧ layer.route .trek = .ok response ∧
      i ∈ response.itineraries ∧ leg ∈ i.legs ∧ Takes layer .trek leg duration ∧
        leg.seconds ≠ duration.seconds ∧ Request.trek.maxDuration.seconds < duration.seconds := by
  have found : (Layer.build .relay).toOption.any (fun layer =>
      (layer.route .trek).toOption.any fun response =>
        response.itineraries.any fun i => i.legs.any fun leg =>
          leg.kind? == some .access && leg.seconds == 604800) = true := by
    decide +kernel
  obtain ⟨layer, built, found⟩ := exists_ok_of_any found
  obtain ⟨response, answered, found⟩ := exists_ok_of_any found
  obtain ⟨i, member, found⟩ := List.any_eq_true.1 found
  obtain ⟨leg, among, found⟩ := List.any_eq_true.1 found
  simp only [Bool.and_eq_true, beq_iff_eq] at found
  obtain ⟨isAccess, week⟩ := found
  have onFoot : leg.isRide = false := by
    cases leg with
    | walk => rfl
    | ride => cases isAccess
  obtain ⟨duration, takes, -⟩ := exists_takes_of_mem built answered member among onFoot
  have ofReach : duration = .ofSeconds 864000 := by
    cases takes with
    | access given => rw [List.mem_singleton.1 given]
    | transfer => cases isAccess
    | egress => cases isAccess
  refine ⟨layer, response, i, leg, duration, built, answered, member, among, takes, ?_, ?_⟩
  · rw [week, ofReach]
    decide
  · rw [ofReach]
    decide

end JourneyPlanner
