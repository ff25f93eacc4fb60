import JourneyPlanner.Proofs.Journey.Extraction
import JourneyPlanner.Proofs.Search.Stages
import JourneyPlanner.Proofs.Timetable.Reordered
import JourneyPlanner.Request

/-!
What an accepted request searches: a timetable of its layer, from a departure on its first day,
within durations of a week at most.
-/

namespace JourneyPlanner

namespace Request

/-- The durations of a request that can be searched. -/
structure IsValid (r : Request) : Prop where
  window_pos : 0 < r.window.seconds
  step_pos : 0 < r.step.seconds
  window_le : r.window.seconds ≤ maxSearchSeconds
  maxDuration_le : r.maxDuration.seconds ≤ maxSearchSeconds
  minTransferTime_le : r.minTransferTime.seconds ≤ maxSearchSeconds

theorem le_of_checkDuration {name : String} {value : Duration}
    (h : checkDuration name value = .ok ()) : value.seconds ≤ maxSearchSeconds := by
  simp only [checkDuration] at h
  split at h
  · cases h
  · next short => exact Nat.not_lt.1 short

theorem isValid_of_validate {r : Request} (h : r.validate = .ok ()) : r.IsValid := by
  have positive {d : Duration} (h : ¬d.isZero = true) : 0 < d.seconds :=
    Nat.pos_of_ne_zero fun zero => h (beq_iff_eq.2 zero)
  simp only [validate] at h
  split at h
  · cases h
  · next window =>
      split at h
      · cases h
      · next step =>
          obtain ⟨_, windowShort, h⟩ := bind_eq_ok.1 h
          obtain ⟨_, durationShort, h⟩ := bind_eq_ok.1 h
          obtain ⟨_, transferShort, -⟩ := bind_eq_ok.1 h
          exact ⟨positive window, positive step, le_of_checkDuration windowShort,
            le_of_checkDuration durationShort, le_of_checkDuration transferShort⟩

theorem isValid_of_context {r : Request} {layer : Layer} {c : Search.Context}
    (h : r.context layer = .ok c) : r.IsValid := by
  obtain ⟨_, valid, -⟩ := bind_eq_ok.1 h
  cases checked : r.validate with
  | error e =>
      rw [checked] at valid
      cases valid
  | ok => exact isValid_of_validate checked

theorem build_of_context {r : Request} {layer : Layer} {c : Search.Context}
    (h : r.context layer = .ok c) :
    Timetable.build layer r.departure.date r.dayRange r.filters r.walkSpeed = .ok c.timetable ∧
      c.profile = r.profile ∧ c.query = r.query layer := by
  obtain ⟨-, -, h⟩ := bind_eq_ok.1 h
  split at h
  · cases h
  · obtain ⟨timetable, built, h⟩ := bind_eq_ok.1 h
    cases h
    cases made : Timetable.build layer r.departure.date r.dayRange r.filters r.walkSpeed with
    | error e =>
        rw [made] at built
        cases built
    | ok t =>
        rw [made] at built
        cases built
        exact ⟨rfl, rfl, rfl⟩

theorem route_of_context {r : Request} {layer : Layer} {c : Search.Context}
    (accepted : r.context layer = .ok c) (clock : Clock) :
    layer.route r clock = .ok (r.response layer c (Search.run c (r.isOver clock))) :=
  bind_eq_ok.2 ⟨c, accepted, rfl⟩

/-- While no time passes a search is over when it starts or never. -/
theorem run_isOver_stopped {r : Request} {layer : Layer} {c : Search.Context}
    (accepted : r.context layer = .ok c) :
    Search.run c (r.isOver .stopped) = Search.run c := by
  obtain ⟨-, -, query⟩ := build_of_context accepted
  have zero : (fun allowed : Duration => decide (allowed.seconds ≤ 0)) = Duration.isZero := by
    funext allowed
    simp only [Duration.isZero, Nat.le_zero, beq_eq_decide]
  have late : r.isOver .stopped = fun _ _ => c.query.isLate := by
    funext iteration round
    rw [isOver, Clock.stopped, zero, query, Request.query]
  simp only [Search.run, late, Bool.or_self, Search.Checks.never, Bool.or_false]

theorem route_of_stopped {r : Request} {layer : Layer} {c : Search.Context}
    (accepted : r.context layer = .ok c) :
    layer.route r = .ok (r.response layer c (Search.run c)) := by
  rw [route_of_context accepted, run_isOver_stopped accepted]

theorem mem_itineraries {r : Request} {layer : Layer} {c : Search.Context}
    {outcome : Search.Outcome} {i : Itinerary} :
    i ∈ (r.response layer c outcome).itineraries ↔
      ∃ j ∈ (Journey.extract c outcome.state (c.query.maxBoardings == 0)).foldl Journey.keep [],
        Itinerary.ofJourney layer c.query.access c.query.egress r.departure.date j = i := by
  simp only [response, journeys, Journey.distinct, List.mem_map, List.mem_mergeSort]

theorem context_of_calendar {r : Request} {layer other : Layer} {c : Search.Context}
    (calendar : other.calendar = layer.calendar) (accepted : r.context layer = .ok c)
    (access : List Reach) :
    c.timetable = .ofLayer layer r.departure.date r.dayRange r.filters r.walkSpeed ∧
      { r with access := access }.context other =
        .ok ⟨.ofLayer other r.departure.date r.dayRange r.filters r.walkSpeed, c.profile,
          { r with access := access }.query other⟩ := by
  obtain ⟨made, profile, -⟩ := build_of_context accepted
  obtain ⟨timetable, others⟩ := Timetable.build_eq_ok made
  have serves : other.serves r.departure.date = layer.serves r.departure.date := by
    rw [Layer.serves, Layer.serves, calendar]
  obtain ⟨_, valid, accepted⟩ := bind_eq_ok.1 accepted
  refine ⟨timetable, bind_eq_ok.2 ⟨_, valid, ?_⟩⟩
  split at accepted
  · cases accepted
  · next served =>
      simp only [serves, if_neg served, others other, profile]
      rfl

theorem context_spec {r : Request} {layer : Layer} {c : Search.Context}
    (h : r.context layer = .ok c) :
    c.timetable.IsTimetableOf layer r.departure.date r.dayRange r.filters r.walkSpeed ∧
      r.dayRange ≤ maxDayRange ∧ c.profile = r.profile ∧ c.query = r.query layer := by
  obtain ⟨made, profile, query⟩ := build_of_context h
  obtain ⟨days, spec⟩ := Timetable.build_spec made
  exact ⟨spec, days, profile, query⟩

theorem isRegular {network : Network} {layer : Layer} (built : Layer.build network = .ok layer)
    {r : Request} {c : Search.Context} (h : r.context layer = .ok c) : Journey.IsRegular c := by
  obtain ⟨spec, -, -, query⟩ := context_spec h
  have bounds : ∀ iteration, 0 ≤ (Search.departureOf c iteration).seconds ∧
      (Search.departureOf c iteration).seconds < secondsPerDay + maxSearchSeconds := by
    intro iteration
    by_cases inside : iteration - 1 < c.query.departureTimes.length
    · have member : Search.departureOf c iteration ∈ c.query.departureTimes := by
        rw [Search.departureOf, List.getD_eq_getElem?_getD, List.getElem?_eq_getElem inside,
          Option.getD_some]
        exact List.getElem_mem inside
      rw [query] at member
      refine Query.departureTimes_bounds ?_ ?_ member
      · exact Int.natCast_nonneg _
      · exact Int.ofNat_lt.2 r.departure.second_lt
    · rw [Search.departureOf, List.getD_eq_getElem?_getD, List.getElem?_eq_none (Nat.not_lt.1 inside),
        Option.getD_none]
      exact ⟨Int.le_refl _, by decide⟩
  exact ⟨spec.isRegular (Layer.isCompiled_build built), fun i => (bounds i).1,
    fun i => (bounds i).2⟩

end Request

/-- From the first to the last stop of the relay, with two departure times. -/
def Request.relay : Request where
  access := [⟨"a", .ofSeconds 300, 0, some .zero, none⟩]
  egress := [⟨"d", .ofSeconds 300, 0, some .zero, none⟩]
  departure := ⟨⟨100⟩, 30000, by decide, false, 0⟩
  window := .ofHms 0 2 0
  walkSpeed := 1

theorem Request.exists_answer_relay : ∃ layer c i, Layer.build .relay = .ok layer ∧
    relay.context layer = .ok c ∧ (Search.run c).state.arrived.length = 2 ∧
      (Search.run c).state.iteration = 2 ∧
        i ∈ (relay.response layer c (Search.run c)).itineraries ∧ i.nbOfTransfers = 1 := by
  have found : (Layer.build .relay).toOption.any (fun layer =>
      (relay.context layer).toOption.any fun c =>
        let s := (Search.run c).state
        decide (s.arrived.length = 2 ∧ s.iteration = 2) &&
          ((Journey.extract c s (c.query.maxBoardings == 0)).foldl Journey.keep []).any
            (·.nbOfTransfers == 1)) = true := by
    decide +kernel
  obtain ⟨layer, built, found⟩ := exists_ok_of_any found
  obtain ⟨c, accepted, found⟩ := exists_ok_of_any found
  obtain ⟨twice, found⟩ := Bool.and_eq_true_iff.1 found
  obtain ⟨arrived, tried⟩ := of_decide_eq_true twice
  obtain ⟨j, kept, once⟩ := List.any_eq_true.1 found
  exact ⟨layer, c, _, built, accepted, arrived, tried, mem_itineraries.2 ⟨j, kept, rfl⟩,
    eq_of_beq once⟩

/-- The same with twenty seconds for the search. -/
def Request.hurriedRelay : Request :=
  { Request.relay with timeout := some (.ofSeconds 20) }

/-- Each departure time takes ten seconds. -/
def Clock.ticking : Clock := fun iteration round => 10 * iteration + round

theorem Request.exists_answer_hurriedRelay : ∃ layer c response i,
    Layer.build .relay = .ok layer ∧ hurriedRelay.context layer = .ok c ∧
      layer.route hurriedRelay .ticking = .ok response ∧ response.truncated = true ∧
        response.stats.nbOfIterations = 1 ∧ i ∈ response.itineraries ∧
          i.legs.map Itinerary.Leg.isRide = [false, true, false, true, false] := by
  have found : (Layer.build .relay).toOption.any (fun layer =>
      (hurriedRelay.context layer).toOption.any fun _ =>
        (layer.route hurriedRelay .ticking).toOption.any fun response =>
          decide (response.truncated = true ∧ response.stats.nbOfIterations = 1) &&
            response.itineraries.any fun i =>
              i.legs.map Itinerary.Leg.isRide == [false, true, false, true, false]) = true := by
    decide +kernel
  obtain ⟨layer, built, found⟩ := exists_ok_of_any found
  obtain ⟨c, accepted, found⟩ := exists_ok_of_any found
  obtain ⟨response, answered, found⟩ := exists_ok_of_any found
  obtain ⟨short, found⟩ := Bool.and_eq_true_iff.1 found
  obtain ⟨truncated, once⟩ := of_decide_eq_true short
  obtain ⟨i, member, legs⟩ := List.any_eq_true.1 found
  exact ⟨layer, c, response, i, built, accepted, answered, truncated, once, member, eq_of_beq legs⟩

end JourneyPlanner
