import JourneyPlanner.Proofs.Request.Context
import JourneyPlanner.Proofs.Request.StreetLegs
import JourneyPlanner.Proofs.Search.StartClosure
import JourneyPlanner.Proofs.Time.Moment

/-!
Journeys without any vehicle. Where nobody may board, each way from the origin to a stop and from there
to the destination is matched by an itinerary that arrives no later, and so is each way with a footpath
in between, unless the leg to the first stop is beaten by another leg and a footpath.
-/

namespace JourneyPlanner

namespace Search

theorem run_eq_stateAfter_one {c : Context} (none : c.query.maxBoardings = 0)
    (notLate : c.query.isLate = false) {leg egress : StreetLeg}
    (starts : leg ∈ c.query.access.legs) (ends : egress ∈ c.query.egress.legs) :
    c.query.departureTimes = [c.query.earliestDeparture] ∧ (run c).state = stateAfter c 1 := by
  have single : c.query.departureTimes = [c.query.earliestDeparture] := by
    rw [Query.departureTimes, if_pos (.inl none)]
  have some {legs : StreetLegs} {leg : StreetLeg} (member : leg ∈ legs.legs) :
      legs.isEmpty = false := by
    rw [StreetLegs.isEmpty, Array.isEmpty_eq_false_iff]
    exact Array.ne_empty_of_mem member
  refine ⟨single, ?_⟩
  rw [run_eq, some starts, some ends, notLate, stateAfter, single]
  rfl

end Search

namespace Request

open Search

variable {layer : Layer} {r : Request} {c : Context} {response : Response}

/-- If a leg to the destination gets there in time from an arrival at its stop, the answer has an
itinerary that arrives no later. -/
def IsMatched (r : Request) (c : Context) (response : Response) (criteria : Criteria)
    (egress : StreetLeg) : Prop :=
  criteria.arrival + egress.duration ≤ latestArrival c ⟨r.departure.second⟩ →
    ∃ i ∈ response.itineraries, i.arrival.moment ≤
      ((criteria.arrival + egress.duration).toDateTime r.departure.date).moment

theorem isMatched_of_isCovered {network : Network} (built : Layer.build network = .ok layer)
    (accepted : r.context layer = .ok c) (answered : layer.route r = .ok response)
    (none : r.maxBoardings = 0) (notLate : c.query.isLate = false) {leg egress : StreetLeg}
    (starts : leg ∈ c.query.access.legs) (ends : egress ∈ c.query.egress.legs)
    {criteria : Criteria}
    (covered : (stateAfter c 1).isCovered c.profile egress.stop 0 criteria = true) :
    IsMatched r c response criteria egress := by
  intro inTime
  obtain ⟨-, -, -, query⟩ := context_spec accepted
  have noBoardings : c.query.maxBoardings = 0 := by rw [query]; exact none
  obtain ⟨single, last⟩ := run_eq_stateAfter_one noBoardings notLate starts ends
  obtain ⟨index, atStop⟩ := StreetLegs.atStop?_of_mem ends
  obtain ⟨i, zero, here⟩ := SearchState.isCovered_iff.1 covered
  obtain rfl : i = 0 := by omega
  obtain ⟨label, inFront, better⟩ := Front.covers_iff.1 here
  have sooner := SearchTime.add_le_add (Profile.arrival_le_of_atLeastAsGood better) egress.duration
  have departure : departureOf c 1 = ⟨r.departure.second⟩ := by
    rw [departureOf, single, query]
    rfl
  have early : label.2.arrival + egress.duration ≤ latestOf c 1 := by
    rw [latestOf, departure]
    exact Int.le_trans sooner inTime
  have regular := isRegular built accepted
  have member : label ∈ labelsAt (stateAfter c 1) 0 egress.stop false := inFront
  obtain ⟨good, found, arrives, -, -⟩ := exists_arrived_of_label (d := c) regular
    (Nat.le_refl 1) (by rw [single]; exact Nat.le_refl 1) member (.inr noBoardings) atStop early
  rw [← last] at found
  obtain ⟨k, shown, -, arrivesToo, -⟩ := Journey.exists_shown_of_arrived regular found
  rw [route_of_stopped accepted] at answered
  cases answered
  refine ⟨_, List.mem_map_of_mem shown, ?_⟩
  simp only [Itinerary.ofJourney, SearchTime.moment_toDateTime]
  exact Int.add_le_add_left (Int.le_trans arrivesToo (Int.le_trans arrives sooner)) _

/-- At the end of round zero of every iteration of every search on a layer, each leg that arrives in
time is covered at its stop, and each footpath from there, if the two arrive in time and the leg is not
beaten by another leg and a footpath. So an answer to a request without boardings has, for each such
way on foot that gets to the destination in time, an itinerary that arrives no later. -/
theorem onFoot_complete {network : Network} (built : Layer.build network = .ok layer) :
    (∀ (c : Context) (date : Date) (dayRange : Nat) (filters : PatternFilters) (speed : Float),
      Timetable.build layer date dayRange filters speed = .ok c.timetable →
        (∀ leg ∈ c.query.access.legs, leg.stop < layer.nbOfStops) →
          ∀ count < c.query.departureTimes.length,
            let departure := departureOf c (count + 1)
            let start := runAccess c departure (stateAfter c count)
            LegsCovered c departure start ∧ ∀ leg ∈ c.query.access.legs,
              (legCriteria c departure leg).arrival ≤ latestArrival c departure →
                ¬IsBeaten c departure leg → LegWalksCovered c departure start leg) ∧
    ∀ (r : Request) (c : Context) (response : Response), r.context layer = .ok c →
      layer.route r = .ok response → r.maxBoardings = 0 → c.query.isLate = false →
        let departure : SearchTime := ⟨r.departure.second⟩
        ∀ leg ∈ c.query.access.legs, ∀ egress ∈ c.query.egress.legs,
          (egress.stop = leg.stop → IsMatched r c response (legCriteria c departure leg) egress) ∧
          (¬IsBeaten c departure leg → ∀ w ∈ c.timetable.walksFrom leg.stop,
            egress.stop = w.target →
              IsMatched r c response (walkCriteria c (legCriteria c departure leg) w) egress) := by
  constructor
  · intro c date dayRange filters speed made legs count more
    have spec := (Timetable.build_spec made).2
    refine covered_runAccess (spec.isRegular (Layer.isCompiled_build built)) (fun leg member => ?_)
      more
    rw [Timetable.nbOfStops, spec.layer_eq]
    exact legs leg member
  · intro r c response accepted answered none notLate departure leg starts egress ends
    obtain ⟨spec, -, -, query⟩ := context_spec accepted
    have regular := spec.isRegular (Layer.isCompiled_build built)
    have noBoardings : c.query.maxBoardings = 0 := by rw [query]; exact none
    obtain ⟨single, -⟩ := run_eq_stateAfter_one noBoardings notLate starts ends
    have more : 0 < c.query.departureTimes.length := by rw [single]; exact Nat.one_pos
    have first : departureOf c 1 = departure := by
      rw [departureOf, single, query]
      rfl
    have legs : ∀ leg ∈ c.query.access.legs, leg.stop < c.timetable.nbOfStops := by
      intro leg member
      rw [query] at member
      rw [Timetable.nbOfStops, spec.layer_eq]
      exact StreetLegs.stop_lt_of_mem_ofReaches member
    obtain ⟨covered, walks⟩ := covered_runAccess regular legs more
    have same := (round_zero_stateAfter more).1
    rw [first] at covered walks same
    have matched (criteria : Criteria)
        (here : (runAccess c departure (stateAfter c 0)).isCovered c.profile egress.stop 0 criteria =
          true) : IsMatched r c response criteria egress :=
      isMatched_of_isCovered built accepted answered none notLate starts ends
        ((isCovered_zero_congr same).trans here)
    constructor
    · intro atStop inTime
      refine matched _ (atStop ▸ covered leg starts ?_) inTime
      exact Int.le_trans (SearchTime.add_le_add_add _ _ _) inTime
    · intro notBeaten w known atStop inTime
      have early : (walkCriteria c (legCriteria c departure leg) w).arrival ≤
          latestArrival c departure := Int.le_trans (SearchTime.add_le_add_add _ _ _) inTime
      refine matched _ (atStop ▸ walks leg starts ?_ notBeaten w known early) inTime
      exact Int.le_trans (SearchTime.add_le_add_add _ _ _) early

end Request

/-- A footpath from the first to the second stop and one from there to the third. -/
def Network.footpaths : Network where
  stops := #[⟨"a", "A", ⟨0, 0⟩⟩, ⟨"b", "B", ⟨0, 0⟩⟩, ⟨"c", "C", ⟨0, 0⟩⟩]
  services := #[⟨"s", [⟨100⟩]⟩]
  connections := #[⟨"a", "b", some 100, some (.ofSeconds 100), some .zero⟩,
    ⟨"b", "c", some 100, some (.ofSeconds 100), some .zero⟩]

/-- From the second stop to the third one, without boarding. -/
def Request.stroll : Request where
  access := [⟨"b", .ofSeconds 300, 0, some .zero, none⟩]
  egress := [⟨"c", .ofSeconds 0, 0, some .zero, none⟩]
  departure := Request.relay.departure
  maxRounds := some 0
  walkSpeed := 1

/-- The same, where the first stop is reached too. -/
def Request.strollOrDetour : Request :=
  { Request.stroll with
    access := ⟨"a", .ofSeconds 0, 0, some .zero, none⟩ :: Request.stroll.access }

namespace Request

open Search

theorem onFoot_complete_stroll : ∃ layer c response, Layer.build .footpaths = .ok layer ∧
    stroll.context layer = .ok c ∧ layer.route stroll = .ok response ∧
      ∃ i ∈ response.itineraries, i.arrival.moment ≤ 100 * secondsPerDay + 30400 := by
  have found : (Layer.build .footpaths).toOption.any (fun layer =>
      (stroll.context layer).toOption.any fun c =>
        c.query.isLate == false && c.query.access.legs.any fun leg =>
          c.query.egress.legs.any fun egress => (c.timetable.walksFrom leg.stop).any fun w =>
            let criteria := walkCriteria c (legCriteria c ⟨stroll.departure.second⟩ leg) w
            decide (egress.stop = w.target ∧ ¬IsBeaten c ⟨stroll.departure.second⟩ leg ∧
              (criteria.arrival + egress.duration).seconds = 30400 ∧
                30400 ≤ (latestArrival c ⟨stroll.departure.second⟩).seconds)) = true := by
    decide +kernel
  obtain ⟨layer, built, found⟩ := exists_ok_of_any found
  obtain ⟨c, accepted, found⟩ := exists_ok_of_any found
  simp only [Bool.and_eq_true, beq_iff_eq, Array.any_eq_true', List.any_eq_true,
    decide_eq_true_eq] at found
  obtain ⟨notLate, leg, starts, egress, ends, w, known, atStop, notBeaten, arrives, inTime⟩ := found
  obtain ⟨response, answered⟩ : ∃ response, layer.route stroll = .ok response :=
    ⟨_, bind_eq_ok.2 ⟨c, accepted, rfl⟩⟩
  refine ⟨layer, c, response, built, accepted, answered, ?_⟩
  have matched := ((onFoot_complete built).2 stroll c response accepted answered rfl notLate leg
    starts egress ends).2 notBeaten w known atStop
  obtain ⟨i, shown, soon⟩ := matched (Int.le_trans (Int.le_of_eq arrives) inTime)
  refine ⟨i, shown, Int.le_trans soon (Int.le_of_eq ?_)⟩
  rw [SearchTime.moment_toDateTime, arrives]
  rfl

/-- With the first stop reached too, the second one is reached sooner from there. Nobody walks on from
it, and the third one is not reached. -/
theorem exists_missed_stroll : ∃ layer c response, Layer.build .footpaths = .ok layer ∧
    strollOrDetour.context layer = .ok c ∧ layer.route strollOrDetour = .ok response ∧
      c.query.isLate = false ∧ response.itineraries = [] ∧ ∃ leg ∈ c.query.access.legs,
        let departure := departureOf c 1
        (legCriteria c departure leg).arrival ≤ latestArrival c departure ∧
          ¬LegWalksCovered c departure (runAccess c departure (stateAfter c 0)) leg := by
  have found : (Layer.build .footpaths).toOption.any (fun layer =>
      (strollOrDetour.context layer).toOption.any fun c =>
        (c.query.isLate == false && (Journey.extract c (run c).state
          (c.query.maxBoardings == 0)).isEmpty) && c.query.access.legs.any fun leg =>
            decide ((legCriteria c (departureOf c 1) leg).arrival ≤
              latestArrival c (departureOf c 1) ∧ ¬LegWalksCovered c (departureOf c 1)
                (runAccess c (departureOf c 1) (stateAfter c 0)) leg)) = true := by
    decide +kernel
  obtain ⟨layer, built, found⟩ := exists_ok_of_any found
  obtain ⟨c, accepted, found⟩ := exists_ok_of_any found
  simp only [Bool.and_eq_true, beq_iff_eq, List.isEmpty_iff, Array.any_eq_true',
    decide_eq_true_eq] at found
  obtain ⟨⟨notLate, nobody⟩, missed⟩ := found
  refine ⟨layer, c, _, built, accepted, route_of_stopped accepted, notLate, ?_, missed⟩
  refine List.eq_nil_iff_forall_not_mem.2 fun i shown => ?_
  obtain ⟨j, kept, -⟩ := mem_itineraries.1 shown
  rw [nobody] at kept
  cases kept

end Request

end JourneyPlanner
