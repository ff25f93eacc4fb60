import JourneyPlanner.Proofs.Journey.Reordered
import JourneyPlanner.Proofs.Request.Context
import JourneyPlanner.Proofs.Search.Starting
import JourneyPlanner.Proofs.Time.Moment

/-!
The order in which stopping patterns and reaches are listed. Of two vehicles that arrive at the same
time the one that is looked at first is kept, even when the other one leaves later, so the order
decides which itineraries are shown. It decides neither when a destination can be reached nor with
how many transfers: each itinerary of one order is matched in the other one.
-/

namespace JourneyPlanner

namespace Request

open Search

variable {network : Network} {layer other : Layer} {r q : Request} {c d : Context}

/-- No stop is reached sooner by the reach of another one and a footpath than by its own. -/
def HasStraightAccess (r : Request) (layer : Layer) : Prop :=
  ∀ leg ∈ (r.query layer).access.legs, ∀ via ∈ (r.query layer).access.legs,
    ∀ w ∈ Timetable.walks layer r.walkSpeed via.stop, w.target = leg.stop →
      leg.duration.seconds ≤ via.duration.seconds + w.duration.seconds

instance (r : Request) (layer : Layer) : Decidable (r.HasStraightAccess layer) :=
  inferInstanceAs (Decidable (∀ leg ∈ (r.query layer).access.legs,
    ∀ via ∈ (r.query layer).access.legs, ∀ w ∈ Timetable.walks layer r.walkSpeed via.stop,
      w.target = leg.stop → leg.duration.seconds ≤ via.duration.seconds + w.duration.seconds))

/-- The search of a request finds an itinerary with a departure time. -/
def FindsAt (r : Request) (layer : Layer) (time : SearchTime) (i : Itinerary) : Prop :=
  ∃ c j, r.context layer = .ok c ∧ Journey.IsFoundAt c time j ∧
    Itinerary.ofJourney layer c.query.access c.query.egress r.departure.date j = i

/-- Each itinerary of an answer to a request is matched in another answer by one that arrives no
later, has no more transfers, and leaves no earlier than the departure time of the range with which
the first one was found. -/
def IsMatchedBy (r : Request) (layer : Layer) (first second : Response) : Prop :=
  ∀ i ∈ first.itineraries, ∃ time ∈ (r.query layer).departureTimes, r.FindsAt layer time i ∧
    ∃ k ∈ second.itineraries, k.arrival.moment ≤ i.arrival.moment ∧
      k.nbOfTransfers ≤ i.nbOfTransfers ∧
        (time.toDateTime r.departure.date).moment ≤ k.departure.moment

theorem exists_context_of_isReordering (h : layer.IsReordering other)
    (accepted : r.context layer = .ok c) (access : List Reach) :
    ∃ d, { r with access := access }.context other = .ok d ∧
      c.timetable.IsReordering d.timetable := by
  obtain ⟨made, -, -⟩ := build_of_context accepted
  obtain ⟨u, madeToo, timetable⟩ := Timetable.exists_build_of_isReordering h made
  obtain ⟨rfl, -⟩ := Timetable.build_eq_ok madeToo
  exact ⟨_, (context_of_calendar h.calendar accepted access).2, timetable⟩

theorem reordered_of_context (h : layer.IsReordering other)
    (built : Layer.build network = .ok layer) {networkToo : Network}
    (builtToo : Layer.build networkToo = .ok other)
    (standard : r.profile = .standard) (accepted : r.context layer = .ok c) {access : List Reach}
    (acceptedToo : { r with access := access }.context other = .ok d)
    (timetable : c.timetable.IsReordering d.timetable) : Reordered c d := by
  obtain ⟨-, -, profile, query⟩ := context_spec accepted
  obtain ⟨-, -, profileToo, queryToo⟩ := context_spec acceptedToo
  refine ⟨⟨profile.trans standard, profileToo.trans standard⟩,
    ⟨(isRegular built accepted).timetable, (isRegular builtToo acceptedToo).timetable⟩,
    timetable, ?_⟩
  have egress : StreetLegs.ofReaches other r.egress = StreetLegs.ofReaches layer r.egress :=
    StreetLegs.ofReaches_congr h.stops r.egress
  rw [query, queryToo]
  simp only [Request.query, egress]
  rfl

theorem isStraight_of_context (accepted : r.context layer = .ok c)
    (straight : r.HasStraightAccess layer) : IsStraight c := by
  obtain ⟨spec, -, -, query⟩ := context_spec accepted
  have nbOfStops : c.timetable.nbOfStops = layer.nbOfStops := by
    rw [Timetable.nbOfStops, spec.layer_eq]
  refine ⟨?_, ?_⟩
  · rw [query, nbOfStops]
    exact fun leg member => StreetLegs.stop_lt_of_mem_ofReaches member
  · intro leg member via among w known
    rw [query] at member among
    rw [spec.walksFrom, if_pos (StreetLegs.stop_lt_of_mem_ofReaches among)] at known
    exact straight leg member via among w known

theorem isMatchedBy_of_reordered (built : Layer.build network = .ok other)
    (accepted : r.context layer = .ok c) (acceptedToo : q.context other = .ok d)
    (date : q.departure.date = r.departure.date) (h : Reordered c d) (start : StartAlike c d)
    (sameEmpty : d.query.access.isEmpty = c.query.access.isEmpty) {first second : Response}
    (answered : layer.route r = .ok first) (answeredToo : other.route q = .ok second) :
    r.IsMatchedBy layer first second := by
  obtain ⟨spec, -, -, query⟩ := context_spec accepted
  rw [route_of_stopped accepted] at answered
  rw [route_of_stopped acceptedToo] at answeredToo
  cases answered
  cases answeredToo
  have legs : ∀ leg ∈ c.query.access.legs, leg.stop < c.timetable.nbOfStops := by
    rw [query, Timetable.nbOfStops, spec.layer_eq]
    exact fun leg member => StreetLegs.stop_lt_of_mem_ofReaches member
  intro i member
  obtain ⟨j, shown, rfl⟩ := List.mem_map.1 member
  obtain ⟨time, found, k, shownToo, arrives, fewer, leaves⟩ :=
    Journey.exists_shown_of_reordered h start sameEmpty legs (isRegular built acceptedToo)
      (Journey.mem_of_mem_distinct shown)
  refine ⟨time, query ▸ found.mem_departureTimes, ⟨c, j, accepted, found, rfl⟩, _,
    List.mem_map_of_mem shownToo, ?_, fewer, ?_⟩
  · simp only [Itinerary.ofJourney, SearchTime.moment_toDateTime, date]
    exact Int.add_le_add_left arrives _
  · simp only [Itinerary.ofJourney, SearchTime.moment_toDateTime, date]
    exact Int.add_le_add_left leaves _

theorem startAlike_of_perm (h : Reordered c d) {access : List Reach}
    (sameStops : other.stops = layer.stops) (accepted : r.context layer = .ok c)
    (acceptedToo : { r with access := access }.context other = .ok d)
    (sameAccess : access = r.access ∨
      access.Perm r.access ∧ (r.access.map Reach.stopId).Nodup ∧ r.HasStraightAccess layer) :
    StartAlike c d ∧ StartAlike d c ∧ d.query.access.isEmpty = c.query.access.isEmpty := by
  obtain ⟨-, -, -, query⟩ := context_spec accepted
  obtain ⟨-, -, -, queryToo⟩ := context_spec acceptedToo
  have legs : d.query.access = StreetLegs.ofReaches layer access := by
    rw [queryToo]
    exact StreetLegs.ofReaches_congr sameStops access
  have own : c.query.access = StreetLegs.ofReaches layer r.access := by
    rw [query]
    rfl
  rcases sameAccess with rfl | ⟨perm, distinct, straight⟩
  · have same : d.query.access = c.query.access := legs.trans own.symm
    exact ⟨startAlike_of_access_eq h same, startAlike_of_access_eq h.symm same.symm,
      congrArg StreetLegs.isEmpty same⟩
  · have reordered := StreetLegs.legs_perm_ofReaches layer distinct perm
    rw [← legs, ← own] at reordered
    have same (leg : StreetLeg) : leg ∈ d.query.access.legs ↔ leg ∈ c.query.access.legs := by
      rw [← Array.mem_toList_iff, ← Array.mem_toList_iff, reordered.mem_iff]
    have left := isStraight_of_context accepted straight
    have right := left.reordered h same
    refine ⟨startAlike_of_legs h same ⟨left, right⟩,
      startAlike_of_legs h.symm (fun leg => (same leg).symm) ⟨right, left⟩, ?_⟩
    simp only [StreetLegs.isEmpty, Array.isEmpty, ← Array.length_toList, reordered.length_eq]

/-- An answer is matched, both ways, by the answer to the request on the network with its stopping
patterns in another order. The reaches may be in another order as well when they are of distinct
stops and straight. -/
theorem exists_response_of_perm {first : Response} {patterns : Array StopPattern}
    {access : List Reach} (built : Layer.build network = .ok layer)
    (samePatterns : patterns.toList.Perm network.patterns.toList)
    (sameAccess : access = r.access ∨
      access.Perm r.access ∧ (r.access.map Reach.stopId).Nodup ∧ r.HasStraightAccess layer)
    (standard : r.profile = .standard) (answered : layer.route r = .ok first) :
    ∃ other second, Layer.build { network with patterns := patterns } = .ok other ∧
      other.route { r with access := access } = .ok second ∧ r.IsMatchedBy layer first second ∧
        { r with access := access }.IsMatchedBy other second first := by
  obtain ⟨c, accepted, -⟩ := bind_eq_ok.1 answered
  obtain ⟨other, builtToo, same⟩ := Layer.exists_build_of_perm built samePatterns
  obtain ⟨d, acceptedToo, timetable⟩ := exists_context_of_isReordering same accepted access
  have h := reordered_of_context same built builtToo standard accepted acceptedToo timetable
  obtain ⟨start, startBack, empty⟩ :=
    startAlike_of_perm h same.stops accepted acceptedToo sameAccess
  have answeredToo := route_of_stopped acceptedToo
  exact ⟨other, _, builtToo, answeredToo,
    isMatchedBy_of_reordered builtToo accepted acceptedToo rfl h start empty answered answeredToo,
    isMatchedBy_of_reordered built acceptedToo accepted rfl h.symm startBack empty.symm answeredToo
      answered⟩

end Request

/-- Three vehicles between the same stops, two of which arrive at the same time. -/
def Network.race : Network where
  stops := #[⟨"a", "A", ⟨0, 0⟩⟩, ⟨"b", "B", ⟨0, 0⟩⟩, ⟨"d", "D", ⟨0, 0⟩⟩]
  routes := #[⟨"r", "R", .bus, none⟩]
  services := #[⟨"s", [⟨100⟩]⟩]
  patterns := #[⟨"p", "r", ["a", "d"],
      [⟨"t", "s", none, none, [⟨30900, 30900⟩, ⟨32400, 32400⟩]⟩]⟩,
    ⟨"q", "r", ["a", "d"], [⟨"u", "s", none, none, [⟨30600, 30600⟩, ⟨31800, 31800⟩]⟩]⟩,
    ⟨"o", "r", ["a", "d"], [⟨"v", "s", none, none, [⟨30500, 30500⟩, ⟨31800, 31800⟩]⟩]⟩]
  connections := #[⟨"a", "b", some 400, some (.ofSeconds 400), some .zero⟩]

theorem Network.race_reverse_perm :
    race.patterns.reverse.toList.Perm race.patterns.toList := by
  rw [Array.toList_reverse]
  exact List.reverse_perm _

/-- From the start of the race and a stop nearby, with one departure time. -/
def Request.race : Request where
  access := [⟨"a", .ofSeconds 0, 0, some .zero, none⟩, ⟨"b", .ofSeconds 300, 0, some .zero, none⟩]
  egress := [⟨"d", .ofSeconds 0, 0, some .zero, none⟩]
  departure := Request.relay.departure
  step := .ofHms 1 0 0
  walkSpeed := 1

namespace Request

open Search

theorem exists_answer_race : ∃ layer first,
    Layer.build .race = .ok layer ∧ race.HasStraightAccess layer ∧
      layer.route race = .ok first ∧
        ∃ i ∈ first.itineraries, i.departure.moment = 100 * secondsPerDay + 30900 := by
  have found : (Layer.build .race).toOption.any (fun layer =>
      decide (race.HasStraightAccess layer) && (race.context layer).toOption.any fun c =>
        ((Journey.extract c (run c).state (c.query.maxBoardings == 0)).foldl Journey.keep []).any
          (·.departure.seconds == 30900)) = true := by
    decide +kernel
  obtain ⟨layer, built, found⟩ := exists_ok_of_any found
  obtain ⟨straight, found⟩ := Bool.and_eq_true_iff.1 found
  obtain ⟨c, accepted, found⟩ := exists_ok_of_any found
  obtain ⟨j, member, departs⟩ := List.any_eq_true.1 found
  refine ⟨layer, _, built, of_decide_eq_true straight, route_of_stopped accepted, _,
    mem_itineraries.2 ⟨j, member, rfl⟩, ?_⟩
  rw [Itinerary.ofJourney, SearchTime.moment_toDateTime, eq_of_beq departs]
  rfl

theorem exists_answer_race_reverse : ∃ other second,
    Layer.build { Network.race with patterns := Network.race.patterns.reverse } = .ok other ∧
      other.route race = .ok second ∧
        ∀ i ∈ second.itineraries, i.departure.moment = 100 * secondsPerDay + 30500 := by
  have found : (Layer.build
      { Network.race with patterns := Network.race.patterns.reverse }).toOption.any (fun layer =>
        (race.context layer).toOption.any fun c =>
          ((Journey.extract c (run c).state (c.query.maxBoardings == 0)).foldl Journey.keep []).all
            (·.departure.seconds == 30500)) = true := by
    decide +kernel
  obtain ⟨other, built, found⟩ := exists_ok_of_any found
  obtain ⟨c, accepted, found⟩ := exists_ok_of_any found
  refine ⟨other, _, built, route_of_stopped accepted, fun i shown => ?_⟩
  obtain ⟨j, member, rfl⟩ := mem_itineraries.1 shown
  rw [Itinerary.ofJourney, SearchTime.moment_toDateTime,
    eq_of_beq (List.all_eq_true.1 found j member)]
  rfl

theorem exists_response_of_perm_race : ∃ layer first,
    let patterns := Network.race.patterns.reverse
    let q : Request := { race with access := race.access.reverse }
    Layer.build .race = .ok layer ∧ layer.route race = .ok first ∧ first.itineraries ≠ [] ∧
      patterns.toList.Perm Network.race.patterns.toList ∧ q.access.Perm race.access ∧
        ∃ other second, Layer.build { Network.race with patterns := patterns } = .ok other ∧
          other.route q = .ok second ∧ race.IsMatchedBy layer first second ∧
            q.IsMatchedBy other second first := by
  obtain ⟨layer, first, built, straight, answered, i, shown, -⟩ := exists_answer_race
  have sameAccess : race.access.reverse.Perm race.access := List.reverse_perm _
  exact ⟨layer, first, built, answered, List.ne_nil_of_mem shown, Network.race_reverse_perm,
    sameAccess, exists_response_of_perm built Network.race_reverse_perm
      (.inr ⟨sameAccess, by decide, straight⟩) rfl answered⟩

/-- With the vehicle that leaves first looked at first, the itineraries with the other ones are not
shown. -/
theorem exists_lost_itinerary : ∃ layer other first second,
    Layer.build .race = .ok layer ∧
      Network.race.patterns.reverse.toList.Perm Network.race.patterns.toList ∧
        Layer.build { Network.race with patterns := Network.race.patterns.reverse } = .ok other ∧
          race.profile = .standard ∧ race.timeout = none ∧ layer.route race = .ok first ∧
            other.route race = .ok second ∧ ∃ i ∈ first.itineraries, ∀ j ∈ second.itineraries,
              (j.departure, j.arrival, j.nbOfTransfers) ≠
                (i.departure, i.arrival, i.nbOfTransfers) := by
  obtain ⟨layer, first, built, -, answered, i, shown, last⟩ := exists_answer_race
  obtain ⟨other, second, builtToo, answeredToo, early⟩ := exists_answer_race_reverse
  refine ⟨layer, other, first, second, built, Network.race_reverse_perm, builtToo, rfl, rfl,
    answered, answeredToo, i, shown, fun j shownToo same => ?_⟩
  have moments := congrArg (fun triple => triple.1.moment) same
  simp only [last, early j shownToo] at moments
  omega

end Request

end JourneyPlanner
