import JourneyPlanner.Proofs.Journey.Transfers
import JourneyPlanner.Proofs.Request.Context
import JourneyPlanner.Proofs.Search.Earlier
import JourneyPlanner.Proofs.Time.Moment

/-!
Asking for a range that starts some steps earlier loses no journey: for each itinerary of the
shorter range the longer one has an itinerary that leaves no earlier, arrives no later and has no
more transfers.
-/

namespace JourneyPlanner

namespace Journey

open Search

variable {c d : Context}

theorem exists_shown_of_covers (regular : IsRegular d)
    (covers : ∀ criteria,
      (run c).state.arrived.covers d.profile.atLeastAsGoodAtDestination criteria = true →
        (run d).state.arrived.covers d.profile.atLeastAsGoodAtDestination criteria = true)
    {walkOnly : Bool} {j : Journey} (member : j ∈ extract c (run c).state walkOnly) :
    ∃ k ∈ distinct (extract d (run d).state (d.query.maxBoardings == 0)),
      j.departure ≤ k.departure ∧ k.arrival ≤ j.arrival ∧ k.nbOfTransfers ≤ j.nbOfTransfers := by
  obtain ⟨arrived, among, rfl⟩ := List.mem_map.1 (List.mem_filter.1 member).1
  have covered := covers arrived.2 (Front.covers_iff.2
    ⟨arrived, among, d.profile.atLeastAsGoodAtDestination_refl _⟩)
  obtain ⟨good, inFront, better⟩ := Front.covers_iff.1 covered
  obtain ⟨k, shown, leaves, arrives, fewer⟩ := exists_shown_of_arrived regular inFront
  obtain ⟨arrival, departure, transfers, -⟩ :=
    (Profile.atLeastAsGoodAtDestination_iff _ _ _).1 better
  exact ⟨k, shown, Int.le_trans departure leaves, Int.le_trans arrives arrival,
    Nat.le_trans fewer transfers⟩

end Journey

namespace Request

open Search

variable {layer : Layer} {r q : Request} {c : Context}

theorem context_leaving {d : Context}
    (same : q = { r with departure := q.departure, window := q.window })
    (date : q.departure.date = r.departure.date) (accepted : r.context layer = .ok c)
    (acceptedToo : q.context layer = .ok d) : d = c.leaving ⟨q.departure.second⟩ q.window := by
  obtain ⟨built, profile, query⟩ := build_of_context accepted
  obtain ⟨builtToo, profileToo, queryToo⟩ := build_of_context acceptedToo
  rw [same] at builtToo profileToo queryToo
  have timetable : d.timetable = c.timetable := by
    rw [date, built] at builtToo
    exact (Except.ok.inj builtToo).symm
  obtain ⟨_, _, _⟩ := d
  obtain ⟨_, _, _⟩ := c
  cases timetable
  cases profile
  cases profileToo
  cases query
  cases queryToo
  rfl

/-- The second request starts some steps earlier on the same date and ends when the first one does.
For each itinerary of the first answer the second one has an itinerary that leaves no earlier,
arrives no later and has no more transfers. -/
theorem exists_itinerary_of_earlier {network : Network} {first second : Response} {k : Nat}
    (built : Layer.build network = .ok layer)
    (same : q = { r with departure := q.departure, window := q.window })
    (date : q.departure.date = r.departure.date)
    (earlier : q.departure.second + k * r.step.seconds = r.departure.second)
    (longer : q.window.seconds = r.window.seconds + k * r.step.seconds)
    (boardings : 0 < r.maxBoardings) (answered : layer.route r = .ok first)
    (answeredToo : layer.route q = .ok second) :
    ∀ i ∈ first.itineraries, ∃ better ∈ second.itineraries,
      i.departure.moment ≤ better.departure.moment ∧ better.arrival.moment ≤ i.arrival.moment ∧
        better.nbOfTransfers ≤ i.nbOfTransfers := by
  obtain ⟨c, accepted, -⟩ := bind_eq_ok.1 answered
  obtain ⟨d, acceptedToo, -⟩ := bind_eq_ok.1 answeredToo
  rw [route_of_stopped accepted] at answered
  rw [route_of_stopped acceptedToo] at answeredToo
  cases answered
  cases answeredToo
  have equal := context_leaving same date accepted acceptedToo
  obtain ⟨-, -, -, query⟩ := context_spec accepted
  have valid := isValid_of_context accepted
  have validToo := isValid_of_context acceptedToo
  obtain ⟨more, times⟩ : ∃ more, (c.leaving ⟨q.departure.second⟩ q.window).query.departureTimes =
      c.query.departureTimes ++ more := by
    have inDay := r.departure.second_lt
    have sum : (q.departure.second : Int) + (k * r.step.seconds : Nat) = r.departure.second := by
      exact_mod_cast earlier
    rw [Context.leaving, query]
    exact Query.departureTimes_earlier (k := k) boardings valid.step_pos valid.window_pos
      (Int.natCast_nonneg _) (Int.ofNat_lt.2 inDay) validToo.window_le sum longer
  intro i member
  obtain ⟨j, shown, rfl⟩ := List.mem_map.1 member
  have regular := isRegular built acceptedToo
  obtain ⟨better, found, leaves, arrives, fewer⟩ :=
    Journey.exists_shown_of_covers regular (c := c) (fun criteria covered => by
      subst equal
      exact covers_run_leaving times covered) (Journey.mem_of_mem_distinct shown)
  refine ⟨_, List.mem_map_of_mem found, ?_, ?_, fewer⟩
  · simp only [Itinerary.ofJourney, SearchTime.moment_toDateTime, date]
    exact Int.add_le_add_left leaves _
  · simp only [Itinerary.ofJourney, SearchTime.moment_toDateTime, date]
    exact Int.add_le_add_left arrives _

theorem exists_itinerary_of_earlier_relay : ∃ layer first second i,
    let r : Request := { relay with departure := ⟨⟨100⟩, 30060, by decide, false, 0⟩
                                    window := .ofHms 0 1 0 }
    Layer.build .relay = .ok layer ∧ layer.route r = .ok first ∧ layer.route relay = .ok second ∧
      i ∈ first.itineraries ∧ i.nbOfTransfers = 1 ∧
        ∃ better ∈ second.itineraries, i.departure.moment ≤ better.departure.moment ∧
          better.arrival.moment ≤ i.arrival.moment ∧ better.nbOfTransfers ≤ i.nbOfTransfers := by
  let r : Request := { relay with departure := ⟨⟨100⟩, 30060, by decide, false, 0⟩
                                  window := .ofHms 0 1 0 }
  have found : (Layer.build .relay).toOption.any (fun layer =>
      (relay.context layer).toOption.any fun _ => (layer.route r).toOption.any fun first =>
        first.itineraries.any (·.nbOfTransfers == 1)) = true := by
    decide +kernel
  obtain ⟨layer, built, found⟩ := exists_ok_of_any found
  obtain ⟨c, accepted, found⟩ := exists_ok_of_any found
  obtain ⟨first, answered, found⟩ := exists_ok_of_any found
  obtain ⟨i, member, once⟩ := List.any_eq_true.1 found
  have answeredToo := route_of_stopped accepted
  have better := exists_itinerary_of_earlier (r := r) (q := relay) (k := 1) built rfl rfl rfl rfl
    (by decide) answered answeredToo i member
  exact ⟨layer, first, _, i, built, answered, answeredToo, member, eq_of_beq once, better⟩

end Request

end JourneyPlanner
