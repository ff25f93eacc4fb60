import JourneyPlanner.Proofs.Request.Earlier
import JourneyPlanner.Proofs.Request.StreetLegs
import JourneyPlanner.Proofs.Search.Beside

/-!
More stops to walk to the destination from lose no journey. The search goes through the same rounds
and grows the same tree, whatever the legs to the destination are, and where the legs of the first
request are among those of the second one, the destination of the second one is nowhere worse off.
-/

namespace JourneyPlanner.Request

open Search

variable {layer : Layer} {r : Request} {c : Context} {more : List Reach}

theorem context_egress (r : Request) (layer : Layer) (egress : List Reach) :
    { r with egress := egress }.context layer = (r.context layer).map fun c =>
      c.beside c.timetable (.ofReaches layer egress) := by
  have valid : { r with egress := egress }.validate = r.validate := rfl
  simp only [context, valid]
  cases r.validate with
  | error e => rfl
  | ok =>
      simp only [Except.mapError, bind, Except.bind]
      split
      · rfl
      · cases Timetable.build layer r.departure.date r.dayRange r.filters r.walkSpeed with
        | error e => rfl
        | ok t => rfl

/-- A search with more legs to the destination, at stops that had none, goes side by side with the
search without them, and covers at the destination what that one covers. -/
theorem beside_of_more_egress (known : ∃ reach ∈ r.egress, (layer.stopIndex? reach.stopId).isSome)
    (new : ∀ reach ∈ more, reach.stopId ∉ r.egress.map Reach.stopId)
    (query : c.query = r.query layer) :
    Beside (ArrivedFront.CoversAll c.profile) (run c).state
      (run (c.beside c.timetable (.ofReaches layer (r.egress ++ more)))).state := by
  have legs : c.query.egress = .ofReaches layer r.egress := by
    rw [query]
    rfl
  obtain ⟨reach, asked, stop⟩ := known
  obtain ⟨index, found⟩ := Option.isSome_iff_exists.1 stop
  have some {reaches : List Reach} (member : reach ∈ reaches) :
      (StreetLegs.ofReaches layer reaches).isEmpty = false := by
    have has : index ∈ (StreetLegs.ofReaches layer reaches).stops := by
      rw [StreetLegs.stops_ofReaches]
      exact List.mem_eraseDups.2 (List.mem_filterMap.2 ⟨reach, member, found⟩)
    rw [StreetLegs.isEmpty, Bool.eq_false_iff]
    intro nothing
    simp [StreetLegs.stops, Array.isEmpty_iff.1 nothing] at has
  refine (run_beside (.refl c.timetable) (finishesBeside_of_legs fun {stop index leg} atStop => ?_)
    (fun _ nothing => nothing) ?_).1
  · rw [legs] at atStop
    obtain ⟨-, member, rfl⟩ := StreetLegs.atStop?_spec atStop
    exact StreetLegs.atStop?_of_mem (StreetLegs.mem_ofReaches_append new member)
  · rw [legs, some asked, some (List.mem_append_left more asked)]

/-- Some reaches of new stops are appended to those from which the destination can be reached. The
request is accepted as before; both searches end with the same rounds and the same tree; and for
each itinerary of the first answer the second one has an itinerary that leaves no earlier, arrives
no later and has no more transfers. -/
theorem exists_itinerary_of_more_egress {network : Network}
    (built : Layer.build network = .ok layer)
    (known : ∃ reach ∈ r.egress, (layer.stopIndex? reach.stopId).isSome)
    (new : ∀ reach ∈ more, reach.stopId ∉ r.egress.map Reach.stopId)
    (accepted : r.context layer = .ok c) :
    let q : Request := { r with egress := r.egress ++ more }
    ∃ d first second, q.context layer = .ok d ∧ layer.route r = .ok first ∧
      layer.route q = .ok second ∧ (run d).state.rounds = (run c).state.rounds ∧
        (run d).state.tree = (run c).state.tree ∧
          ∀ i ∈ first.itineraries, ∃ better ∈ second.itineraries,
            i.departure.moment ≤ better.departure.moment ∧
              better.arrival.moment ≤ i.arrival.moment ∧ better.nbOfTransfers ≤ i.nbOfTransfers := by
  intro q
  obtain ⟨-, -, -, query⟩ := context_spec accepted
  let d : Context := c.beside c.timetable (.ofReaches layer (r.egress ++ more))
  have acceptedToo : q.context layer = .ok d := by
    rw [context_egress, accepted]
    rfl
  have beside : Beside (ArrivedFront.CoversAll c.profile) (run c).state (run d).state :=
    beside_of_more_egress known new query
  refine ⟨d, _, _, acceptedToo, route_of_stopped accepted, route_of_stopped acceptedToo,
    beside.rounds_eq, beside.tree_eq, fun i member => ?_⟩
  obtain ⟨j, shown, rfl⟩ := List.mem_map.1 member
  obtain ⟨better, found, leaves, arrives, fewer⟩ :=
    Journey.exists_shown_of_covers (isRegular built acceptedToo) beside.related
      (Journey.mem_of_mem_distinct shown)
  refine ⟨_, List.mem_map_of_mem found, ?_, ?_, fewer⟩
  · simp only [Itinerary.ofJourney, SearchTime.moment_toDateTime]
    exact Int.add_le_add_left leaves _
  · simp only [Itinerary.ofJourney, SearchTime.moment_toDateTime]
    exact Int.add_le_add_left arrives _

theorem exists_itinerary_of_more_egress_relay : ∃ layer c d first second i,
    let q : Request := { relay with
      egress := relay.egress ++ [⟨"b", .ofSeconds 900, 0, some .zero, none⟩] }
    Layer.build .relay = .ok layer ∧ relay.context layer = .ok c ∧ q.context layer = .ok d ∧
      layer.route relay = .ok first ∧ layer.route q = .ok second ∧
        (run d).state.rounds = (run c).state.rounds ∧ (run d).state.tree = (run c).state.tree ∧
          i ∈ first.itineraries ∧ i.nbOfTransfers = 1 ∧ ∃ better ∈ second.itineraries,
            i.departure.moment ≤ better.departure.moment ∧
              better.arrival.moment ≤ i.arrival.moment ∧
                better.nbOfTransfers ≤ i.nbOfTransfers := by
  obtain ⟨layer, c, i, built, accepted, -, -, member, once⟩ := exists_answer_relay
  let more : List Reach := [⟨"b", .ofSeconds 900, 0, some .zero, none⟩]
  have known : (layer.stopIndex? "d").isSome := by
    have found : (Layer.build .relay).toOption.any (fun layer =>
        (layer.stopIndex? "d").isSome) = true := by
      decide +kernel
    rw [built] at found
    exact found
  have new : ∀ reach ∈ more, reach.stopId ∉ relay.egress.map Reach.stopId := by decide +kernel
  obtain ⟨d, first, second, acceptedToo, answered, answeredToo, rounds, tree, better⟩ :=
    exists_itinerary_of_more_egress built ⟨_, List.mem_cons_self, known⟩ new accepted
  rw [route_of_stopped accepted] at answered
  cases answered
  exact ⟨layer, c, d, _, second, i, built, accepted, acceptedToo, route_of_stopped accepted,
    answeredToo, rounds, tree, member, once, better i member⟩

end JourneyPlanner.Request
