import JourneyPlanner.Proofs.Journey.Shown
import JourneyPlanner.Proofs.Request.Context
import JourneyPlanner.Proofs.Request.StreetLegs
import JourneyPlanner.Proofs.Search.Delivered
import JourneyPlanner.Proofs.Search.Fronts
import JourneyPlanner.Proofs.Time.Moment

/-!
The front of the destination answers everybody who got off a vehicle in time at a stop with a leg to
the destination, and what is shown of it are journeys that cannot be compared: none of them is at
least as good as another one.
-/

namespace JourneyPlanner

namespace Journey

/-- The arrival criteria of a journey. -/
def criteria (j : Journey) : ArrivalCriteria :=
  ⟨j.departure, j.arrival, j.nbOfTransfers, j.cost⟩

/-- Neither journey is at least as good as the other one. -/
def Incomparable (p : Profile) (j k : Journey) : Prop :=
  p.atLeastAsGoodAtDestination j.criteria k.criteria = false ∧
    p.atLeastAsGoodAtDestination k.criteria j.criteria = false

open Search

variable {c : Context} {s : SearchState}

theorem incomparable_extract (h : s.arrived.IsAntichain c.profile.atLeastAsGoodAtDestination)
    (walkOnly : Bool) : (extract c s walkOnly).Pairwise (Incomparable c.profile) := by
  refine List.Pairwise.filter _ (List.pairwise_map.2 ?_)
  exact h.imp fun apart => apart

theorem incomparable_distinct {p : Profile} {journeys : List Journey}
    (h : journeys.Pairwise (Incomparable p)) : (distinct journeys).Pairwise (Incomparable p) :=
  pairwise_distinct (fun apart => ⟨apart.2, apart.1⟩) h

theorem atLeastAsGood_ofJourney {p : Profile} {layer : Layer} {access egress : StreetLegs}
    {date : Date} {j k : Journey} :
    (Itinerary.ofJourney layer access egress date j).AtLeastAsGood p
        (Itinerary.ofJourney layer access egress date k) ↔
      p.atLeastAsGoodAtDestination j.criteria k.criteria = true := by
  rw [Profile.atLeastAsGoodAtDestination_iff, Itinerary.AtLeastAsGood]
  simp only [Itinerary.ofJourney, SearchTime.moment_toDateTime, criteria, Int.add_le_add_iff_left]

end Journey

namespace Request

open Search

/-- At the end of a search each node of a ride, at a stop with a leg to the destination and not too
late for its departure time, is covered at the destination; and the request is answered with
itineraries of which none is at least as good as another one. -/
theorem delivered_and_incomparable {layer : Layer} {r : Request} {c : Context}
    (accepted : r.context layer = .ok c) :
    (∀ i < (run c).state.tree.size, ∀ leg ∈ c.query.egress.legs,
      let node := (run c).state.tree.node i
      node.step.isRide = true → leg.stop = node.stop →
        node.criteria.arrival + leg.duration ≤
            departureOf c node.iteration + c.query.maxDuration →
          ∃ arrived ∈ (run c).state.arrived, c.profile.atLeastAsGoodAtDestination arrived.2
            { departure := node.departure
              arrival := node.criteria.arrival + leg.duration
              nbOfTransfers := node.criteria.nbOfTrips - 1
              cost := node.criteria.cost + c.query.legCost leg } = true) ∧
      ∃ response, layer.route r = .ok response ∧
        response.itineraries.Pairwise fun i k =>
          ¬i.AtLeastAsGood r.profile k ∧ ¬k.AtLeastAsGood r.profile i := by
  obtain ⟨-, -, profile, query⟩ := context_spec accepted
  constructor
  · intro i inside leg member node byVehicle atStop inTime
    obtain ⟨index, found⟩ := StreetLegs.atStop?_of_mem member
    rw [atStop] at found
    exact Front.covers_iff.1 (allDelivered_run c i inside byVehicle index leg found inTime)
  · have front : (run c).state.arrived.IsAntichain c.profile.atLeastAsGoodAtDestination := by
      obtain ⟨count, within, equal⟩ := exists_run_eq c
      rw [equal]
      exact (reached_stateAfter within).inOrder.arrived
    have shown : (journeys c (run c)).Pairwise (Journey.Incomparable c.profile) :=
      Journey.incomparable_distinct (Journey.incomparable_extract front _)
    refine ⟨_, route_of_stopped accepted, List.pairwise_map.2 ?_⟩
    refine shown.imp fun apart => ?_
    rw [Journey.atLeastAsGood_ofJourney, Journey.atLeastAsGood_ofJourney, ← profile, apart.1,
      apart.2]
    simp

theorem delivered_and_incomparable_relay : ∃ layer c, ∃ node : Node,
    Layer.build .relay = .ok layer ∧ relay.context layer = .ok c ∧
      node.step.isRide = true ∧ node.criteria.nbOfTrips = 2 ∧
      (∃ leg, ∃ arrived ∈ (run c).state.arrived, c.profile.atLeastAsGoodAtDestination arrived.2
        { departure := node.departure
          arrival := node.criteria.arrival + leg.duration
          nbOfTransfers := node.criteria.nbOfTrips - 1
          cost := node.criteria.cost + c.query.legCost leg } = true) ∧
        ∃ response, layer.route relay = .ok response ∧ 1 < response.itineraries.length ∧
          response.itineraries.Pairwise fun i k =>
            ¬i.AtLeastAsGood .standard k ∧ ¬k.AtLeastAsGood .standard i := by
  have found : (Layer.build .relay).toOption.any (fun layer =>
      (relay.context layer).toOption.any fun c =>
        let s := (run c).state
        decide (1 < ((Journey.extract c s (c.query.maxBoardings == 0)).foldl Journey.keep []).length) &&
          (List.range s.tree.size).any fun i => c.query.egress.legs.toList.any fun leg =>
            decide ((s.tree.node i).step.isRide = true ∧ (s.tree.node i).criteria.nbOfTrips = 2 ∧
              leg.stop = (s.tree.node i).stop ∧
                (s.tree.node i).criteria.arrival + leg.duration ≤
                  departureOf c (s.tree.node i).iteration + c.query.maxDuration)) = true := by
    decide +kernel
  obtain ⟨layer, built, found⟩ := exists_ok_of_any found
  obtain ⟨c, accepted, found⟩ := exists_ok_of_any found
  obtain ⟨several, found⟩ := Bool.and_eq_true_iff.1 found
  obtain ⟨i, inside, found⟩ := List.any_eq_true.1 found
  obtain ⟨leg, member, found⟩ := List.any_eq_true.1 found
  obtain ⟨byVehicle, twice, atStop, inTime⟩ := of_decide_eq_true found
  obtain ⟨delivered, response, answered, incomparable⟩ := delivered_and_incomparable accepted
  have arrives := delivered i (List.mem_range.1 inside) leg (Array.mem_toList_iff.1 member)
    byVehicle atStop inTime
  refine ⟨layer, c, _, built, accepted, byVehicle, twice, ⟨leg, arrives⟩, response, answered, ?_,
    incomparable⟩
  rw [route_of_stopped accepted] at answered
  cases answered
  simpa [response, journeys, Journey.distinct] using of_decide_eq_true several

end Request

end JourneyPlanner
