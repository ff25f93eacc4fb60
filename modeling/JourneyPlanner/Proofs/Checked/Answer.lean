import JourneyPlanner.Proofs.Checked.Journey
import JourneyPlanner.Proofs.Checked.Rounds
import JourneyPlanner.Proofs.Journey.Shown
import JourneyPlanner.Proofs.Request.Context

/-!
A request that is accepted is answered without a lookup outside of an array. Compiling a network and
accepting a request make a timetable and legs whose indices are in range; the search keeps those that
it stores in range, and the search, the reading of its journeys and their itineraries give with each
lookup checked what they give without.
-/

namespace JourneyPlanner

open Search

theorem Request.inRange_context {network : Network} {layer : Layer} {r : Request} {c : Context}
    (built : Layer.build network = .ok layer) (accepted : r.context layer = .ok c) :
    c.timetable.layer = layer ∧ c.InRange := by
  obtain ⟨made, -, query⟩ := build_of_context accepted
  obtain ⟨timetable, -⟩ := Timetable.build_eq_ok made
  have same : c.timetable.layer = layer := by rw [timetable]; rfl
  have inRange := Layer.inRange_build built
  have nbOfStops : c.timetable.nbOfStops = layer.nbOfStops := by rw [Timetable.nbOfStops, same]
  refine ⟨same, same.symm ▸ inRange, Timetable.inRange_build made inRange, ?_, ?_, ?_, ?_⟩
  all_goals rw [query, nbOfStops]
  · exact fun leg => StreetLegs.stop_lt_of_mem_ofReaches
  · exact fun leg => StreetLegs.stop_lt_of_mem_ofReaches
  · exact StreetLegs.size_legAtStop_ofLegs ..
  · exact StreetLegs.size_legAtStop_ofLegs ..

namespace Checked

/-- The answer to a request, once it is accepted. -/
def answer (r : Request) (layer : Layer) (c : Context) (isOver : Checks) : Option Response := do
  let outcome ← run c isOver
  let journeys ← extract c outcome.state (c.query.maxBoardings == 0)
  return {
    itineraries := ← (Journey.distinct journeys).mapM
      (itineraryOf layer c.query.access c.query.egress r.departure.date)
    truncated := outcome.truncated
    stats := outcome.stats }

theorem answer_eq {c : Context} (inRange : c.InRange) (r : Request) (isOver : Checks) :
    answer r c.timetable.layer c isOver =
      some (r.response c.timetable.layer c (Search.run c isOver)) := by
  let outcome := Search.run c isOver
  have state : outcome.state.InRange c :=
    inRange_of_mem_stages inRange (run_mem_stages c isOver)
  have shown : (Request.journeys c outcome).mapM
        (itineraryOf c.timetable.layer c.query.access c.query.egress r.departure.date) =
      some (r.response c.timetable.layer c outcome).itineraries := by
    refine mapM_eq fun j member => itineraryOf_eq inRange.layer r.departure.date fun leg among => ?_
    have extracted := (List.mem_filter.1 (Journey.mem_of_mem_distinct member)).1
    obtain ⟨arrived, found, rfl⟩ := List.mem_map.1 extracted
    exact state.leg_of_mem_arrived inRange found among
  simp only [Request.journeys] at shown
  simp only [answer, run_eq inRange, Option.bind_eq_bind, Option.bind_some]
  rw [extract_eq inRange state, Option.bind_some, shown]
  rfl

end Checked

/-- Whatever is looked up on the way to an answer is there, whenever the time of the request is over.
The indices that the timetable, the query, each state of the search and each leg of the journeys
that can be read off it store are in range, and an answer in whose computation each lookup is checked
is the answer. -/
theorem Layer.inRange_route {network : Network} {layer : Layer} {r : Request} {clock : Clock}
    {response : Response} (built : Layer.build network = .ok layer)
    (answered : layer.route r clock = .ok response) :
    ∃ c, r.context layer = .ok c ∧ c.timetable.layer = layer ∧ c.InRange ∧
      (∀ stage ∈ stages c, stage.state.InRange c ∧
        ∀ arrived ∈ stage.state.arrived,
          ∀ leg ∈ (Journey.ofArrived c stage.state.tree arrived).legs,
            leg.InRange layer c.query.access c.query.egress) ∧
      .settled (run c (r.isOver clock)).state ∈ stages c ∧
      Checked.answer r layer c (r.isOver clock) = some response := by
  obtain ⟨c, accepted, answered⟩ := bind_eq_ok.1 answered
  cases answered
  obtain ⟨rfl, inRange⟩ := Request.inRange_context built accepted
  refine ⟨c, accepted, rfl, inRange, fun stage member => ?_, run_mem_stages c _,
    Checked.answer_eq inRange r _⟩
  have state := inRange_of_mem_stages inRange member
  exact ⟨state, fun arrived found leg among => state.leg_of_mem_arrived inRange found among⟩

theorem Layer.inRange_route_relay : ∃ layer response c, Layer.build .relay = .ok layer ∧
    Request.hurriedRelay.context layer = .ok c ∧
      layer.route Request.hurriedRelay .ticking = .ok response ∧
        response.truncated = true ∧ response.itineraries ≠ [] ∧ c.InRange ∧
          (run c (Request.hurriedRelay.isOver .ticking)).state.InRange c ∧
            Checked.answer Request.hurriedRelay layer c (Request.hurriedRelay.isOver .ticking) =
              some response := by
  obtain ⟨layer, c, response, i, built, accepted, answered, truncated, -, member, -⟩ :=
    Request.exists_answer_hurriedRelay
  obtain ⟨d, acceptedToo, -, inRange, states, ends, checked⟩ := Layer.inRange_route built answered
  cases accepted.symm.trans acceptedToo
  exact ⟨layer, response, c, built, accepted, answered, truncated, List.ne_nil_of_mem member,
    inRange, (states _ ends).1, checked⟩

end JourneyPlanner
