import JourneyPlanner.Proofs.Request.Context

/-!
Every journey that a search finds can be shown.
-/

namespace JourneyPlanner.Request

open Search

/-- Reading off the journeys rejects none of them: there is one for each arrival at the destination,
in the same order, and all of them are sound and as proper as a journey can be. -/
theorem extract_complete {network : Network} {layer : Layer} {r : Request} {c : Context}
    (built : Layer.build network = .ok layer) (accepted : r.context layer = .ok c) :
    Journey.extract c (run c).state (c.query.maxBoardings == 0) =
        (run c).state.arrived.map (Journey.ofArrived c (run c).state.tree) ∧
      ∀ j ∈ Journey.extract c (run c).state (c.query.maxBoardings == 0),
        j.isSound (c.query.maxBoardings == 0) = true ∧ j.IsProper (c.query.maxBoardings == 0) := by
  have regular := isRegular built accepted
  have equal := Journey.extract_eq (consistent_run c .never) regular
  refine ⟨equal, fun j member => ?_⟩
  rw [equal] at member
  obtain ⟨arrived, among, rfl⟩ := List.mem_map.1 member
  have proper := Journey.isProper_ofArrived (consistent_run c .never) regular among
  exact ⟨proper.isSound, proper⟩

theorem extract_complete_relay : ∃ layer c, Layer.build .relay = .ok layer ∧
    relay.context layer = .ok c ∧
      Journey.extract c (run c).state (c.query.maxBoardings == 0) =
          (run c).state.arrived.map (Journey.ofArrived c (run c).state.tree) ∧
        (run c).state.arrived.length = 2 := by
  obtain ⟨layer, c, -, built, accepted, arrived, -⟩ := exists_answer_relay
  exact ⟨layer, c, built, accepted, (extract_complete built accepted).1, arrived⟩

end JourneyPlanner.Request
