import JourneyPlanner.Proofs.Journey.Transfers
import JourneyPlanner.Proofs.Request.Context
import JourneyPlanner.Proofs.Search.Longer

/-!
More transfers allowed never change the journeys with few transfers. The searches agree up to the
rounds they share; what is read off, left out and sorted afterwards treats the journeys with few
transfers as if there were no others.
-/

namespace JourneyPlanner

namespace Request

open Search

variable {c : Context} {more : Nat}

theorem legsFrom_allowing (tree : JourneyTree) (egress : Nat) (time : SearchTime)
    (nodes : List NodeIndex) :
    Journey.legsFrom (c.allowing more) tree egress time nodes =
      Journey.legsFrom c tree egress time nodes := by
  induction nodes generalizing time with
  | nil => rfl
  | cons index rest ih =>
      rw [Journey.legsFrom, Journey.legsFrom, ih]
      rfl

theorem extract_allowing (s : SearchState) (walkOnly : Bool) :
    Journey.extract (c.allowing more) s walkOnly = Journey.extract c s walkOnly := by
  have same : Journey.ofArrived (c.allowing more) s.tree = Journey.ofArrived c s.tree := by
    funext arrived
    simp only [Journey.ofArrived, legsFrom_allowing]
  rw [Journey.extract, Journey.extract, same]

theorem journeys_allowing (positive : 0 < c.query.maxBoardings)
    (fewer : c.query.maxBoardings ≤ more) :
    journeys c (run c) = (journeys (c.allowing more) (run (c.allowing more))).filter fun j =>
      decide (j.nbOfTransfers < c.query.maxBoardings) := by
  have short := consistent_run c .never
  have long := consistent_run (c.allowing more) .never
  have some : (c.query.maxBoardings == 0) = false := beq_false_of_ne (by omega)
  have others : ((c.allowing more).query.maxBoardings == 0) = false :=
    beq_false_of_ne (Nat.ne_of_gt (Nat.lt_of_lt_of_le positive fewer))
  have found := Journey.extract_agree (c := c) (run_agree positive fewer) short.isOrdered
    long.isOrdered false
  have alike : Journey.IsByPatterns (fun j => decide (j.nbOfTransfers < c.query.maxBoardings))
      (Journey.extract c (run (c.allowing more)).state false) := by
    rw [← extract_allowing]
    exact Journey.isByPatterns_transfers long fun n => decide (n < c.query.maxBoardings)
  rw [journeys, journeys, some, others, found, Journey.distinct_filter alike,
    extract_allowing]

theorem nbOfTransfers_le_of_mem_journeys {j : Journey} (member : j ∈ journeys c (run c)) :
    j.nbOfTransfers ≤ c.query.maxBoardings - 1 := by
  have found := Journey.mem_of_mem_distinct member
  exact (Journey.nbOfTransfers_of_mem_extract (consistent_run c .never) found).2

theorem context_maxTransfers (r : Request) (transfers : Nat) (layer : Layer) :
    let q := { r with maxTransfers := transfers }
    q.context layer = (r.context layer).map fun c => c.allowing q.maxBoardings := by
  have valid : ({ r with maxTransfers := transfers } : Request).validate = r.validate := rfl
  simp only [context, valid]
  cases r.validate with
  | error e => rfl
  | ok =>
      cases layer.serves r.departure.date with
      | false => rfl
      | true =>
          cases Timetable.build layer r.departure.date r.dayRange r.filters r.walkSpeed with
          | error e => rfl
          | ok timetable => rfl

theorem itineraries_route (layer : Layer) (r : Request) :
    (layer.route r).map Response.itineraries = (r.context layer).map fun c =>
      (journeys c (run c)).map
        (Itinerary.ofJourney layer c.query.access c.query.egress r.departure.date) := by
  cases accepted : r.context layer with
  | error e =>
      rw [Layer.route, accepted]
      rfl
  | ok c =>
      rw [route_of_stopped accepted]
      rfl

/-- Of two requests that differ in the transfers allowed, and do not say how many boardings are, the
one with fewer is accepted exactly when the other one is, and is answered with those itineraries of
the other one that have few enough transfers, in the same order. -/
theorem itineraries_of_fewer_transfers (layer : Layer) {r q : Request}
    (same : q = { r with maxTransfers := q.maxTransfers }) (unset : r.maxRounds = none)
    (fewer : r.maxTransfers ≤ q.maxTransfers) :
    (layer.route r).map Response.itineraries = (layer.route q).map fun answer =>
      answer.itineraries.filter fun i => decide (i.nbOfTransfers ≤ r.maxTransfers) := by
  have filtered : ((layer.route q).map fun answer =>
      answer.itineraries.filter fun i => decide (i.nbOfTransfers ≤ r.maxTransfers)) =
        ((layer.route q).map Response.itineraries).map
          (List.filter fun i => decide (i.nbOfTransfers ≤ r.maxTransfers)) := by
    cases layer.route q <;> rfl
  have date : q.departure.date = r.departure.date := by rw [same]
  have context : q.context layer = (r.context layer).map fun c => c.allowing q.maxBoardings := by
    rw [same]
    exact context_maxTransfers r q.maxTransfers layer
  have boardings : q.maxBoardings = min (q.maxTransfers + 1) 255 := by
    rw [same, maxBoardings, unset]
    rfl
  rw [filtered, itineraries_route, itineraries_route, context, date]
  cases accepted : r.context layer with
  | error e => rfl
  | ok c =>
      have query := (context_spec accepted).2.2.2
      have allowed : c.query.maxBoardings = min (r.maxTransfers + 1) 255 := by
        rw [query, Request.query, maxBoardings, unset]
        rfl
      have positive : 0 < c.query.maxBoardings := by omega
      have more : c.query.maxBoardings ≤ q.maxBoardings := by omega
      have short := journeys_allowing positive more
      -- With 255 boardings both requests find the same journeys, all with fewer transfers.
      have bound : ∀ j ∈ journeys (c.allowing q.maxBoardings) (run (c.allowing q.maxBoardings)),
          decide (j.nbOfTransfers < c.query.maxBoardings) =
            decide (j.nbOfTransfers ≤ r.maxTransfers) := by
        intro j member
        have le : j.nbOfTransfers ≤ q.maxBoardings - 1 := nbOfTransfers_le_of_mem_journeys member
        rw [decide_eq_decide]
        omega
      refine congrArg Except.ok ?_
      simp only [short, List.filter_congr bound]
      rw [List.filter_map]
      rfl

theorem itineraries_of_fewer_transfers_relay : ∃ layer i, Layer.build .relay = .ok layer ∧
    (layer.route { relay with maxTransfers := 0 }).map Response.itineraries =
      (layer.route relay).map (fun answer =>
        answer.itineraries.filter fun i => decide (i.nbOfTransfers ≤ 0)) ∧
      (layer.route { relay with maxTransfers := 0 }).toOption.any
        (fun answer => answer.itineraries.length == 1) = true ∧
        (∃ answer, layer.route relay = .ok answer ∧ i ∈ answer.itineraries) ∧
          i.nbOfTransfers = 1 := by
  have found : (Layer.build .relay).toOption.any (fun layer =>
      (layer.route { relay with maxTransfers := 0 }).toOption.any
        fun answer => answer.itineraries.length == 1) = true := by
    decide +kernel
  obtain ⟨layer, c, i, built, accepted, -, -, member, once⟩ := exists_answer_relay
  rw [built] at found
  have filtered := itineraries_of_fewer_transfers layer
    (r := { relay with maxTransfers := 0 }) (q := relay) rfl rfl (Nat.zero_le _)
  exact ⟨layer, i, built, filtered, found, ⟨_, route_of_stopped accepted, member⟩, once⟩

end Request

end JourneyPlanner
