import JourneyPlanner.Proofs.Checked.Rounds
import JourneyPlanner.Proofs.Exact.Search

/-!
The rounds of a search with each time summed in the integers, for one departure time and for the
whole range. The departure times and the latest arrivals are such sums too.
-/

namespace JourneyPlanner.Exact

open Search

def departureTimes (q : Query) : Option (List SearchTime) :=
  if q.maxBoardings = 0 ∨ q.step.isZero then return [← time? q.earliestDeparture.seconds]
  else
    let count := max ((q.window.seconds + q.step.seconds - 1) / q.step.seconds) 1
    (List.range count).reverse.mapM fun index =>
      add q.earliestDeparture (.ofSeconds (index * q.step.seconds))

def latestArrival (c : Context) (departure : SearchTime) : Option SearchTime :=
  add departure c.query.maxDuration

def runRound (c : Context) (latest : SearchTime) (round : Nat) (lines : List (LineIndex × Nat))
    (s : SearchState) : Option SearchState := do
  walkFromTransit c latest round
    (← lines.foldlM (ride c latest round) { s with lastRound := max s.lastRound round })

def runRounds (c : Context) (latest : SearchTime) (isOver : Checks) :
    (left round : Nat) → SearchState → Option Outcome
  | 0, _, s => some ⟨s, false⟩
  | left + 1, round, s =>
      if isOver s.iteration (round + 1) then some ⟨s, true⟩
      else
        match linesToRide c s round with
        | [] => some ⟨s, false⟩
        | lines => do
            runRounds c latest isOver left (round + 1) (← runRound c latest (round + 1) lines s)

def arriveOnFoot (c : Context) (latest : SearchTime) (s : SearchState) : Option SearchState :=
  (s.round 0).stops.toList.foldlM (fun s stop =>
    (currentLabels s 0 stop).foldlM (fun s label =>
      finish c latest (s.tree.node label.1).departure 0 label.1 stop label.2 s) s) s

def runAccess (c : Context) (departure : SearchTime) (s : SearchState) : Option SearchState := do
  let latest ← latestArrival c departure
  walkFromAccess c latest
    (← c.query.access.legs.toList.zipIdx.foldlM (depart c departure latest) s.nextIteration)

def runIteration (c : Context) (isOver : Checks) (s : SearchState) (departure : SearchTime) :
    Option Outcome := do
  let latest ← latestArrival c departure
  let s ← runAccess c departure s
  if c.query.maxBoardings = 0 then return ⟨← arriveOnFoot c latest s, false⟩
  else runRounds c latest isOver c.query.maxBoardings 0 s

def run (c : Context) (isOver : Checks) : Option Outcome :=
  let start := SearchState.initial c.timetable.nbOfStops c.query.maxBoardings
  if c.query.access.isEmpty || c.query.egress.isEmpty then some ⟨start, false⟩
  else do
    let isOver : Checks := fun iteration round => c.query.isLate || isOver iteration round
    Checked.runAll (runIteration c isOver) isOver (← departureTimes c.query) start

variable {c : Context} {s : SearchState} {round : Nat}

theorem departureTimes_eq {q : Query} (near : q.earliestDeparture.IsNear) :
    departureTimes q = some q.departureTimes := by
  rw [departureTimes, Query.departureTimes]
  split
  · rw [time?_of_isNear near]
    rfl
  · exact Checked.mapM_eq fun index _ => add_eq near _

theorem latestArrival_eq (near : c.IsNear) (iteration : Nat) :
    latestArrival c (departureOf c iteration) = some (latestOf c iteration) :=
  add_eq (isNear_departureOf near iteration) _

theorem runRound_eq (near : c.IsNear) (h : Consistent c s) (positive : 0 < round)
    (allowed : round ≤ c.query.maxBoardings) (lines : List (LineIndex × Nat)) :
    runRound c (latestOf c s.iteration) round lines s =
      some (Search.runRound c (latestOf c s.iteration) round lines s) := by
  have counted : Move c round s { s with lastRound := max s.lastRound round } :=
    .count _ s.nbOfScans
  have start := h.move counted
  have rides := Checked.foldlM_rides (f := ride c (latestOf c s.iteration) round)
    start positive allowed lines fun entry _ t moves => by
      have ridden := ride_eq near (start.moves moves) positive allowed entry
      rwa [moves.iteration_eq] at ridden
  have moves := rides_moves start positive allowed lines
  have walks : walkFromTransit c _ round _ = _ := walkFromTransit_eq near (start.moves moves)
  rw [moves.iteration_eq] at walks
  rw [runRound, rides]
  exact walks

theorem runRounds_eq (near : c.IsNear) (isOver : Checks) (left round : Nat) (h : Consistent c s)
    (allowed : round + left ≤ c.query.maxBoardings) :
    runRounds c (latestOf c s.iteration) isOver left round s =
      some (Search.runRounds c (latestOf c s.iteration) isOver left round s) := by
  induction left generalizing round s with
  | zero => rfl
  | succ left ih =>
      rw [runRounds, Search.runRounds]
      split
      · rfl
      · cases linesToRide c s round with
        | nil => rfl
        | cons entry others =>
            have first := runRound_moves h (Nat.succ_pos round) (by omega) (entry :: others)
            have rest := ih (round + 1) (h.moves first) (by omega)
            rw [first.iteration_eq] at rest
            simp only [Option.bind_eq_bind, Option.bind_some,
              runRound_eq near h (Nat.succ_pos round) (by omega)]
            exact rest

theorem arriveOnFoot_eq (near : c.IsNear) (h : Consistent c s)
    (none : c.query.maxBoardings = 0) :
    arriveOnFoot c (latestOf c s.iteration) s =
      some (Search.arriveOnFoot c (latestOf c s.iteration) s) := by
  rw [arriveOnFoot, Search.arriveOnFoot, ← Array.foldl_toList]
  refine Checked.foldlM_moves c 0 0 fun stop _ t moves => ?_
  have consistent := h.moves moves
  have arrives (label) (current : label ∈ currentLabels t 0 stop) (u)
      (more : Moves c 0 0 t u) := arrive_moves consistent none current more
  rw [← moves.iteration_eq]
  refine ⟨Checked.foldlM_moves c 0 0 fun label current u more => ⟨?_, arrives label current u more⟩,
    Moves.foldl arrives⟩
  have isLabel := consistent.labels _ _ _ (List.mem_filter.1 current).1
  exact finish_eq (isNear_label near consistent isLabel) _ _ _ _ _

theorem runAccess_eq (near : c.IsNear) (h : Consistent c s) :
    runAccess c (departureOf c (s.iteration + 1)) s =
      some (Search.runAccess c (departureOf c (s.iteration + 1)) s) := by
  obtain ⟨departs, departed⟩ := Checked.foldlM_departs (s := s.nextIteration)
    (f := depart c (departureOf c (s.iteration + 1)) (latestOf c (s.iteration + 1)))
    fun entry _ t _ => depart_eq (isNear_departureOf near _) entry
  have walks := walkFromAccess_eq near (h.nextIteration.moves departed)
  rw [departed.iteration_eq] at walks
  simp only [runAccess, latestArrival_eq near, departs, Option.bind_eq_bind, Option.bind_some]
  exact walks

theorem runIteration_eq (near : c.IsNear) (isOver : Checks) (h : Consistent c s) :
    runIteration c isOver s (departureOf c (s.iteration + 1)) =
      some (Search.runIteration c isOver s (departureOf c (s.iteration + 1))) := by
  have access := runAccess_moves h
  have next := h.nextIteration.moves access
  have number : (Search.runAccess c (departureOf c (s.iteration + 1)) s).iteration =
      s.iteration + 1 := access.iteration_eq
  simp only [runIteration, latestArrival_eq near, runAccess_eq near h, Search.runIteration,
    Option.bind_eq_bind, Option.bind_some]
  split
  · next none =>
      have arrivals := arriveOnFoot_eq near next none
      rw [number] at arrivals
      rw [arrivals]
      rfl
  · have rounds := runRounds_eq near isOver c.query.maxBoardings 0 next (by omega)
    rw [number] at rounds
    exact rounds

theorem run_eq (near : c.IsNear) (isOver : Checks) :
    run c isOver = some (Search.run c isOver) := by
  rw [run, Search.run]
  split
  · rfl
  · rw [departureTimes_eq near.isNear_earliest]
    exact Checked.runAll_eq (fun s reached _ => runIteration_eq near _ reached.consistent)
      (reached_stateAfter (Nat.zero_le _)) rfl

end JourneyPlanner.Exact
