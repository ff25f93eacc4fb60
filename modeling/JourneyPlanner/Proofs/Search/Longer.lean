import JourneyPlanner.Proofs.Search.Agree

/-!
A search with more boardings allowed makes the moves of the search with fewer, and moves of later
rounds between them. The later rounds touch neither the fronts of the earlier ones nor the arrivals
with few transfers, so the two searches agree up to the rounds they share, one departure time after
the other.
-/

namespace JourneyPlanner

namespace Search

/-- The same search with another number of boardings allowed. -/
def Context.allowing (c : Context) (boardings : Nat) : Context :=
  { c with query := { c.query with maxBoardings := boardings } }

end Search

open Search

variable {c : Context} {last : Nat} {s u t : SearchState}

theorem Agree.move_right (h : Agree last s u) (consistent : Consistent c u)
    (shared : last ≤ c.query.maxBoardings) {round : Nat} (later : last < round)
    (move : Move c round u t) : Agree last s t := by
  have grown := move.extends
  have sized := (consistent.move move).sized.rounds
  have persists : ∀ a b, TwinArrivals s.tree u.tree a b → TwinArrivals s.tree t.tree a b :=
    fun _ _ same => same.extends (.refl _) grown
  refine ⟨?_, h.left_lt, by omega, fun i within => ?_, ?_⟩
  · rw [move.iteration_eq]
    exact h.iteration_eq
  · have other : i ≠ round := Nat.ne_of_lt (Nat.lt_of_le_of_lt within later)
    rw [move.round_eq other]
    exact (h.rounds i within).extends (.refl _) grown
  · cases move with
    | reach =>
        rw [SearchState.arrived_reach]
        exact h.arrived.imp persists
    | alight =>
        rw [SearchState.arrived_alight]
        exact h.arrived.imp persists
    | @arrive arrived criteria leg arrival _ trips =>
        have transfers : criteria.nbOfTransfers = round - 1 := by
          rw [← trips]
          exact congrArg ArrivalCriteria.nbOfTransfers arrival.criteria_eq
        exact (h.arrive_right arrived (by omega)).arrived
    | count => exact h.arrived

theorem Agree.moves_right (h : Agree last s u) (consistent : Consistent c u)
    (shared : last ≤ c.query.maxBoardings) {first upTo : Nat} (later : last < first)
    (moves : Moves c first upTo u t) : Agree last s t := by
  induction moves with
  | refl => exact h
  | tail before step ih =>
      obtain ⟨round, within, move⟩ := step
      exact ih.move_right (consistent.moves before) shared (Nat.lt_of_lt_of_le later within.1) move

namespace Search

theorem linesToRide_eq (h : Agree last s u) {round : Nat} (within : round ≤ last) :
    linesToRide c s round = linesToRide c u round := by
  rw [linesToRide, linesToRide, Round.stops, Round.stops, (h.rounds round within).touched]

theorem allRounds_agree (left more : Nat) {round : Nat} (h : Agree last s u)
    (consistent : Consistent c u) (shared : round + left = last)
    (allowed : last + more ≤ c.query.maxBoardings) :
    Agree last (allRounds c (latestOf c u.iteration) left round s)
      (allRounds c (latestOf c u.iteration) (left + more) round u) := by
  induction left generalizing round s u with
  | zero =>
      have all : round = last := shared
      subst all
      have moves := allRounds_moves more round consistent allowed
      rw [Nat.zero_add]
      exact h.moves_right consistent (by omega) (Nat.lt_succ_self round) moves
  | succ left ih =>
      rw [Nat.add_right_comm, allRounds_succ, allRounds_succ, linesToRide_eq h (by omega)]
      split
      · exact h
      · have next : round + 1 ≤ last := by omega
        have rides := runRound_along (c := c) h (Nat.succ_pos round) next
          (latestOf c u.iteration) (linesToRide c u round)
        have inside : round + 1 ≤ c.query.maxBoardings := by omega
        have moves := runRound_moves consistent (Nat.succ_pos round) inside (linesToRide c u round)
        have remaining : round + 1 + left = last := by omega
        have rest := ih rides.agree (consistent.moves moves) remaining
        rw [moves.iteration_eq] at rest
        exact rest

theorem runAccess_agree (h : Agree last s u) (departure : SearchTime) :
    Agree last (runAccess c departure s) (runAccess c departure u) := by
  have start : Agree last s.nextIteration u.nextIteration := by
    refine ⟨?_, ?_, ?_, fun i within => ?_, h.arrived⟩
    · exact congrArg (· + 1) h.iteration_eq
    · simpa [SearchState.nextIteration] using h.left_lt
    · simpa [SearchState.nextIteration] using h.right_lt
    · have same := h.rounds i within
      rw [SearchState.round_nextIteration, SearchState.round_nextIteration]
      exact ⟨same.all_size, same.transit_size, same.fronts, same.transitFronts,
        congrArg TouchedStops.clear same.touched,
        congrArg TouchedStops.clear same.touchedByTransit⟩
  have departs := Along.foldl_same (fun s u leg agree => depart_along (c := c) agree departure
    (latestArrival c departure) leg) c.query.access.legs.toList.zipIdx start
  exact (walkFromAccess_along departs.agree (latestArrival c departure)).agree

variable {more : Nat}

theorem allRounds_allowing (latest : SearchTime) (left round : Nat) (s : SearchState) :
    allRounds (c.allowing more) latest left round s = allRounds c latest left round s := by
  induction left generalizing round s with
  | zero => rfl
  | succ left ih =>
      simp only [allRounds_succ, ih]
      rfl

theorem fullIteration_agree (h : Agree c.query.maxBoardings s u)
    (positive : 0 < c.query.maxBoardings) (fewer : c.query.maxBoardings ≤ more)
    (consistent : Consistent (c.allowing more) u) :
    let departure := departureOf (c.allowing more) (u.iteration + 1)
    Agree c.query.maxBoardings (fullIteration c s departure)
      (fullIteration (c.allowing more) u departure) := by
  intro departure
  have access := runAccess_moves consistent
  have rides := consistent.nextIteration.moves access
  have same := runAccess_agree (c := c.allowing more) h departure
  have left := allRounds_agree c.query.maxBoardings (more - c.query.maxBoardings) same rides
    (Nat.zero_add _) (by simp only [Context.allowing]; omega)
  have number : (runAccess (c.allowing more) departure u).iteration = u.iteration + 1 :=
    access.iteration_eq
  have all : c.query.maxBoardings + (more - c.query.maxBoardings) = more := by omega
  rw [allRounds_allowing, number, all] at left
  have some : ¬c.query.maxBoardings = 0 := by omega
  have others : ¬(c.allowing more).query.maxBoardings = 0 := by
    simp only [Context.allowing]
    omega
  simp only [fullIteration_eq, if_neg some, if_neg others]
  exact left

theorem departureTimes_allowing (positive : 0 < c.query.maxBoardings)
    (fewer : c.query.maxBoardings ≤ more) :
    (c.allowing more).query.departureTimes = c.query.departureTimes := by
  have some : ¬c.query.maxBoardings = 0 := by omega
  have others : ¬more = 0 := by omega
  simp only [Query.departureTimes, Context.allowing, some, others, false_or]

theorem initial_agree (nbOfStops : Nat) (fewer : last ≤ more) :
    Agree last (SearchState.initial nbOfStops last) (SearchState.initial nbOfStops more) := by
  refine ⟨rfl, ?_, ?_, fun i within => ?_, .nil⟩
  · simp [SearchState.initial]
  · simp only [SearchState.initial, Array.size_replicate]
    omega
  · have left : (SearchState.initial nbOfStops last).round i = Round.empty nbOfStops := by
      simp [SearchState.round, SearchState.initial, Nat.lt_succ_of_le within]
    have right : (SearchState.initial nbOfStops more).round i = Round.empty nbOfStops := by
      simp [SearchState.round, SearchState.initial,
        Nat.lt_succ_of_le (Nat.le_trans within fewer)]
    have fronts (x : StopIndex) : (Round.empty nbOfStops).front x = [] ∧
        (Round.empty nbOfStops).transitFront x = [] := by
      have known := SearchState.initial_fronts nbOfStops last i x
      rwa [left] at known
    rw [left, right]
    refine ⟨rfl, rfl, fun x => ?_, fun x => ?_, rfl, rfl⟩
    · rw [(fronts x).1]
      exact .nil
    · rw [(fronts x).2]
      exact .nil

theorem stateAfter_agree (positive : 0 < c.query.maxBoardings)
    (fewer : c.query.maxBoardings ≤ more) {count : Nat}
    (within : count ≤ c.query.departureTimes.length) :
    Agree c.query.maxBoardings (stateAfter c count) (stateAfter (c.allowing more) count) := by
  have times := departureTimes_allowing positive fewer
  induction count with
  | zero => exact initial_agree c.timetable.nbOfStops fewer
  | succ count ih =>
      have same := ih (by omega)
      have started : count ≤ (c.allowing more).query.departureTimes.length := by
        rw [times]
        omega
      obtain ⟨consistent, number⟩ := stateAfter_spec started
      have next := fullIteration_agree same positive fewer consistent
      have departure : departureOf (c.allowing more) (count + 1) = departureOf c (count + 1) := by
        rw [departureOf, departureOf, times]
      rw [stateAfter_succ (by omega), stateAfter_succ (by rw [times]; omega)]
      rw [number] at next
      rw [← departure]
      exact next

theorem run_agree (positive : 0 < c.query.maxBoardings) (fewer : c.query.maxBoardings ≤ more) :
    Agree c.query.maxBoardings (run c).state (run (c.allowing more)).state := by
  have start := initial_agree c.timetable.nbOfStops fewer
  have all := stateAfter_agree positive fewer (Nat.le_refl c.query.departureTimes.length)
  have times := departureTimes_allowing positive fewer
  simp only [stateAfter, ← times, List.take_length] at all
  rw [times] at all
  simp only [run_eq, times]
  have access : (c.allowing more).query.access = c.query.access := rfl
  have egress : (c.allowing more).query.egress = c.query.egress := rfl
  have late : (c.allowing more).query.isLate = c.query.isLate := rfl
  rw [access, egress, late]
  split
  · exact start
  · split
    · exact start
    · exact all

end Search

end JourneyPlanner
