import JourneyPlanner.Proofs.Search.Earlier

/-!
The departure times of a range. The offsets are multiples of the step, the last one begun before the
window ends, so none of them is cut off and they are exactly the steps inside of the window, the
latest first. A search that has the time for it runs one iteration for each of them.
-/

namespace JourneyPlanner

namespace Query

variable {q : Query}

/-- A departure time of the range, as an exact sum. -/
def departureAt (q : Query) (index : Nat) : SearchTime :=
  ⟨q.earliestDeparture.seconds + (index * q.step.seconds : Nat)⟩

theorem departureAt_zero (q : Query) : q.departureAt 0 = q.earliestDeparture := by
  simp [departureAt]

theorem departureAt_lt_iff (step : 0 < q.step.seconds) {i j : Nat} :
    q.departureAt i < q.departureAt j ↔ i < j := by
  rw [SearchTime.lt_def, ← Nat.mul_lt_mul_right step]
  exact Int.add_lt_add_iff_left _ |>.trans Int.ofNat_lt

/-- The steps begun inside of the window. -/
def nbOfSteps (q : Query) : Nat :=
  (q.window.seconds + q.step.seconds - 1) / q.step.seconds

theorem lt_nbOfSteps_iff (step : 0 < q.step.seconds) {index : Nat} :
    index < q.nbOfSteps ↔ index * q.step.seconds < q.window.seconds :=
  lt_div_step_iff step

theorem departureTimes_eq_map (boardings : 1 ≤ q.maxBoardings) (step : 0 < q.step.seconds)
    (some : 1 ≤ q.window.seconds) (short : q.window.seconds ≤ maxSearchSeconds)
    (positive : 0 ≤ q.earliestDeparture.seconds)
    (within : q.earliestDeparture.seconds < secondsPerDay) :
    q.departureTimes = (List.range q.nbOfSteps).reverse.map q.departureAt := by
  have ridden : ¬(q.maxBoardings = 0 ∨ q.step.isZero = true) := by
    simp only [Duration.isZero, beq_iff_eq]
    omega
  have least : max q.nbOfSteps 1 = q.nbOfSteps := Nat.max_eq_left (div_step_spec some step).1
  simp only [departureTimes, if_neg ridden]
  rw [← nbOfSteps, least]
  refine List.map_congr_left fun index member => ?_
  have inside := (lt_nbOfSteps_iff step).1 (List.mem_range.1 (List.mem_reverse.1 member))
  exact SearchTime.ext (seconds_step positive within (by omega))

/-- The departure times of a range: each step from the earliest departure on that is before the end
of the window, and nothing else, the latest first. -/
structure IsRange (q : Query) (times : List SearchTime) : Prop where
  decreasing : times.Pairwise fun later earlier => earlier < later
  mem_iff : ∀ time, time ∈ times ↔
    ∃ index : Nat, time.seconds = q.earliestDeparture.seconds + index * q.step.seconds ∧
      time.seconds < q.earliestDeparture.seconds + q.window.seconds
  last : times.getLast? = some q.earliestDeparture

theorem IsRange.ne_nil {times : List SearchTime} (h : q.IsRange times) : times ≠ [] := by
  rintro rfl
  cases h.last

theorem isRange_map (step : 0 < q.step.seconds) (some : 1 ≤ q.window.seconds) :
    q.IsRange ((List.range q.nbOfSteps).reverse.map q.departureAt) where
  decreasing :=
    List.pairwise_map.2 (List.pairwise_reverse.2
      (List.pairwise_lt_range.imp (departureAt_lt_iff step).2))
  mem_iff time := by
    simp only [List.mem_map, List.mem_reverse, List.mem_range, lt_nbOfSteps_iff step]
    constructor
    · rintro ⟨index, inside, rfl⟩
      refine ⟨index, by simp [departureAt], ?_⟩
      simp only [departureAt]
      omega
    · rintro ⟨index, equal, inside⟩
      refine ⟨index, ?_, SearchTime.ext (by simp [departureAt, equal])⟩
      have offset : ((index * q.step.seconds : Nat) : Int) < q.window.seconds := by
        push_cast
        omega
      exact Int.ofNat_lt.1 offset
  last := by
    obtain ⟨more, count⟩ := Nat.exists_eq_add_of_le' (div_step_spec some step).1
    rw [nbOfSteps, count, List.range_succ_eq_map, List.reverse_cons, List.map_append,
      List.map_singleton, List.getLast?_concat, departureAt_zero]

end Query

namespace Search

theorem nbOfIterations_run {c : Context} (access : c.query.access.isEmpty = false)
    (egress : c.query.egress.isEmpty = false) (inTime : c.query.isLate = false) :
    (run c).truncated = false ∧ (run c).stats.nbOfIterations = c.query.departureTimes.length := by
  have number := (stateAfter_spec (c := c) (Nat.le_refl _)).2
  rw [stateAfter, List.take_length] at number
  have started : (c.query.access.isEmpty || c.query.egress.isEmpty) = false := by
    rw [access, egress, Bool.or_self]
  rw [run_eq]
  simp only [started, inTime, Bool.false_eq_true, if_false]
  exact ⟨trivial, number⟩

/-- For a window of one second to seven days and a departure on the first day, whatever the step:
the departure times are the steps inside of the window, the earliest one is tried last, and a search
on some legs that is not late has one iteration for each. -/
theorem departures_exact (c : Context) (boardings : 1 ≤ c.query.maxBoardings)
    (step : 0 < c.query.step.seconds) (some : 1 ≤ c.query.window.seconds)
    (short : c.query.window.seconds ≤ maxSearchSeconds)
    (positive : 0 ≤ c.query.earliestDeparture.seconds)
    (within : c.query.earliestDeparture.seconds < secondsPerDay) :
    c.query.IsRange c.query.departureTimes ∧ c.query.departureTimes ≠ [] ∧
      (c.query.access.isEmpty = false → c.query.egress.isEmpty = false →
        c.query.isLate = false →
          (run c).truncated = false ∧
            (run c).stats.nbOfIterations = c.query.departureTimes.length) := by
  have range := Query.isRange_map step some
  rw [← Query.departureTimes_eq_map boardings step some short positive within] at range
  exact ⟨range, range.ne_nil, nbOfIterations_run⟩

/-- Leaving the first stop of the crossing within an hour that is no multiple of the step. -/
def hourQuery : Query :=
  { crossingQuery with
    earliestDeparture := ⟨30000⟩, window := .ofHms 1 0 0, step := .ofSeconds 700 }

theorem departures_exact_hour : ∃ layer t, Layer.build .crossing = .ok layer ∧
    Timetable.build layer ⟨100⟩ 3 {} 1 = .ok t ∧ hourQuery.IsRange hourQuery.departureTimes ∧
      hourQuery.departureTimes.map SearchTime.seconds =
        [33500, 32800, 32100, 31400, 30700, 30000] ∧
        (run ⟨t, .standard, hourQuery⟩).stats.nbOfIterations = 6 := by
  have found : (Layer.build .crossing).toOption.any (fun layer =>
      (Timetable.build layer ⟨100⟩ 3 {} 1).toOption.any fun _ => true) = true := by
    rw [Layer.build, Network.patterns_crossing]
    decide +kernel
  obtain ⟨layer, built, found⟩ := exists_ok_of_any found
  obtain ⟨t, made, -⟩ := exists_ok_of_any found
  have times : hourQuery.departureTimes.map SearchTime.seconds =
      [33500, 32800, 32100, 31400, 30700, 30000] := by decide
  have boardings : 1 ≤ hourQuery.maxBoardings := by decide
  have step : 0 < hourQuery.step.seconds := by decide
  have window : 1 ≤ hourQuery.window.seconds ∧ hourQuery.window.seconds ≤ maxSearchSeconds := by
    decide
  have firstDay : 0 ≤ hourQuery.earliestDeparture.seconds ∧
      hourQuery.earliestDeparture.seconds < secondsPerDay := by
    decide
  obtain ⟨range, -, iterations⟩ := departures_exact ⟨t, .standard, hourQuery⟩ boardings step
    window.1 window.2 firstDay.1 firstDay.2
  have number := (iterations rfl rfl rfl).2
  rw [← List.length_map SearchTime.seconds, times] at number
  exact ⟨layer, t, built, made, range, times, number⟩

end Search

end JourneyPlanner
