import JourneyPlanner.Proofs.Search.Fronts

/-!
A range that starts some steps earlier and ends when it did. Its departure times are those of the
shorter range and then the earlier ones, so its search begins as the other one and goes on from
there: at the destination it covers all that the other one covers.
-/

namespace JourneyPlanner

namespace Query

theorem seconds_step {start : SearchTime} {n : Nat} (positive : 0 ≤ start.seconds)
    (within : start.seconds < secondsPerDay) (short : n ≤ maxSearchSeconds) :
    (start + Duration.ofSeconds n).seconds = start.seconds + n := by
  simp only [secondsPerDay, maxSearchSeconds] at within short
  have whole : (Duration.ofSeconds n).step = n := by
    rw [Duration.step, Duration.seconds_ofSeconds, maxSearchSeconds]
    omega
  rw [SearchTime.seconds_add, whole, clampWord_of_bounds (by omega) (by omega)]

variable {q : Query} {start : SearchTime} {window : Duration} {k : Nat}

theorem lt_div_step_iff {window step index : Nat} (positive : 0 < step) :
    index < (window + step - 1) / step ↔ index * step < window := by
  rw [Nat.lt_div_iff_mul_lt positive]
  omega

theorem div_step_spec {window step : Nat} (some : 0 < window) (positive : 0 < step) :
    1 ≤ (window + step - 1) / step ∧ ((window + step - 1) / step - 1) * step < window := by
  have least : 0 < (window + step - 1) / step :=
    (lt_div_step_iff positive).2 (by rwa [Nat.zero_mul])
  exact ⟨least, (lt_div_step_iff positive).1 (Nat.pred_lt (Nat.ne_of_gt least))⟩

theorem departureTimes_earlier (boardings : 0 < q.maxBoardings) (step : 0 < q.step.seconds)
    (some : 0 < q.window.seconds) (positive : 0 ≤ start.seconds)
    (within : q.earliestDeparture.seconds < secondsPerDay)
    (short : window.seconds ≤ maxSearchSeconds)
    (earlier : start.seconds + (k * q.step.seconds : Nat) = q.earliestDeparture.seconds)
    (longer : window.seconds = q.window.seconds + k * q.step.seconds) :
    ∃ more, { q with earliestDeparture := start, window := window }.departureTimes =
      q.departureTimes ++ more := by
  obtain ⟨least, last⟩ := div_step_spec some step
  have steps : (window.seconds + q.step.seconds - 1) / q.step.seconds =
      (q.window.seconds + q.step.seconds - 1) / q.step.seconds + k := by
    rw [← Nat.add_mul_div_right _ _ step, longer]
    congr 1
    omega
  have ridden : ¬(q.maxBoardings = 0 ∨ q.step.isZero = true) := by
    simp only [Duration.isZero, beq_iff_eq]
    omega
  obtain ⟨n, count⟩ : ∃ n, (q.window.seconds + q.step.seconds - 1) / q.step.seconds = n := ⟨_, rfl⟩
  rw [count] at least last steps
  have counts : max (n + k) 1 = k + n ∧ max n 1 = n := by omega
  have same : ∀ i ∈ (List.range n).reverse, start + Duration.ofSeconds ((k + i) * q.step.seconds) =
      q.earliestDeparture + Duration.ofSeconds (i * q.step.seconds) := by
    intro i member
    have inside : i ≤ n - 1 := by
      have := List.mem_range.1 (List.mem_reverse.1 member)
      omega
    have offset := Nat.mul_le_mul_right q.step.seconds inside
    apply SearchTime.ext
    rw [seconds_step positive (by omega) (by rw [Nat.add_mul]; omega),
      seconds_step (by omega) within (by omega), ← earlier, Nat.add_mul]
    omega
  refine ⟨(List.range k).reverse.map fun index => start + Duration.ofSeconds
    (index * q.step.seconds), ?_⟩
  simp only [departureTimes, if_neg ridden, steps, count, counts.1, counts.2]
  rw [List.range_add, List.reverse_append, List.map_append, ← List.map_reverse, List.map_map,
    ← List.map_congr_left same]
  rfl

end Query

namespace Search

/-- The same search with another range of departure times. -/
def Context.leaving (c : Context) (start : SearchTime) (window : Duration) : Context :=
  { c with query := { c.query with earliestDeparture := start, window := window } }

variable {c : Context} {start : SearchTime} {window : Duration} {more : List SearchTime}

theorem allRounds_leaving (latest : SearchTime) (left round : Nat) (s : SearchState) :
    allRounds (c.leaving start window) latest left round s = allRounds c latest left round s := by
  induction left generalizing round s with
  | zero => rfl
  | succ left ih =>
      simp only [allRounds_succ, ih]
      rfl

theorem fullIteration_leaving (s : SearchState) (departure : SearchTime) :
    fullIteration (c.leaving start window) s departure = fullIteration c s departure := by
  simp only [fullIteration_eq, allRounds_leaving]
  rfl

theorem stateAfter_leaving
    (times : (c.leaving start window).query.departureTimes = c.query.departureTimes ++ more) :
    stateAfter (c.leaving start window) c.query.departureTimes.length =
      stateAfter c c.query.departureTimes.length := by
  have same : fullIteration (c.leaving start window) = fullIteration c :=
    funext fun s => funext (fullIteration_leaving s)
  rw [stateAfter, stateAfter, times, List.take_left, List.take_length, same]
  rfl

theorem covers_run_leaving
    (times : (c.leaving start window).query.departureTimes = c.query.departureTimes ++ more)
    {criteria : ArrivalCriteria}
    (covered : (run c).state.arrived.covers c.profile.atLeastAsGoodAtDestination criteria = true) :
    (run (c.leaving start window)).state.arrived.covers c.profile.atLeastAsGoodAtDestination
      criteria = true := by
  have within : c.query.departureTimes.length ≤
      (c.leaving start window).query.departureTimes.length := by
    rw [times, List.length_append]
    omega
  have later := later_stateAfter within (Nat.le_refl _)
  have kept := (GoesOn.later later).retains.arrived criteria
  rw [stateAfter_leaving times] at kept
  simp only [stateAfter, List.take_length] at kept
  have access : (c.leaving start window).query.access = c.query.access := rfl
  have egress : (c.leaving start window).query.egress = c.query.egress := rfl
  have late : (c.leaving start window).query.isLate = c.query.isLate := rfl
  simp only [run_eq, access, egress, late] at covered ⊢
  split at covered
  · cases covered
  · next some =>
      rw [if_neg some]
      split at covered
      · cases covered
      · next inTime =>
          rw [if_neg inTime]
          exact kept covered

end Search

end JourneyPlanner
