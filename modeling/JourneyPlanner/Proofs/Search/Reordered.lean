import JourneyPlanner.Proofs.Search.Delivered
import JourneyPlanner.Proofs.Search.Gains
import JourneyPlanner.Proofs.Timetable.Reordered

/-!
Two searches in the standard profile whose timetables have the same lines and walks, the lines in
any order. When they know the same after the walks from the origin, they know the same after each
round: the same people wait at the same stops, and what rides and walks add follows from them.
-/

namespace JourneyPlanner.Search

/-- The searches do the same from the stops on, on the same lines in any order. -/
structure Reordered (c d : Context) : Prop where
  standard : c.profile = .standard ∧ d.profile = .standard
  regular : c.timetable.IsRegular ∧ d.timetable.IsRegular
  timetable : c.timetable.IsReordering d.timetable
  query_eq : d.query = { c.query with access := d.query.access }

variable {c d : Context} {s t u v : SearchState} {round : Nat} {latest : SearchTime}
  {waiting : StopIndex → List SearchTime} {fact : Fact}

theorem Reordered.symm (h : Reordered c d) : Reordered d c := by
  refine ⟨h.standard.symm, h.regular.symm, h.timetable.symm, ?_⟩
  rw [h.query_eq]

theorem aboard_patternIndex (line : Line) (index : PatternIndex) (boarded : Nat → List TripOnDay)
    (position : Nat) :
    aboard { line with patternIndex := index } boarded position = aboard line boarded position := by
  induction position with
  | zero => rfl
  | succ position ih =>
      rw [aboard, aboard, ih]
      rfl

theorem RidesTo.reordered (h : Reordered c d) (rides : RidesTo c latest round waiting fact) :
    RidesTo d latest round waiting fact := by
  obtain ⟨line, known, position, inside, follows⟩ := rides
  obtain ⟨other, known', index, same⟩ := h.timetable.lines line known
  have boarded : boardedTrips d round waiting { c.timetable.line line with patternIndex := index } =
      boardedTrips c round waiting (c.timetable.line line) := by
    funext position
    rw [boardedTrips, boardedTrips, h.query_eq]
    rfl
  refine ⟨other, known', position, ?_, ?_⟩
  · rw [same]
    exact inside
  · rw [same, boarded, aboard_patternIndex]
    exact follows

theorem Reordered.ridesTo_iff (h : Reordered c d) :
    RidesTo d latest round waiting fact ↔ RidesTo c latest round waiting fact :=
  ⟨RidesTo.reordered h.symm, RidesTo.reordered h⟩

theorem Reordered.walksTo_iff (h : Reordered c d) :
    WalksTo d latest waiting fact ↔ WalksTo c latest waiting fact := by
  simp only [WalksTo, h.timetable.walksFrom]

theorem Reordered.departureTimes_eq (h : Reordered c d) :
    d.query.departureTimes = c.query.departureTimes := by
  rw [h.query_eq]
  rfl

theorem Reordered.maxBoardings_eq (h : Reordered c d) :
    d.query.maxBoardings = c.query.maxBoardings := by
  rw [h.query_eq]

theorem Reordered.departureOf_eq (h : Reordered c d) (iteration : Nat) :
    departureOf d iteration = departureOf c iteration := by
  rw [departureOf, departureOf, h.departureTimes_eq]

theorem Reordered.latestArrival_eq (h : Reordered c d) (departure : SearchTime) :
    latestArrival d departure = latestArrival c departure := by
  rw [latestArrival, latestArrival, h.query_eq]

theorem Reordered.latestOf_eq (h : Reordered c d) (iteration : Nat) :
    latestOf d iteration = latestOf c iteration := by
  rw [latestOf, latestOf, h.departureOf_eq, h.latestArrival_eq]

/-- Two states of one iteration that know the same, and the same people wait in them after a
round. -/
structure Alike (round : Nat) (s u : SearchState) : Prop where
  iteration_eq : u.iteration = s.iteration
  knows : ∀ upTo fact, Knows u upTo fact ↔ Knows s upTo fact
  waiting : ∀ stop, arrivalsAt u round stop false = arrivalsAt s round stop false

theorem alike_of_isRound (standard : c.profile = .standard ∧ d.profile = .standard)
    (left : IsRound c round s t) (right : IsRound d round u v)
    (iteration_eq : u.iteration = s.iteration)
    (before : ∀ upTo fact, Knows u upTo fact ↔ Knows s upTo fact)
    (after : ∀ fact, Knows v round fact ↔ Knows t round fact) : Alike round t v := by
  refine ⟨?_, fun upTo fact => ?_, fun stop => ?_⟩
  · rw [right.moves.iteration_eq, left.moves.iteration_eq, iteration_eq]
  · rw [knows_iff_of_moves standard.2 right.moves, knows_iff_of_moves standard.1 left.moves, before,
      after]
  · exact arrivalsAt_eq_of_knows left right standard.1 standard.2 (before round) after

theorem Alike.isRidden (h : Reordered c d) (alike : Alike round s u) {s' t u' v : SearchState}
    (left : IsRidden c (latestOf c s.iteration) round s s' t)
    (right : IsRidden d (latestOf d u.iteration) round u u' v) : Alike (round + 1) t v := by
  have now := alike.iteration_eq
  have ridden (fact : Fact) : Knows u' (round + 1) fact ↔ Knows s' (round + 1) fact := by
    rw [left.ridden, right.ridden, alike.knows, h.ridesTo_iff, h.latestOf_eq, now]
    simp only [alike.waiting]
  have off (stop : StopIndex) :
      arrivalsAt u' (round + 1) stop true = arrivalsAt s' (round + 1) stop true :=
    arrivalsAt_eq_of_knows left.rides right.rides h.standard.1 h.standard.2
      (alike.knows (round + 1)) ridden
  refine alike_of_isRound h.standard left.walks right.walks now alike.knows fun fact => ?_
  rw [left.walked, right.walked, ridden, h.walksTo_iff, h.latestOf_eq, now]
  simp only [off]

theorem linesToRide_ne_nil (h : Consistent c s) (regular : c.timetable.IsRegular)
    (allowed : round ≤ c.query.maxBoardings)
    (rides : RidesTo c latest round (fun stop => arrivalsAt s round stop false) fact) :
    linesToRide c s round ≠ [] := by
  obtain ⟨line, -, position, inside, trip, member, -⟩ := rides
  obtain ⟨first, less, some⟩ := exists_boarded_of_mem_aboard member
  obtain ⟨start, -, ridden⟩ := exists_mem_linesToRide_of_boarded h regular allowed
    (show first + 1 < _ by omega) some
  exact List.ne_nil_of_mem ridden

theorem allRounds_of_ne_nil (left : Nat) (some : linesToRide c s round ≠ []) :
    allRounds c latest (left + 1) round s =
      allRounds c latest left (round + 1)
        (runRound c latest (round + 1) (linesToRide c s round) s) := by
  rw [allRounds_succ]
  split
  · next none => exact absurd none some
  · rfl

theorem Alike.knows_allRounds (h : Reordered c d) (left round : Nat) (alike : Alike round s u)
    (reached : Reached c s ∧ Reached d u) (fresh : Fresh (round + 1) s ∧ Fresh (round + 1) u)
    (allowed : round + left ≤ c.query.maxBoardings) (upTo : Nat) (fact : Fact) :
    Knows (allRounds d (latestOf d u.iteration) left round u) upTo fact ↔
      Knows (allRounds c (latestOf c s.iteration) left round s) upTo fact := by
  have allowed' : round + left ≤ d.query.maxBoardings := h.maxBoardings_eq.symm ▸ allowed
  induction left generalizing round s u with
  | zero => exact alike.knows upTo fact
  | succ left ih =>
      have rides (fact : Fact) : RidesTo d (latestOf d u.iteration) round
            (fun stop => arrivalsAt u round stop false) fact ↔
          RidesTo c (latestOf c s.iteration) round (fun stop => arrivalsAt s round stop false)
            fact := by
        rw [h.ridesTo_iff, h.latestOf_eq, alike.iteration_eq]
        simp only [alike.waiting]
      by_cases idle : ∀ fact, ¬RidesTo c (latestOf c s.iteration) round
        (fun stop => arrivalsAt s round stop false) fact
      · rw [knows_allRounds_of_idle h.standard.1 h.regular.1 _ _ reached.1 fresh.1 allowed idle,
          knows_allRounds_of_idle h.standard.2 h.regular.2 _ _ reached.2 fresh.2 allowed'
            fun fact => mt (rides fact).1 (idle fact), alike.knows]
      · obtain ⟨some, ridesTo⟩ := not_forall_not.1 idle
        rw [allRounds_of_ne_nil left (linesToRide_ne_nil reached.1.consistent h.regular.1
            (by omega) ridesTo), allRounds_of_ne_nil left (linesToRide_ne_nil reached.2.consistent h.regular.2
              (by omega) ((rides some).2 ridesTo))]
        obtain ⟨s', leftRidden⟩ := exists_isRidden reached.1 fresh.1 h.standard.1 (by omega)
          h.regular.1
        obtain ⟨u', rightRidden⟩ := exists_isRidden reached.2 fresh.2 h.standard.2 (by omega)
          h.regular.2
        have next := alike.isRidden h leftRidden rightRidden
        have movesLeft := leftRidden.walks.moves
        have movesRight := rightRidden.walks.moves
        have rest := ih (round + 1) next ⟨reached.1.moves movesLeft, reached.2.moves movesRight⟩
          ⟨fresh.1.moves movesLeft (Nat.le_refl _), fresh.2.moves movesRight (Nat.le_refl _)⟩
          (by omega) (by omega)
        rw [movesLeft.iteration_eq, movesRight.iteration_eq] at rest
        exact rest

theorem knows_nextIteration {upTo : Nat} : Knows s.nextIteration upTo fact ↔ Knows s upTo fact := by
  refine knows_congr fun i _ stop byVehicle => ?_
  simp only [labelsAt, SearchState.front_nextIteration, SearchState.transitFront_nextIteration]

/-- Arrivals at the destination change nothing else. -/
structure SameButArrived (s t : SearchState) : Prop where
  tree_eq : t.tree = s.tree
  iteration_eq : t.iteration = s.iteration
  round_eq : ∀ i, t.round i = s.round i

theorem SameButArrived.finish (h : SameButArrived s t) (latest departure : SearchTime)
    (transfers : Nat) (index : NodeIndex) (stop : StopIndex) (criteria : Criteria) :
    SameButArrived s (Search.finish c latest departure transfers index stop criteria t) := by
  obtain ⟨⟨tree, iteration⟩, -⟩ := finish_spec c latest departure transfers index stop criteria t
  exact ⟨tree.trans h.tree_eq, iteration.trans h.iteration_eq,
    fun i => (round_finish ..).trans (h.round_eq i)⟩

theorem sameButArrived_arriveOnFoot (latest : SearchTime) (s : SearchState) :
    SameButArrived s (arriveOnFoot c latest s) := by
  rw [arriveOnFoot, ← Array.foldl_toList]
  refine List.foldlRecOn (motive := SameButArrived s) _ _ ⟨rfl, rfl, fun _ => rfl⟩
    fun t kept stop _ => ?_
  exact List.foldlRecOn (motive := SameButArrived s) _ _ kept fun u same label _ => same.finish ..

theorem isRound_runAccess (h : Reached c s) (more : s.iteration < c.query.departureTimes.length) :
    IsRound c 0 s.nextIteration (runAccess c (departureOf c (s.iteration + 1)) s) :=
  ⟨h.tail (.iteration more), h.consistent.fresh_nextIteration 0, runAccess_moves h.consistent⟩

/-- The searches come to know the same on foot from the origin, departure time after departure
time. -/
def StartAlike (c d : Context) : Prop :=
  ∀ count < c.query.departureTimes.length,
    (∀ fact, Knows (stateAfter d count) 0 fact ↔ Knows (stateAfter c count) 0 fact) →
      ∀ fact, Knows (runAccess d (departureOf d (count + 1)) (stateAfter d count)) 0 fact ↔
        Knows (runAccess c (departureOf c (count + 1)) (stateAfter c count)) 0 fact

theorem Reordered.knows_fullIteration (h : Reordered c d) (reached : Reached c s ∧ Reached d u)
    (iteration_eq : u.iteration = s.iteration)
    (more : s.iteration < c.query.departureTimes.length)
    (before : ∀ upTo fact, Knows u upTo fact ↔ Knows s upTo fact)
    (start : ∀ fact, Knows (runAccess d (departureOf d (u.iteration + 1)) u) 0 fact ↔
      Knows (runAccess c (departureOf c (s.iteration + 1)) s) 0 fact) (upTo : Nat) (fact : Fact) :
    Knows (fullIteration d u (departureOf d (u.iteration + 1))) upTo fact ↔
      Knows (fullIteration c s (departureOf c (s.iteration + 1))) upTo fact := by
  have left := isRound_runAccess reached.1 more
  have right := isRound_runAccess reached.2
    (by rw [h.departureTimes_eq, iteration_eq]; exact more)
  have number : u.nextIteration.iteration = s.nextIteration.iteration :=
    congrArg (· + 1) iteration_eq
  have alike := alike_of_isRound h.standard left right number
    (fun upTo fact => by rw [knows_nextIteration, knows_nextIteration, before]) start
  have numberLeft : (runAccess c (departureOf c (s.iteration + 1)) s).iteration = s.iteration + 1 :=
    left.moves.iteration_eq
  have numberRight : (runAccess d (departureOf d (u.iteration + 1)) u).iteration =
      u.iteration + 1 := right.moves.iteration_eq
  simp only [fullIteration_eq, h.maxBoardings_eq]
  split
  · have same {e : Context} (latest : SearchTime) (w : SearchState) :
        Knows (arriveOnFoot e latest w) upTo fact ↔ Knows w upTo fact :=
      knows_congr fun i _ => labelsAt_congr ((sameButArrived_arriveOnFoot latest w).round_eq i)
    rw [same, same, alike.knows]
  · have rounds := alike.knows_allRounds h c.query.maxBoardings 0
      ⟨left.reached.moves left.moves, right.reached.moves right.moves⟩
      ⟨left.fresh.moves left.moves (Nat.le_refl _), right.fresh.moves right.moves (Nat.le_refl _)⟩
      (by omega) upTo fact
    rw [numberLeft, numberRight] at rounds
    exact rounds

theorem Reordered.knows_stateAfter (h : Reordered c d) (start : StartAlike c d) {count : Nat}
    (within : count ≤ c.query.departureTimes.length) (upTo : Nat) (fact : Fact) :
    Knows (stateAfter d count) upTo fact ↔ Knows (stateAfter c count) upTo fact := by
  induction count generalizing upTo fact with
  | zero =>
      have nothing (nbOfStops last upTo : Nat) :
          ¬Knows (SearchState.initial nbOfStops last) upTo fact := by
        rintro ⟨i, -, label, member, -⟩
        simp [labelsAt, SearchState.initial_fronts] at member
      exact iff_of_false (nothing _ _ _) (nothing _ _ _)
  | succ count ih =>
      have within' : count + 1 ≤ d.query.departureTimes.length := by
        rw [h.departureTimes_eq]
        exact within
      have before := ih (by omega)
      have left := (stateAfter_spec (show count ≤ c.query.departureTimes.length by omega)).2
      have right := (stateAfter_spec (show count ≤ d.query.departureTimes.length by omega)).2
      have next := h.knows_fullIteration (s := stateAfter c count) (u := stateAfter d count)
        ⟨reached_stateAfter (by omega), reached_stateAfter (by omega)⟩ (by rw [left, right])
        (by rw [left]; omega) before
        (by rw [left, right]; exact start count within (before 0)) upTo fact
      rw [left, right] at next
      rw [stateAfter_succ within, stateAfter_succ within']
      exact next

end JourneyPlanner.Search
