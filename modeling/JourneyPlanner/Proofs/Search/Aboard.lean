import JourneyPlanner.Proofs.Search.Waiting

/-!
The trips that somebody is on while a line is ridden. In the standard profile they follow from when
people wait at its stops: who they are, and what they have paid, makes no difference. So a ride adds
the arrivals of these trips, whatever is known in the fronts.
-/

namespace JourneyPlanner

namespace Front

variable {α β C D : Type} {le : C → C → Bool} {le' : D → D → Bool} {f : α → β} {g : C → D}

theorem map_ofCandidates (same : ∀ a b, le' (g a) (g b) = le a b) (candidates : List (α × C)) :
    (ofCandidates le candidates).map (Prod.map f g) =
      ofCandidates le' (candidates.map (Prod.map f g)) := by
  have covers (front : Front α C) (criteria : C) :
      covers le' (front.map (Prod.map f g)) (g criteria) = covers le front criteria := by
    simp [Front.covers, List.any_map, Function.comp_def, same]
  have prune (front : Front α C) (criteria : C) :
      Front.prune le' (front.map (Prod.map f g)) (g criteria) =
        (Front.prune le front criteria).map (Prod.map f g) := by
    simp [Front.prune, List.filter_map, Function.comp_def, same]
  have add (front : Front α C) (candidate : α × C) :
      Front.add le' (front.map (Prod.map f g)) (f candidate.1) (g candidate.2) =
        (Front.add le front candidate.1 candidate.2).map (Prod.map f g) := by
    simp only [Front.add, covers, pruneAndPush, prune]
    split
    · rfl
    · simp only [push, List.map_append, List.map_cons, List.map_nil]
      rfl
  rw [ofCandidates, ofCandidates, List.foldl_map]
  exact (List.foldl_hom (List.map (Prod.map f g)) add).symm

end Front

namespace Search

/-- The trips boarded at a position by those who wait at its stop after a round. -/
def boardedTrips (c : Context) (round : Nat) (waiting : StopIndex → List SearchTime) (line : Line)
    (position : Nat) : List TripOnDay :=
  (waiting (line.stopAt position)).filterMap fun arrival =>
    (line.earliestTrip (c.query.readyTime ⟨arrival, round, .zero⟩) position).map (·.1)

/-- The trips that somebody is on after a position. -/
def carryTrips (line : Line) (position : Nat) (boarded onboard : List TripOnDay) : List TripOnDay :=
  if line.pattern.fifo then
    (Front.ofCandidates (fun a b : SearchTime => decide (a ≤ b))
      ((boarded ++ onboard).map fun trip => (trip, line.debarkTime trip (position + 1)))).map (·.1)
  else boarded ++ onboard

/-- The trips that somebody is on before a position, when these trips are boarded at each one. -/
def aboard (line : Line) (boarded : Nat → List TripOnDay) : Nat → List TripOnDay
  | 0 => []
  | position + 1 => carryTrips line position (boarded position) (aboard line boarded position)

/-- What follows from getting off some trips at a position, if it is not too late. -/
def FollowsFromTrips (line : Line) (latest : SearchTime) (position : Nat) (trips : List TripOnDay)
    (fact : Fact) : Prop :=
  ∃ trip ∈ trips, line.debarkTime trip position ≤ latest ∧
    Fact.FollowsFrom ⟨line.stopAt position, line.debarkTime trip position, true⟩ fact

theorem carryTrips_nil (line : Line) (position : Nat) : carryTrips line position [] [] = [] := by
  simp only [carryTrips]
  split <;> rfl

theorem exists_boarded_of_mem_aboard {line : Line} {boarded : Nat → List TripOnDay} {position : Nat}
    {trip : TripOnDay} (member : trip ∈ aboard line boarded position) :
    ∃ first < position, boarded first ≠ [] := by
  induction position generalizing trip with
  | zero => cases member
  | succ position ih =>
      cases before : aboard line boarded position with
      | nil =>
          refine ⟨position, Nat.lt_succ_self _, fun none => ?_⟩
          rw [aboard, none, before, carryTrips_nil] at member
          cases member
      | cons other rest =>
          obtain ⟨first, less, some⟩ := ih (before ▸ List.mem_cons_self)
          exact ⟨first, Nat.lt_succ_of_lt less, some⟩

theorem aboard_eq_nil {line : Line} {boarded : Nat → List TripOnDay} {position : Nat}
    (none : ∀ first < position, boarded first = []) : aboard line boarded position = [] := by
  refine List.eq_nil_iff_forall_not_mem.2 fun trip member => ?_
  obtain ⟨first, less, some⟩ := exists_boarded_of_mem_aboard member
  exact some (none first less)

variable {c : Context} {s t : SearchState} {round : Nat} {latest : SearchTime}

theorem trip_board (line : Line) (position : Nat) (tree : JourneyTree)
    (label : NodeIndex × Criteria) :
    (board c line position tree label).map (·.trip) =
      (line.earliestTrip (c.query.readyTime label.2) position).map (·.1) := by
  simp only [board]
  cases line.earliestTrip (c.query.readyTime label.2) position <;> rfl

theorem trips_boarding (h : Consistent c s) (line : Line) (position : Nat) :
    ((currentLabels s round (line.stopAt position)).filterMap
        (board c line position s.tree)).map (·.trip) =
      boardedTrips c round (fun stop => arrivalsAt s round stop false) line position := by
  have waiting : arrivalsAt s round (line.stopAt position) false =
      (currentLabels s round (line.stopAt position)).map (·.2.arrival) := rfl
  rw [boardedTrips, waiting, List.map_filterMap, List.filterMap_map]
  refine List.filterMap_congr fun label member => ?_
  have isLabel := h.labels _ _ _ (List.mem_filter.1 member).1
  rw [trip_board, Function.comp_apply, Query.readyTime, Query.readyTime, isLabel.trips]

theorem trips_carry (h : Consistent c s) (standard : c.profile = .standard) (line : Line)
    (position : Nat) (onboard : Front Onboard Criteria) :
    (carry c round line position s onboard).map (·.1.trip) =
      carryTrips line position
        (boardedTrips c (round - 1) (fun stop => arrivalsAt s (round - 1) stop false) line position)
        (onboard.map (·.1.trip)) := by
  let criteria (o : Onboard) : Criteria := o.criteriaAt line (position + 1) c.query.costs
  let riders := (currentLabels s (round - 1) (line.stopAt position)).filterMap
    (board c line position s.tree) ++ onboard.map (·.1)
  have trips : riders.map (·.trip) =
      boardedTrips c (round - 1) (fun stop => arrivalsAt s (round - 1) stop false) line position ++
        onboard.map (·.1.trip) := by
    rw [List.map_append, trips_boarding h, List.map_map]
    rfl
  rw [carryTrips, ← trips, carry]
  split
  · have compared (a b : Criteria) :
        decide (a.arrival ≤ b.arrival) = c.profile.atLeastAsGood a b := by
      rw [standard]
      rfl
    let candidates : Front Onboard Criteria := riders.map fun o => (o, criteria o)
    have kept : (Front.ofCandidates c.profile.atLeastAsGood candidates).map
          (Prod.map Onboard.trip Criteria.arrival) =
        Front.ofCandidates (fun a b : SearchTime => decide (a ≤ b))
          (candidates.map (Prod.map Onboard.trip Criteria.arrival)) :=
      Front.map_ofCandidates compared _
    have left : candidates.map (Prod.map Onboard.trip Criteria.arrival) =
        (riders.map (·.trip)).map fun trip => (trip, line.debarkTime trip (position + 1)) := by
      rw [List.map_map, List.map_map]
      rfl
    rw [← left, ← kept, List.map_map]
    rfl
  · rw [List.map_map]
    rfl

theorem adds_debark (h : Reached c s) (standard : c.profile = .standard)
    (allowed : round ≤ c.query.maxBoardings) (line : LineIndex) (position : Nat) {stop : StopIndex}
    (known : stop < c.timetable.nbOfStops) (o : Onboard × Criteria) :
    Adds round s (debark c latest round line position stop s o) fun fact =>
      o.2.arrival ≤ latest ∧ Fact.FollowsFrom ⟨stop, o.2.arrival, true⟩ fact := by
  rw [debark_eq]
  split
  · next late => exact .of_known fun fact follows => absurd follows.1 (Int.not_le.2 late)
  · next inTime =>
      split
      · next covered =>
          have here := (knows_iff_isCoveredByTransit standard).2 covered
          exact .of_known fun fact follows => h.knows_of_followsFrom standard here follows.2
      · rw [standard]
        have adds := adds_alight h.consistent.sized allowed ⟨stop, o.2, o.1.departure, s.iteration,
          .ride o.1.parent line o.1.trip o.1.boardPosition o.1.boardTime position⟩ known
        refine (adds.of_round_eq fun i => round_finish ..).congr fun fact => ?_
        exact and_iff_right (Int.not_lt.1 inTime)

theorem adds_visit (h : Reached c s) (standard : c.profile = .standard)
    (allowed : round ≤ c.query.maxBoardings) (regular : c.timetable.IsRegular) {line : LineIndex}
    {position : Nat} {onboard : Front Onboard Criteria}
    (ready : Ready c round line position s onboard)
    (inside : position < (c.timetable.line line).nbOfPositions) :
    Adds round s (visit c (latestOf c s.iteration) round line (onboard, s) position).2
      (FollowsFromTrips (c.timetable.line line) (latestOf c s.iteration) position
        (onboard.map (·.1.trip))) := by
  have known := regular.stopAt_lt line (Timetable.lt_nbOfLines inside) position inside
  obtain ⟨-, adds⟩ := Adds.foldl (P := Moves c round round s)
    (f := debark c (latestOf c s.iteration) round line position
      ((c.timetable.line line).stopAt position)) (l := onboard) .refl fun o member t moves =>
        ⟨moves.trans (ready.debark_moves allowed inside member moves),
          adds_debark (h.moves moves) standard allowed line position known o⟩
  have after : (visit c (latestOf c s.iteration) round line (onboard, s) position).2 =
      onboard.foldl (debark c (latestOf c s.iteration) round line position
        ((c.timetable.line line).stopAt position)) s := by
    simp only [visit]
    split <;> rfl
  rw [after]
  refine adds.congr fun fact => ?_
  simp only [FollowsFromTrips, List.mem_map, exists_exists_and_eq_and]
  refine exists_congr fun o => and_congr_right fun member => ?_
  rw [(ready o member).2.1]
  rfl

theorem adds_visits (standard : c.profile = .standard) (positive : 0 < round)
    (allowed : round ≤ c.query.maxBoardings) (regular : c.timetable.IsRegular) (line : LineIndex)
    {waiting : StopIndex → List SearchTime} (count first : Nat) {onboard : Front Onboard Criteria}
    (h : Reached c s) (waits : ∀ stop, arrivalsAt s (round - 1) stop false = waiting stop)
    (ready : Ready c round line first s onboard)
    (inside : first + count ≤ (c.timetable.line line).nbOfPositions)
    (trips : 0 < count → onboard.map (·.1.trip) = aboard (c.timetable.line line)
      (boardedTrips c (round - 1) waiting (c.timetable.line line)) first) :
    Adds round s ((List.range' first count).foldl (visit c (latestOf c s.iteration) round line)
      (onboard, s)).2 fun fact => ∃ position, (first ≤ position ∧ position < first + count) ∧
        FollowsFromTrips (c.timetable.line line) (latestOf c s.iteration) position
          (aboard (c.timetable.line line)
            (boardedTrips c (round - 1) waiting (c.timetable.line line)) position) fact := by
  induction count generalizing first s onboard with
  | zero =>
      refine .of_known fun fact none => ?_
      obtain ⟨position, bounds, -⟩ := none
      omega
  | succ count ih =>
      rw [List.range'_succ, List.foldl_cons]
      have here := adds_visit h standard allowed regular ready (by omega)
      obtain ⟨moves, next⟩ := visit_moves h.consistent positive allowed ready (by omega)
      have waitsNow (stop : StopIndex) :
          arrivalsAt (visit c (latestOf c s.iteration) round line (onboard, s) first).2 (round - 1)
            stop false = arrivalsAt s (round - 1) stop false :=
        arrivalsAt_of_moves h.consistent moves (Nat.sub_lt positive Nat.one_pos)
      have carried : 0 < count →
          (visit c (latestOf c s.iteration) round line (onboard, s) first).1.map (·.1.trip) =
            aboard (c.timetable.line line)
              (boardedTrips c (round - 1) waiting (c.timetable.line line)) (first + 1) := by
        intro more
        have goesOn : first + 1 ≠ (c.timetable.line line).nbOfPositions := by omega
        simp only [visit, if_neg goesOn] at waitsNow moves ⊢
        rw [trips_carry (h.consistent.moves moves) standard, trips (Nat.succ_pos _), aboard]
        simp only [waitsNow, waits]
      have rest := ih (first + 1) (h.moves moves) (fun stop => (waitsNow stop).trans (waits stop))
        next (by omega) carried
      rw [moves.iteration_eq] at rest
      rw [trips (Nat.succ_pos _)] at here
      refine (here.trans rest).congr fun fact => ?_
      constructor
      · rintro ⟨position, ⟨le, less⟩, follows⟩
        by_cases same : position = first
        · subst same
          exact .inl follows
        · exact .inr ⟨position, ⟨by omega, by omega⟩, follows⟩
      · rintro (follows | ⟨position, ⟨le, less⟩, follows⟩)
        · exact ⟨first, ⟨Nat.le_refl _, by omega⟩, follows⟩
        · exact ⟨position, ⟨by omega, by omega⟩, follows⟩

theorem adds_ride (h : Reached c s) (standard : c.profile = .standard) (positive : 0 < round)
    (allowed : round ≤ c.query.maxBoardings) (regular : c.timetable.IsRegular)
    {waiting : StopIndex → List SearchTime}
    (waits : ∀ stop, arrivalsAt s (round - 1) stop false = waiting stop) (entry : LineIndex × Nat)
    (nobody : entry.2 < (c.timetable.line entry.1).nbOfPositions → ∀ position < entry.2,
      boardedTrips c (round - 1) waiting (c.timetable.line entry.1) position = []) :
    Adds round s (ride c (latestOf c s.iteration) round s entry) fun fact =>
      ∃ position, (entry.2 ≤ position ∧ position < (c.timetable.line entry.1).nbOfPositions) ∧
        FollowsFromTrips (c.timetable.line entry.1) (latestOf c s.iteration) position
          (aboard (c.timetable.line entry.1)
            (boardedTrips c (round - 1) waiting (c.timetable.line entry.1)) position) fact := by
  let counted : SearchState := { s with nbOfScans := s.nbOfScans + 1 }
  have counts : Moves c round round s counted := (Move.count s.lastRound _).moves
  have waitsNow (stop : StopIndex) : arrivalsAt counted (round - 1) stop false = waiting stop :=
    waits stop
  have same : Adds round s counted fun _ => False :=
    (Adds.of_known (s := s) fun _ none => none.elim).of_round_eq fun _ => rfl
  have empty : Ready c round entry.1 entry.2 counted [] :=
    fun _ member => absurd member List.not_mem_nil
  by_cases inside : entry.2 < (c.timetable.line entry.1).nbOfPositions
  · have trips : aboard (c.timetable.line entry.1)
        (boardedTrips c (round - 1) waiting (c.timetable.line entry.1)) entry.2 = [] :=
      aboard_eq_nil (nobody inside)
    have adds := adds_visits standard positive allowed regular entry.1
      ((c.timetable.line entry.1).nbOfPositions - entry.2) entry.2 (h.moves counts) waitsNow empty
      (by omega) fun _ => trips.symm
    rw [Nat.add_sub_cancel' (Nat.le_of_lt inside)] at adds
    exact (same.trans adds).congr fun fact => by rw [false_or]
  · have none : (c.timetable.line entry.1).nbOfPositions - entry.2 = 0 := by omega
    simp only [ride, none, List.range'_zero, List.foldl_nil]
    refine same.congr fun fact => iff_of_false ?_ id
    rintro ⟨position, bounds, -⟩
    omega

end Search

end JourneyPlanner
