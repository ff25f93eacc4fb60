import JourneyPlanner.Proofs.Search.RoundClosure

/-!
Rides on lines where no trip is found to overtake another one. There the search keeps on board only
the best ones at the next position, and forgets who is no better than somebody else there. So a later
stop is covered unless somebody who was forgotten would have overtaken, on the way there, one of
those who were kept. That does happen, after a stay at a stop that two trips reach together.
-/

namespace JourneyPlanner

namespace Line

/-- The trips on all the days of a line. -/
def trips (l : Line) : List TripOnDay :=
  (List.range l.days.size).flatMap fun day =>
    (l.day day).schedules.toList.map fun schedule => ⟨day, schedule⟩

theorem Boards.mem_trips {l : Line} {waiting : SearchTime} {position : Nat} {trip : TripOnDay}
    (h : l.Boards waiting position trip) : trip ∈ l.trips := by
  refine List.mem_flatMap.2 ⟨trip.day, List.mem_range.2 h.day_lt, ?_⟩
  exact List.mem_map.2 ⟨trip.schedule, by simpa using h.runs, rfl⟩

/-- A trip that arrives no later than another one at a position does so at the next one too, also
after a tie and on different days. -/
def KeepsOrder (l : Line) : Prop :=
  ∀ a ∈ l.trips, ∀ b ∈ l.trips, ∀ position < l.nbOfPositions - 1,
    l.debarkTime a position ≤ l.debarkTime b position →
      l.debarkTime a (position + 1) ≤ l.debarkTime b (position + 1)

instance (l : Line) : Decidable l.KeepsOrder :=
  inferInstanceAs (Decidable (∀ a ∈ l.trips, ∀ b ∈ l.trips, ∀ position < l.nbOfPositions - 1,
    l.debarkTime a position ≤ l.debarkTime b position →
      l.debarkTime a (position + 1) ≤ l.debarkTime b (position + 1)))

end Line

namespace Search

variable {c : Context} {round : Nat} {s : SearchState}

/-- Every ride that a label of the round before can make, on a line where no trip is found to
overtake another one, is covered at each stop where it arrives in time. -/
def FifoClosed (c : Context) (round : Nat) (s : SearchState) : Prop :=
  ∀ line < c.timetable.nbOfLines, (c.timetable.line line).pattern.fifo = true → ∀ position,
    position + 1 < (c.timetable.line line).nbOfPositions →
      ∀ label o, CanBoard c round line position s label o →
        ∀ later, position < later → later < (c.timetable.line line).nbOfPositions →
          (criteriaOn c line o later).arrival ≤ latestOf c s.iteration →
            s.isCoveredByTransit c.profile ((c.timetable.line line).stopAt later) round
              (criteriaOn c line o later) = true

theorem mem_trips_of_board {line : Line} {position : Nat} {tree : JourneyTree}
    {label : NodeIndex × Criteria} {o : Onboard}
    (boarded : board c line position tree label = some o) : o.trip ∈ line.trips := by
  obtain ⟨trip, time, earliest, boarding⟩ := board_eq_some boarded
  obtain ⟨boards, -⟩ := Line.earliestTrip_spec earliest
  rw [boarding]
  exact boards.mem_trips

theorem not_overtakes_of_keepsOrder (standard : c.profile = .standard) {line : LineIndex}
    (ordered : (c.timetable.line line).KeepsOrder) {o : Onboard}
    (runs : o.trip ∈ (c.timetable.line line).trips) {later : Nat}
    (inside : later < (c.timetable.line line).nbOfPositions) :
    ¬Overtakes c round line s o later := by
  rintro ⟨-, position, other, isOnboard, -, -, less, better, worse⟩
  rw [standard] at better worse
  have next := ordered other.trip (mem_trips_of_board isOnboard.boarded) o.trip runs position
    (by omega) (of_decide_eq_true better)
  exact of_decide_eq_false worse next

theorem CoveredOrOvertaking.fifoClosed (h : CoveredOrOvertaking c round s)
    (standard : c.profile = .standard)
    (ordered : ∀ line < c.timetable.nbOfLines, (c.timetable.line line).pattern.fifo = true →
      (c.timetable.line line).KeepsOrder) : FifoClosed c round s := by
  intro line known fifo position notLast label o able later ahead inside inTime
  refine (h line known position notLast label o able later ahead inside inTime).resolve_right ?_
  exact not_overtakes_of_keepsOrder standard (ordered line known fifo)
    (mem_trips_of_board able.boarded) inside

/-- At the end of every iteration each ride that a label of the round before can make is covered
where it arrives, or overtakes somebody on the way there. So in the standard profile nothing is
forgotten where all lines keep their order. -/
theorem rides_covered_or_overtaking {network : Network} {layer : Layer} {date : Date}
    {dayRange : Nat} {filters : PatternFilters} {speed : Float}
    (built : Layer.build network = .ok layer)
    (made : Timetable.build layer date dayRange filters speed = .ok c.timetable) {count : Nat}
    (inRange : count < c.query.departureTimes.length) (positive : 1 ≤ round)
    (allowed : round ≤ c.query.maxBoardings) :
    (stateAfter c (count + 1)).iteration = count + 1 ∧
      CoveredOrOvertaking c round (stateAfter c (count + 1)) ∧
        (c.profile = .standard →
          (∀ line < c.timetable.nbOfLines, (c.timetable.line line).pattern.fifo = true →
            (c.timetable.line line).KeepsOrder) →
              FifoClosed c round (stateAfter c (count + 1))) := by
  have regular := (Timetable.build_spec made).2.isRegular (Layer.isCompiled_build built)
  obtain ⟨consistent, number⟩ := stateAfter_spec (c := c) (Nat.le_of_lt inRange)
  have closed := fullIteration_covers consistent regular positive allowed
  rw [number, ← stateAfter_succ inRange] at closed
  exact ⟨(stateAfter_spec (c := c) inRange).2, closed.1, closed.1.fifoClosed⟩

end Search

namespace Network

/-- Two trips reach the third stop together. The first one goes on at once; the other one stays
there and never gets ahead. -/
def layover : Network where
  stops := #[⟨"a", "A", ⟨0, 0⟩⟩, ⟨"b", "B", ⟨0, 0⟩⟩, ⟨"c", "C", ⟨0, 0⟩⟩, ⟨"d", "D", ⟨0, 0⟩⟩]
  routes := #[⟨"r", "R", .bus, none⟩]
  services := #[⟨"s", [⟨100⟩]⟩]
  patterns := #[⟨"p", "r", ["a", "b", "c", "d"],
    [⟨"early", "s", none, none,
        [⟨30000, 30000⟩, ⟨30300, 30300⟩, ⟨30900, 30900⟩, ⟨31200, 31200⟩]⟩,
      ⟨"late", "s", none, none,
        [⟨30060, 30060⟩, ⟨30360, 30360⟩, ⟨30900, 33000⟩, ⟨33300, 33300⟩]⟩]⟩]
  connections := #[]

def layoverSchedules : List Schedule :=
  layover.patterns[0].trips.filterMap fun trip => (Layer.Build.schedule layover 4 trip).toOption

def layoverLine : TripPattern where
  id := "p"
  sourceId := "p"
  routeId := "r"
  routeName := "R"
  mode := .bus
  submode := none
  stops := #[0, 1, 2, 3]
  schedules := layoverSchedules.toArray
  fifo := Layer.Build.isFifo 4 layoverSchedules

theorem patterns_layover : Layer.Build.patterns layover = .ok [layoverLine] := by
  have some : layoverSchedules ≠ [] := by decide +kernel
  have sorted : layoverSchedules.Pairwise fun a b => Layer.Build.scheduleLe a b = true := by
    decide +kernel
  have made : Layer.Build.pattern layover layover.patterns[0] = .ok (Layer.Build.split
      layover.patterns[0] layover.routes[0] [0, 1, 2, 3]
        (layoverSchedules.map fun schedule => (⟨.bus, none⟩, schedule))) := by
    with_unfolding_all rfl
  have all : layover.patterns.toList = [layover.patterns[0]] := rfl
  rw [Layer.Build.split_of_sorted some sorted] at made
  simp only [Layer.Build.patterns, all, List.mapM_cons, List.mapM_nil, made]
  rfl

end Network

namespace Search

/-- The first trip can be boarded at the first stop, the other one only at the second stop. -/
def layoverQuery : Query where
  access := .ofLegs 4 [⟨0, .zero, 0, some .zero, none⟩, ⟨1, .ofSeconds 310, 0, some .zero, none⟩]
  egress := .ofLegs 4 [⟨3, .zero, 0, some .zero, none⟩]
  earliestDeparture := ⟨30000⟩
  window := .ofHms 0 1 0
  step := .ofHms 0 1 0
  maxBoardings := 1
  maxDuration := .ofHms 24 0 0
  minTransferTime := .ofHms 0 1 0
  costs := {}

theorem exists_forgotten_layover : ∃ layer t label o, Layer.build .layover = .ok layer ∧
    Timetable.build layer ⟨100⟩ 3 {} 1 = .ok t ∧
      let c : Context := ⟨t, .standard, layoverQuery⟩
      let s := stateAfter c 1
      0 < c.timetable.nbOfLines ∧ (c.timetable.line 0).pattern.fifo = true ∧
        (c.timetable.line 0).nbOfPositions = 4 ∧ CanBoard c 1 0 0 s label o ∧
          (criteriaOn c 0 o 3).arrival ≤ latestOf c s.iteration ∧
            s.isCoveredByTransit c.profile ((c.timetable.line 0).stopAt 3) 1
              (criteriaOn c 0 o 3) = false := by
  have found : (Layer.build .layover).toOption.any (fun layer =>
      (Timetable.build layer ⟨100⟩ 3 {} 1).toOption.any fun t =>
        let c : Context := ⟨t, .standard, layoverQuery⟩
        let s := stateAfter c 1
        decide (0 < c.timetable.nbOfLines) && (c.timetable.line 0).pattern.fifo &&
          (c.timetable.line 0).nbOfPositions == 4 &&
            ((s.round 0).front ((c.timetable.line 0).stopAt 0)).any fun label =>
              s.tree.iteration label.1 == s.iteration &&
                (board c (c.timetable.line 0) 0 s.tree label).any fun o =>
                  decide ((criteriaOn c 0 o 3).arrival ≤ latestOf c s.iteration) &&
                    !s.isCoveredByTransit c.profile ((c.timetable.line 0).stopAt 3) 1
                      (criteriaOn c 0 o 3)) = true := by
    rw [Layer.build, Network.patterns_layover]
    decide +kernel
  obtain ⟨layer, built, found⟩ := exists_ok_of_any found
  obtain ⟨t, made, found⟩ := exists_ok_of_any found
  simp only [Bool.and_eq_true, decide_eq_true_eq, beq_iff_eq, List.any_eq_true, Option.any_eq_true,
    Bool.not_eq_true'] at found
  obtain ⟨⟨⟨known, fifo⟩, positions⟩, label, inFront, current, o, boarded, inTime, uncovered⟩ := found
  exact ⟨layer, t, label, o, built, made, known, fifo, positions, ⟨inFront, current, boarded⟩,
    inTime, uncovered⟩

theorem rides_covered_or_overtaking_layover :
    (∃ layer t o, Layer.build .layover = .ok layer ∧ Timetable.build layer ⟨100⟩ 3 {} 1 = .ok t ∧
      let c : Context := ⟨t, .standard, layoverQuery⟩
      CoveredOrOvertaking c 1 (stateAfter c 1) ∧ Overtakes c 1 0 (stateAfter c 1) o 3) ∧
    ∃ layer t, Layer.build .crossing = .ok layer ∧ Timetable.build layer ⟨100⟩ 3 {} 1 = .ok t ∧
      let c : Context := ⟨t, .standard, crossingQuery⟩
      (t.line 1).pattern.fifo = true ∧ (∃ label o, CanBoard c 1 1 0 (stateAfter c 1) label o) ∧
        FifoClosed c 1 (stateAfter c 1) := by
  refine ⟨?_, ?_⟩
  · obtain ⟨layer, t, label, o, built, made, known, -, positions, able, inTime, uncovered⟩ :=
      exists_forgotten_layover
    have inRange : 0 < layoverQuery.departureTimes.length := by decide
    have allowed : 1 ≤ layoverQuery.maxBoardings := by decide
    obtain ⟨-, covered, -⟩ := rides_covered_or_overtaking (c := ⟨t, .standard, layoverQuery⟩) built
      made inRange (Nat.le_refl 1) allowed
    refine ⟨layer, t, o, built, made, covered, ?_⟩
    refine (covered 0 known 0 (by omega) label o able 3 (by omega) (by omega) inTime).resolve_left ?_
    exact Bool.eq_false_iff.1 uncovered
  · have found : (Layer.build .crossing).toOption.any (fun layer =>
        (Timetable.build layer ⟨100⟩ 3 {} 1).toOption.any fun t =>
          let s := stateAfter ⟨t, .standard, crossingQuery⟩ 1
          decide ((t.line 1).pattern.fifo = true ∧ ∀ line < t.nbOfLines,
            (t.line line).pattern.fifo = true → (t.line line).KeepsOrder) &&
              ((s.round 0).front ((t.line 1).stopAt 0)).any fun label =>
                s.tree.iteration label.1 == s.iteration &&
                  (board ⟨t, .standard, crossingQuery⟩ (t.line 1) 0 s.tree label).isSome) = true := by
      rw [Layer.build, Network.patterns_crossing]
      decide +kernel
    obtain ⟨layer, built, found⟩ := exists_ok_of_any found
    obtain ⟨t, made, found⟩ := exists_ok_of_any found
    simp only [Bool.and_eq_true, decide_eq_true_eq, List.any_eq_true, beq_iff_eq,
      Option.isSome_iff_exists] at found
    obtain ⟨⟨fifo, ordered⟩, label, inFront, current, o, boarded⟩ := found
    have inRange : 0 < crossingQuery.departureTimes.length := by decide
    have allowed : 1 ≤ crossingQuery.maxBoardings := by decide
    obtain ⟨-, -, closed⟩ := rides_covered_or_overtaking (c := ⟨t, .standard, crossingQuery⟩) built
      made inRange (Nat.le_refl 1) allowed
    exact ⟨layer, t, built, made, fifo, ⟨label, o, inFront, current, boarded⟩, closed rfl ordered⟩

/-- So a ride on a line where no trip is found to overtake another one can be forgotten. -/
theorem not_fifoClosed_layover : ∃ layer t, Layer.build .layover = .ok layer ∧
    Timetable.build layer ⟨100⟩ 3 {} 1 = .ok t ∧
      ¬FifoClosed ⟨t, .standard, layoverQuery⟩ 1 (stateAfter ⟨t, .standard, layoverQuery⟩ 1) := by
  obtain ⟨layer, t, label, o, built, made, known, fifo, positions, able, inTime, uncovered⟩ :=
    exists_forgotten_layover
  refine ⟨layer, t, built, made, fun closed => ?_⟩
  have covered := closed 0 known fifo 0 (by omega) label o able 3 (by omega) (by omega) inTime
  exact Bool.eq_false_iff.1 uncovered covered

end Search

end JourneyPlanner
