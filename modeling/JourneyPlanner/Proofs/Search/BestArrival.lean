import JourneyPlanner.Proofs.Search.Fronts
import JourneyPlanner.Proofs.Search.RoundClosure
import JourneyPlanner.Proofs.Timetable.Earliest

/-!
What waiting for a later vehicle could bring. A label boards the first trip to leave only, so at each
stop of a line where trips overtake each other the best arrival by vehicle is at most that of the first
trip, and any other trip that gets there sooner has overtaken the first one on the way. Such trips are
hidden from the search: it finds them only for a departure time of the range from which they are the
first ones to leave.
-/

namespace JourneyPlanner

namespace Search

variable {c : Context} {round : Nat} {s : SearchState}

/-- A trip that a label of the round before, from the same departure time, is in time for at a
position of a line. -/
structure CanTake (c : Context) (round : Nat) (line : LineIndex) (position : Nat) (s : SearchState)
    (label : NodeIndex × Criteria) (trip : TripOnDay) : Prop where
  within : position < (c.timetable.line line).nbOfPositions
  inFront : label ∈ (s.round (round - 1)).front ((c.timetable.line line).stopAt position)
  current : s.tree.iteration label.1 = s.iteration
  runs : (c.timetable.line line).Runs trip
  notGone : c.query.readyTime label.2 ≤ (c.timetable.line line).boardTime trip position

/-- The best arrival by vehicle at a stop, with as many vehicles as a round has or fewer, is no later
than a given time. -/
def IsReachedBy (s : SearchState) (stop : StopIndex) (round : Nat) (time : SearchTime) : Prop :=
  ∃ best ≤ time, s.bestTransitArrival? stop round = some best

/-- On the lines where trips overtake each other, every stop of every trip that a label of the round
before is in time for is reached as early as that trip reaches it. -/
def NoneHidden (c : Context) (round : Nat) (s : SearchState) : Prop :=
  ∀ line < c.timetable.nbOfLines, (c.timetable.line line).pattern.fifo = false →
    ∀ position label trip, CanTake c round line position s label trip →
      ∀ later, position < later → later < (c.timetable.line line).nbOfPositions →
        (c.timetable.line line).debarkTime trip later ≤ latestOf c s.iteration →
          IsReachedBy s ((c.timetable.line line).stopAt later) round
            ((c.timetable.line line).debarkTime trip later)

/-- Each stop of the first trip to leave is reached as early as that trip reaches it, and so is each
stop of any other trip that a label is in time for, unless it gets there before the first one. -/
def HiddenOnlyByOvertaking (c : Context) (round : Nat) (s : SearchState) : Prop :=
  ∀ line < c.timetable.nbOfLines, (c.timetable.line line).pattern.fifo = false →
    ∀ position label trip, CanTake c round line position s label trip →
      ∃ first, (c.timetable.line line).IsEarliest (c.query.readyTime label.2) position first ∧
        ∀ later, position < later → later < (c.timetable.line line).nbOfPositions →
          ((c.timetable.line line).debarkTime first later ≤ latestOf c s.iteration →
            IsReachedBy s ((c.timetable.line line).stopAt later) round
              ((c.timetable.line line).debarkTime first later)) ∧
          ((c.timetable.line line).debarkTime trip later ≤ latestOf c s.iteration →
            IsReachedBy s ((c.timetable.line line).stopAt later) round
                ((c.timetable.line line).debarkTime trip later) ∨
              (c.timetable.line line).debarkTime trip later <
                (c.timetable.line line).debarkTime first later)

theorem isReachedBy_of_isCoveredByTransit {p : Profile} {stop : StopIndex} {criteria : Criteria}
    (covered : s.isCoveredByTransit p stop round criteria = true) :
    IsReachedBy s stop round criteria.arrival := by
  obtain ⟨i, within, here⟩ := SearchState.isCoveredByTransit_iff.1 covered
  obtain ⟨label, inFront, better⟩ := Front.covers_iff.1 here
  have known : earliest? [criteria.arrival] = some criteria.arrival := rfl
  refine earliest?_le (fun time member => ?_) known
  obtain rfl := List.mem_singleton.1 member
  exact ⟨label.2.arrival, List.mem_flatMap.2 ⟨i, List.mem_range.2 (Nat.lt_succ_of_le within),
    List.mem_map_of_mem inFront⟩, Profile.arrival_le_of_atLeastAsGood better⟩

theorem CanTake.exists_first {line : LineIndex} {position : Nat} {label : NodeIndex × Criteria}
    {trip : TripOnDay} (h : CanTake c round line position s label trip) {network : Network}
    {date : Date} {dayRange : Nat} (exactly : (c.timetable.line line).IsExact network date dayRange)
    (most : dayRange ≤ maxDayRange) (ordered : (c.timetable.line line).pattern.IsOrdered) :
    ∃ o, board c (c.timetable.line line) position s.tree label = some o ∧
      (c.timetable.line line).IsEarliest (c.query.readyTime label.2) position o.trip := by
  cases boarded : board c (c.timetable.line line) position s.tree label with
  | some o =>
      obtain ⟨first, time, found, rfl⟩ := board_eq_some boarded
      exact ⟨_, rfl, (exactly.isEarliest most ordered h.within found).1⟩
  | none =>
      cases found : (c.timetable.line line).earliestTrip (c.query.readyTime label.2) position with
      | none =>
          have gone := (exactly.earliestTrip_eq_none most ordered h.within).1 found
          exact absurd h.notGone (gone trip h.runs)
      | some entry =>
          rw [board, found] at boarded
          cases boarded

/-- At the end of every iteration each stop of the first trip to leave is reached as early as that
trip reaches it, and so is each stop of any other trip, unless it gets there before the first one. -/
theorem hidden_only_by_overtaking {network : Network} {layer : Layer} {date : Date}
    {dayRange : Nat} {filters : PatternFilters} {speed : Float}
    (built : Layer.build network = .ok layer)
    (made : Timetable.build layer date dayRange filters speed = .ok c.timetable) {count : Nat}
    (inRange : count < c.query.departureTimes.length) (positive : 1 ≤ round)
    (allowed : round ≤ c.query.maxBoardings) :
    (stateAfter c (count + 1)).iteration = count + 1 ∧
      HiddenOnlyByOvertaking c round (stateAfter c (count + 1)) := by
  have regular := (Timetable.build_spec made).2.isRegular (Layer.isCompiled_build built)
  obtain ⟨consistent, number⟩ := stateAfter_spec (c := c) (Nat.le_of_lt inRange)
  have closed := (fullIteration_closed consistent regular positive allowed).1
  rw [number, ← stateAfter_succ inRange] at closed
  refine ⟨(stateAfter_spec (c := c) inRange).2, ?_⟩
  intro line known notFifo position label trip able
  obtain ⟨exactly, ordered⟩ := Timetable.isExact_line built made known
  obtain ⟨o, boarded, earliest⟩ := able.exists_first exactly (Timetable.build_spec made).1 ordered
  refine ⟨o.trip, earliest, fun later ahead inside => ?_⟩
  have reached : (c.timetable.line line).debarkTime o.trip later ≤ latestOf c _ → IsReachedBy _ _ _ _ :=
    fun inTime => isReachedBy_of_isCoveredByTransit (closed _ label able.inFront able.current line
      known notFifo position (by omega) rfl o boarded later ahead inside inTime)
  refine ⟨reached, fun inTime => ?_⟩
  by_cases overtakes : (c.timetable.line line).debarkTime trip later <
      (c.timetable.line line).debarkTime o.trip later
  · exact .inr overtakes
  · have sooner := Int.not_lt.1 overtakes
    obtain ⟨best, le, isBest⟩ := reached (Int.le_trans sooner inTime)
    exact .inl ⟨best, Int.le_trans le sooner, isBest⟩

/-- At the first stop of both trips the slow one leaves before the fast one. -/
def overtakingQuery : Query where
  access := .ofLegs 2 [⟨0, .zero, 0, some .zero, none⟩]
  egress := .ofLegs 2 [⟨1, .zero, 0, some .zero, none⟩]
  earliestDeparture := ⟨0⟩
  window := .ofHms 0 1 0
  step := .ofHms 0 1 0
  maxBoardings := 1
  maxDuration := .ofHms 24 0 0
  minTransferTime := .ofHms 0 1 0
  costs := {}

theorem exists_hidden_overtaking : ∃ layer t label, Layer.build .overtaking = .ok layer ∧
    Timetable.build layer ⟨100⟩ 3 {} 1 = .ok t ∧
      let c : Context := ⟨t, .standard, overtakingQuery⟩
      let s := stateAfter c 1
      0 < c.timetable.nbOfLines ∧ (c.timetable.line 0).pattern.fifo = false ∧
        (c.timetable.line 0).nbOfPositions = 2 ∧ CanTake c 1 0 0 s label ⟨0, 1⟩ ∧
          (c.timetable.line 0).debarkTime ⟨0, 1⟩ 1 = ⟨90⟩ ∧ (⟨90⟩ : SearchTime) ≤ latestOf c s.iteration ∧
            s.bestTransitArrival? ((c.timetable.line 0).stopAt 1) 1 = some ⟨120⟩ := by
  have found : (Layer.build .overtaking).toOption.any (fun layer =>
      (Timetable.build layer ⟨100⟩ 3 {} 1).toOption.any fun t =>
        let c : Context := ⟨t, .standard, overtakingQuery⟩
        let s := stateAfter c 1
        ((s.round 0).front ((c.timetable.line 0).stopAt 0)).any fun label =>
          decide (0 < c.timetable.nbOfLines ∧ (c.timetable.line 0).pattern.fifo = false ∧
            (c.timetable.line 0).nbOfPositions = 2 ∧ s.tree.iteration label.1 = s.iteration ∧
              0 < (c.timetable.line 0).days.size ∧
                1 ∈ ((c.timetable.line 0).day 0).schedules ∧
                  c.query.readyTime label.2 ≤ (c.timetable.line 0).boardTime ⟨0, 1⟩ 0 ∧
                    (c.timetable.line 0).debarkTime ⟨0, 1⟩ 1 = ⟨90⟩ ∧
                      (⟨90⟩ : SearchTime) ≤ latestOf c s.iteration ∧
                        s.bestTransitArrival? ((c.timetable.line 0).stopAt 1) 1 = some ⟨120⟩)) =
      true := by
    rw [Layer.build, Network.patterns_overtaking]
    decide +kernel
  obtain ⟨layer, built, found⟩ := exists_ok_of_any found
  obtain ⟨t, made, found⟩ := exists_ok_of_any found
  obtain ⟨label, inFront, holds⟩ := List.any_eq_true.1 found
  obtain ⟨known, notFifo, two, current, day, listed, notGone, arrives, inTime, best⟩ :=
    of_decide_eq_true holds
  have inside : 0 < (t.line 0).nbOfPositions := Nat.lt_of_lt_of_eq Nat.two_pos two.symm
  exact ⟨layer, t, label, built, made, known, notFifo, two,
    ⟨inside, inFront, current, ⟨day, listed⟩, notGone⟩, arrives, inTime, best⟩

theorem hidden_only_by_overtaking_overtaking : ∃ layer t label,
    Layer.build .overtaking = .ok layer ∧ Timetable.build layer ⟨100⟩ 3 {} 1 = .ok t ∧
      let c : Context := ⟨t, .standard, overtakingQuery⟩
      CanTake c 1 0 0 (stateAfter c 1) label ⟨0, 1⟩ ∧
        ∃ first, (t.line 0).IsEarliest (overtakingQuery.readyTime label.2) 0 first ∧
          (⟨90⟩ : SearchTime) < (t.line 0).debarkTime first 1 := by
  obtain ⟨layer, t, label, built, made, known, notFifo, two, able, arrives, inTime, best⟩ :=
    exists_hidden_overtaking
  have inRange : 0 < overtakingQuery.departureTimes.length := by decide
  have allowed : 1 ≤ overtakingQuery.maxBoardings := by decide
  obtain ⟨-, hidden⟩ := hidden_only_by_overtaking (c := ⟨t, .standard, overtakingQuery⟩) built made
    inRange (Nat.le_refl 1) allowed
  obtain ⟨first, earliest, reached⟩ := hidden 0 known notFifo 0 label _ able
  obtain ⟨-, sooner⟩ := reached 1 (by omega) (by omega)
  rw [arrives] at sooner
  refine ⟨layer, t, label, built, made, able, first, earliest, (sooner inTime).resolve_left ?_⟩
  rintro ⟨time, le, isBest⟩
  obtain rfl := Option.some.inj (isBest.symm.trans best)
  exact absurd le (by decide)

/-- So a trip that overtakes the first one to leave can be hidden. -/
theorem not_noneHidden_overtaking : ∃ layer t, Layer.build .overtaking = .ok layer ∧
    Timetable.build layer ⟨100⟩ 3 {} 1 = .ok t ∧
      ¬NoneHidden ⟨t, .standard, overtakingQuery⟩ 1
        (stateAfter ⟨t, .standard, overtakingQuery⟩ 1) := by
  obtain ⟨layer, t, label, built, made, known, notFifo, two, able, arrives, inTime, best⟩ :=
    exists_hidden_overtaking
  refine ⟨layer, t, built, made, fun none => ?_⟩
  have reached := none 0 known notFifo 0 label _ able 1 (by omega) (by omega)
  rw [arrives] at reached
  obtain ⟨time, le, isBest⟩ := reached inTime
  obtain rfl := Option.some.inj (isBest.symm.trans best)
  exact absurd le (by decide)

end Search

end JourneyPlanner
