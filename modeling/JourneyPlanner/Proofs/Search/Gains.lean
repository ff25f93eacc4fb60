import JourneyPlanner.Proofs.Search.Aboard
import Mathlib.Data.List.Nodup

/-!
What a round adds in the standard profile. The rides add the arrivals of all the trips that somebody
is on, over all the lines of the timetable; the walks add the arrivals after one footpath from the
stops where somebody has got off. Both follow from who waits where, and the order of the lines and
of the stops plays no part. After a round in which nobody rides nothing is added any more.
-/

namespace JourneyPlanner.Search

variable {c : Context} {s t : SearchState} {round : Nat} {latest : SearchTime}
  {waiting : StopIndex → List SearchTime}

/-- What follows from all the rides of those who wait at the stops after a round. -/
def RidesTo (c : Context) (latest : SearchTime) (round : Nat)
    (waiting : StopIndex → List SearchTime) (fact : Fact) : Prop :=
  ∃ line < c.timetable.nbOfLines, ∃ position < (c.timetable.line line).nbOfPositions,
    FollowsFromTrips (c.timetable.line line) latest position
      (aboard (c.timetable.line line) (boardedTrips c round waiting (c.timetable.line line))
        position) fact

/-- What follows from all the walks of those who wait at the stops. -/
def WalksTo (c : Context) (latest : SearchTime) (waiting : StopIndex → List SearchTime)
    (fact : Fact) : Prop :=
  ∃ stop, ∃ time ∈ waiting stop, ∃ w ∈ c.timetable.walksFrom stop, time + w.duration ≤ latest ∧
    Fact.FollowsFrom ⟨w.target, time + w.duration, false⟩ fact

theorem exists_mem_linesToRide_of_boarded (h : Consistent c s) (regular : c.timetable.IsRegular)
    (allowed : round ≤ c.query.maxBoardings) {line : LineIndex} {position : Nat}
    (notLast : position + 1 < (c.timetable.line line).nbOfPositions)
    (some : boardedTrips c round (fun stop => arrivalsAt s round stop false) (c.timetable.line line)
      position ≠ []) : ∃ first ≤ position, (line, first) ∈ linesToRide c s round := by
  obtain ⟨trip, member⟩ := List.exists_mem_of_ne_nil _ some
  obtain ⟨arrival, waits, -⟩ := List.mem_filterMap.1 member
  obtain ⟨label, inFront, now, -⟩ := mem_arrivalsAt.1 waits
  exact exists_mem_linesToRide h regular allowed inFront now
    (Timetable.lt_nbOfLines (Nat.lt_of_succ_lt notLast)) notLast rfl

theorem boardedTrips_eq_nil (h : Consistent c s) (regular : c.timetable.IsRegular)
    (allowed : round ≤ c.query.maxBoardings) {entry : LineIndex × Nat}
    (member : entry ∈ linesToRide c s round)
    (inside : entry.2 < (c.timetable.line entry.1).nbOfPositions) {position : Nat}
    (less : position < entry.2) :
    boardedTrips c round (fun stop => arrivalsAt s round stop false) (c.timetable.line entry.1)
      position = [] := by
  by_contra some
  obtain ⟨first, le, among⟩ := exists_mem_linesToRide_of_boarded h regular allowed
    (show position + 1 < _ by omega) some
  have distinct := c.timetable.nodup_touch (s.round round).stops.toList
  have same := List.inj_on_of_nodup_map distinct member among rfl
  rw [same] at less
  omega

theorem adds_rides (h : Reached c s) (standard : c.profile = .standard) (positive : 0 < round)
    (allowed : round ≤ c.query.maxBoardings) (regular : c.timetable.IsRegular) :
    Adds round s ((linesToRide c s (round - 1)).foldl (ride c (latestOf c s.iteration) round) s)
      (RidesTo c (latestOf c s.iteration) (round - 1)
        fun stop => arrivalsAt s (round - 1) stop false) := by
  have before : round - 1 ≤ c.query.maxBoardings := by omega
  let waiting (stop : StopIndex) : List SearchTime := arrivalsAt s (round - 1) stop false
  obtain ⟨-, adds⟩ := Adds.foldl (P := Moves c round round s)
    (f := ride c (latestOf c s.iteration) round) (l := linesToRide c s (round - 1)) .refl
    fun entry member t moves => by
      have now := moves.iteration_eq
      have waits (stop : StopIndex) : arrivalsAt t (round - 1) stop false = waiting stop :=
        arrivalsAt_of_moves h.consistent moves (Nat.sub_lt positive Nat.one_pos)
      have rides := ride_moves (h.consistent.moves moves) positive allowed entry
      have adds := adds_ride (h.moves moves) standard positive allowed regular waits entry
        fun inside position less =>
          boardedTrips_eq_nil h.consistent regular before member inside less
      rw [now] at rides adds
      exact ⟨moves.trans rides, adds⟩
  refine adds.congr fun fact => ?_
  constructor
  · rintro ⟨line, -, position, inside, follows⟩
    obtain ⟨trip, member, -⟩ := id follows
    obtain ⟨first, less, some⟩ := exists_boarded_of_mem_aboard member
    obtain ⟨start, le, ridden⟩ := exists_mem_linesToRide_of_boarded h.consistent regular before
      (show first + 1 < _ by omega) some
    exact ⟨(line, start), ridden, position, ⟨by omega, inside⟩, follows⟩
  · rintro ⟨entry, -, position, ⟨-, inside⟩, follows⟩
    exact ⟨entry.1, Timetable.lt_nbOfLines inside, position, inside, follows⟩

theorem adds_walk (h : Reached c s) (standard : c.profile = .standard)
    (allowed : round ≤ c.query.maxBoardings) (label : NodeIndex × Criteria) {w : Walk}
    (known : w.target < c.timetable.nbOfStops) :
    Adds round s (walk c latest round label s w) fun fact =>
      label.2.arrival + w.duration ≤ latest ∧
        Fact.FollowsFrom ⟨w.target, label.2.arrival + w.duration, false⟩ fact := by
  simp only [walk]
  split
  · next late => exact .of_known fun fact follows => absurd follows.1 (Int.not_le.2 late)
  · next inTime =>
      split
      · next covered =>
          have here := (knows_iff_isCovered standard).2 covered
          exact .of_known fun fact follows => h.knows_of_followsFrom standard here follows.2
      · rw [standard]
        have adds := adds_reach h.consistent.sized allowed (s.tree.walkNode label.1 w.footpath
          w.duration w.target (walkCriteria c label.2 w) s.iteration) known
        exact adds.congr fun fact => and_iff_right (Int.not_lt.1 inTime)

theorem adds_walkAll (h : Reached c s) (standard : c.profile = .standard)
    (allowed : round ≤ c.query.maxBoardings) (regular : c.timetable.IsRegular) {stop : StopIndex}
    {labels : StopFront} (able : ∀ label ∈ labels, CanWalk c round stop s label) :
    Adds round s (walkAll c (latestOf c s.iteration) round stop labels s) fun fact =>
      ∃ time ∈ labels.map (·.2.arrival), ∃ w ∈ c.timetable.walksFrom stop,
        time + w.duration ≤ latestOf c s.iteration ∧
          Fact.FollowsFrom ⟨w.target, time + w.duration, false⟩ fact := by
  have step : ∀ label ∈ labels, ∀ t, Moves c round round s t →
      Moves c round round s ((c.timetable.walksFrom stop).foldl
          (walk c (latestOf c s.iteration) round label) t) ∧
        Adds round t ((c.timetable.walksFrom stop).foldl
          (walk c (latestOf c s.iteration) round label) t) fun fact =>
            ∃ w ∈ c.timetable.walksFrom stop,
              label.2.arrival + w.duration ≤ latestOf c s.iteration ∧
                Fact.FollowsFrom ⟨w.target, label.2.arrival + w.duration, false⟩ fact := by
    intro label member t moves
    refine Adds.foldl moves fun w known u more => ⟨?_, ?_⟩
    · have able := (able label member).moves more
      rw [← more.iteration_eq]
      exact more.trans (walk_moves able.isLabel able.now able.rested known)
    · exact adds_walk (h.moves more) standard allowed label (regular.target_lt stop w known)
  obtain ⟨-, adds⟩ := Adds.foldl (P := Moves c round round s) .refl step
  refine adds.congr fun fact => ?_
  simp only [List.mem_map, exists_exists_and_eq_and]

theorem labelsAt_walkAll (latest : SearchTime) (round : Nat) (stop : StopIndex) (labels : StopFront)
    (s : SearchState) (i : Nat) (x : StopIndex) :
    labelsAt (walkAll c latest round stop labels s) i x true = labelsAt s i x true := by
  let Keeps (t : SearchState) : Prop := labelsAt t i x true = labelsAt s i x true
  refine List.foldlRecOn (motive := Keeps) _ _ rfl fun t kept label _ => ?_
  refine List.foldlRecOn (motive := Keeps) _ _ kept fun u same w _ => ?_
  refine Eq.trans ?_ same
  simp only [walk]
  split
  · rfl
  · split
    · rfl
    · exact SearchState.transitFront_insert ..

theorem adds_walkFromTransit (h : Reached c s) (standard : c.profile = .standard)
    (allowed : round ≤ c.query.maxBoardings) (regular : c.timetable.IsRegular) :
    Adds round s (walkFromTransit c (latestOf c s.iteration) round s)
      (WalksTo c (latestOf c s.iteration) fun stop => arrivalsAt s round stop true) := by
  rw [walkFromTransit, ← Array.foldl_toList]
  -- The arrivals by vehicle stay as they are while the stops are walked from.
  let Walked (t : SearchState) : Prop :=
    Moves c round round s t ∧ ∀ stop, labelsAt t round stop true = labelsAt s round stop true
  have step : ∀ stop ∈ (s.round round).transitStops.toList, ∀ t, Walked t →
      Walked (walkAll c (latestOf c s.iteration) round stop (transitLabels t round stop) t) ∧
        Adds round t (walkAll c (latestOf c s.iteration) round stop (transitLabels t round stop) t)
          fun fact => ∃ time ∈ arrivalsAt s round stop true, ∃ w ∈ c.timetable.walksFrom stop,
            time + w.duration ≤ latestOf c s.iteration ∧
              Fact.FollowsFrom ⟨w.target, time + w.duration, false⟩ fact := by
    rintro stop - t ⟨moves, same⟩
    have able : ∀ label ∈ transitLabels t round stop, CanWalk c round stop t label :=
      fun label member => canWalk_of_mem_transitLabels (h.consistent.moves moves) member
    have walks := walkAll_moves able
    have adds := adds_walkAll (h.moves moves) standard allowed regular able
    have waits : (transitLabels t round stop).map (·.2.arrival) = arrivalsAt s round stop true :=
      arrivalsAt_congr h.consistent moves.extends moves.iteration_eq (same stop)
    rw [waits] at adds
    rw [moves.iteration_eq] at walks adds
    refine ⟨⟨moves.trans walks, fun x => ?_⟩, adds⟩
    exact (labelsAt_walkAll ..).trans (same x)
  obtain ⟨-, adds⟩ := Adds.foldl (P := Walked) ⟨.refl, fun _ => rfl⟩ step
  refine adds.congr fun fact => ?_
  constructor
  · rintro ⟨stop, time, waits, follows⟩
    obtain ⟨label, inFront, now, -⟩ := mem_arrivalsAt.1 waits
    have listed := h.consistent.transitTouched round stop label inFront now
    exact ⟨stop, Array.mem_toList_iff.2 listed, time, waits, follows⟩
  · rintro ⟨stop, -, time, waits, follows⟩
    exact ⟨stop, time, waits, follows⟩

/-- A round goes from the state before it by way of the rides to the state after the walks. -/
structure IsRidden (c : Context) (latest : SearchTime) (round : Nat) (s u v : SearchState) :
    Prop where
  rides : IsRound c (round + 1) s u
  ridden : Adds (round + 1) s u
    (RidesTo c latest round fun stop => arrivalsAt s round stop false)
  walks : IsRound c (round + 1) s v
  walked : Adds (round + 1) u v (WalksTo c latest fun stop => arrivalsAt u (round + 1) stop true)

theorem exists_isRidden (h : Reached c s) (fresh : Fresh (round + 1) s)
    (standard : c.profile = .standard) (allowed : round + 1 ≤ c.query.maxBoardings)
    (regular : c.timetable.IsRegular) :
    ∃ u, IsRidden c (latestOf c s.iteration) round s u
      (runRound c (latestOf c s.iteration) (round + 1) (linesToRide c s round) s) := by
  let counted : SearchState := { s with lastRound := max s.lastRound (round + 1) }
  have counts : Moves c (round + 1) (round + 1) s counted := (Move.count _ s.nbOfScans).moves
  have reached := h.moves counts
  have rides := rides_moves reached.consistent (Nat.succ_pos round) allowed (linesToRide c s round)
  have ridden := adds_rides reached standard (Nat.succ_pos round) allowed regular
  have all : Moves c (round + 1) (round + 1) s _ := counts.trans rides
  have walks : Moves c (round + 1) (round + 1) _ _ :=
    walkFromTransit_moves (h.moves all).consistent
  have walked := adds_walkFromTransit (h.moves all) standard allowed regular
  rw [all.iteration_eq] at walks walked
  exact ⟨_, ⟨h, fresh, all⟩, ridden, ⟨h, fresh, all.trans walks⟩, walked⟩

theorem not_ridesTo_of_nobody {fact : Fact} (nobody : ∀ stop, waiting stop = []) :
    ¬RidesTo c latest round waiting fact := by
  rintro ⟨line, -, position, -, trip, member, -⟩
  obtain ⟨first, -, some⟩ := exists_boarded_of_mem_aboard member
  exact some (by simp [boardedTrips, nobody])

theorem not_walksTo_of_nobody {fact : Fact} (nobody : ∀ stop, waiting stop = []) :
    ¬WalksTo c latest waiting fact := by
  rintro ⟨stop, time, waits, -⟩
  rw [nobody] at waits
  cases waits

theorem IsRound.arrivalsAt_eq_nil (h : IsRound c round s t) (standard : c.profile = .standard)
    (same : ∀ fact, Knows t round fact → Knows s round fact) (stop : StopIndex) (byVehicle : Bool) :
    arrivalsAt t round stop byVehicle = [] := by
  refine List.eq_nil_iff_forall_not_mem.2 fun time member => ?_
  obtain ⟨known, unknown, -⟩ := (h.mem_arrivalsAt_iff standard).1 member
  exact unknown (same _ known)

theorem IsRidden.knows_iff_of_idle {u v : SearchState} (h : IsRidden c latest round s u v)
    (standard : c.profile = .standard)
    (idle : ∀ fact, ¬RidesTo c latest round (fun stop => arrivalsAt s round stop false) fact)
    (fact : Fact) : Knows v (round + 1) fact ↔ Knows s (round + 1) fact := by
  have ridden (fact : Fact) : Knows u (round + 1) fact ↔ Knows s (round + 1) fact := by
    rw [h.ridden fact, or_iff_left (idle fact)]
  have nobody (stop : StopIndex) :=
    h.rides.arrivalsAt_eq_nil standard (fun fact => (ridden fact).1) stop true
  rw [h.walked fact, or_iff_left (not_walksTo_of_nobody nobody), ridden]

theorem knows_allRounds_of_idle (standard : c.profile = .standard)
    (regular : c.timetable.IsRegular) (left round : Nat) (h : Reached c s)
    (fresh : Fresh (round + 1) s) (allowed : round + left ≤ c.query.maxBoardings)
    (idle : ∀ fact, ¬RidesTo c (latestOf c s.iteration) round
      (fun stop => arrivalsAt s round stop false) fact) (upTo : Nat) (fact : Fact) :
    Knows (allRounds c (latestOf c s.iteration) left round s) upTo fact ↔ Knows s upTo fact := by
  induction left generalizing round s with
  | zero => exact Iff.rfl
  | succ left ih =>
      rw [allRounds_succ]
      split
      · exact Iff.rfl
      · obtain ⟨u, ridden⟩ := exists_isRidden h fresh standard (by omega) regular
        have same := ridden.knows_iff_of_idle standard idle
        have moves := ridden.walks.moves
        have nobody (stop : StopIndex) :=
          ridden.walks.arrivalsAt_eq_nil standard (fun fact => (same fact).1) stop false
        have rest := ih (round + 1) (h.moves moves) (fresh.moves moves (Nat.le_refl _)) (by omega)
          fun fact => not_ridesTo_of_nobody nobody
        rw [moves.iteration_eq] at rest
        rw [rest, knows_iff_of_moves standard moves, same]
        constructor
        · rintro (known | ⟨reaches, known⟩)
          · exact known
          · exact known.round_mono reaches
        · exact .inl

end JourneyPlanner.Search
