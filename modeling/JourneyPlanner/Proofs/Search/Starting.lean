import JourneyPlanner.Proofs.Request.StreetLegs
import JourneyPlanner.Proofs.Search.Longer
import JourneyPlanner.Proofs.Search.Reordered

/-!
What is known on foot from the origin. Two searches with the same legs in the same order make the
same nodes there, whatever the later rounds add. With the legs in another order they still come to
know the same, if no leg is beaten by another one with a footpath: then the leg of a stop is what is
walked from.
-/

namespace JourneyPlanner.Search

variable {c d : Context} {s t u : SearchState} {fact : Fact} {departure latest : SearchTime}
  {stop : StopIndex}

section SameLegs

/-- The walks from the origin for some departure times, without any round. -/
def accessAfter (c : Context) (count : Nat) : SearchState :=
  (c.query.departureTimes.take count).foldl (fun s departure => runAccess c departure s)
    (SearchState.initial c.timetable.nbOfStops 0)

theorem knows_iff_of_agree {last upTo : Nat} (h : Agree last s u) (le : upTo ≤ last) :
    Knows s upTo fact ↔ Knows u upTo fact := by
  obtain ⟨stop, time, byVehicle⟩ := fact
  let criteria : Criteria := ⟨time, 0, .zero⟩
  have same := h.isCovered_eq (p := .standard) le stop criteria
  have sameByTransit := h.isCoveredByTransit_eq (p := .standard) le stop criteria
  cases byVehicle with
  | false =>
      change Knows s upTo ⟨stop, criteria.arrival, false⟩ ↔
        Knows u upTo ⟨stop, criteria.arrival, false⟩
      rw [knows_iff_isCovered (p := .standard) rfl, same, knows_iff_isCovered (p := .standard) rfl]
  | true =>
      change Knows s upTo ⟨stop, criteria.arrival, true⟩ ↔
        Knows u upTo ⟨stop, criteria.arrival, true⟩
      rw [knows_iff_isCoveredByTransit (p := .standard) rfl, sameByTransit,
        knows_iff_isCoveredByTransit (p := .standard) rfl]

theorem accessAfter_agree {count : Nat} (within : count < c.query.departureTimes.length) :
    Agree 0 (accessAfter c count) (stateAfter c count) := by
  induction count with
  | zero => exact initial_agree c.timetable.nbOfStops (Nat.zero_le _)
  | succ count ih =>
      have before := ih (by omega)
      obtain ⟨consistent, number⟩ :=
        stateAfter_spec (show count ≤ c.query.departureTimes.length by omega)
      have access := runAccess_agree (c := c) before (departureOf c (count + 1))
      have moves := runAccess_moves consistent
      have start := consistent.nextIteration.moves moves
      have rounds := allRounds_moves c.query.maxBoardings 0 start (by omega)
      have now : (runAccess c (departureOf c (count + 1)) (stateAfter c count)).iteration =
          count + 1 := by
        rw [number] at moves
        rw [moves.iteration_eq]
        exact congrArg (· + 1) number
      rw [number] at start rounds
      rw [now] at rounds
      -- There is one departure time only when nobody may board.
      have boards : ¬c.query.maxBoardings = 0 := by
        intro none
        simp [Query.departureTimes, none] at within
      have later : accessAfter c (count + 1) =
          runAccess c (departureOf c (count + 1)) (accessAfter c count) := by
        rw [accessAfter, take_departureTimes (by omega), List.foldl_append]
        rfl
      rw [later, stateAfter_succ (by omega)]
      rw [fullIteration_eq, if_neg boards]
      exact access.moves_right start (Nat.zero_le _) Nat.one_pos rounds

theorem runAccess_reordered (h : Reordered c d) (same : d.query.access = c.query.access)
    (departure : SearchTime) (s : SearchState) :
    runAccess d departure s = runAccess c departure s := by
  have query : d.query = c.query := by rw [h.query_eq, same]
  have profile : d.profile = c.profile := h.standard.2.trans h.standard.1.symm
  have walks (latest : SearchTime) (label : NodeIndex × Criteria) :
      walk d latest 0 label = walk c latest 0 label := by
    funext s w
    simp only [walk, walkCriteria, query, profile]
    rfl
  have departs (latest : SearchTime) : depart d departure latest = depart c departure latest := by
    funext s leg
    simp only [depart, query, profile]
  simp only [runAccess, walkFromAccess, walkAll, walks, departs, h.timetable.walksFrom, query,
    h.latestArrival_eq]

theorem startAlike_of_access_eq (h : Reordered c d) (same : d.query.access = c.query.access) :
    StartAlike c d := by
  intro count more _ fact
  have times := h.departureTimes_eq
  have alone : accessAfter d count = accessAfter c count := by
    have step : (fun s departure => runAccess d departure s) =
        fun s departure => runAccess c departure s :=
      funext fun s => funext fun departure => runAccess_reordered h same departure s
    rw [accessAfter, accessAfter, times, h.timetable.nbOfStops, step]
  have left := runAccess_agree (c := c) (accessAfter_agree more) (departureOf c (count + 1))
  have right := runAccess_agree (c := d) (accessAfter_agree (c := d) (times ▸ more))
    (departureOf d (count + 1))
  rw [← knows_iff_of_agree left (Nat.le_refl 0), ← knows_iff_of_agree right (Nat.le_refl 0), alone,
    h.departureOf_eq, runAccess_reordered h same]

end SameLegs

section OtherOrder

/-- The legs are of stops of the timetable, and no stop is reached sooner by the leg of another one
and a footpath. -/
structure IsStraight (c : Context) : Prop where
  known : ∀ leg ∈ c.query.access.legs, leg.stop < c.timetable.nbOfStops
  notSooner : ∀ leg ∈ c.query.access.legs, ∀ other ∈ c.query.access.legs,
    ∀ w ∈ c.timetable.walksFrom other.stop, w.target = leg.stop →
      leg.duration.seconds ≤ other.duration.seconds + w.duration.seconds

theorem IsStraight.reordered (straight : IsStraight c) (h : Reordered c d)
    (same : ∀ leg, leg ∈ d.query.access.legs ↔ leg ∈ c.query.access.legs) : IsStraight d := by
  refine ⟨fun leg member => ?_, fun leg member other among w known => ?_⟩
  · rw [h.timetable.nbOfStops]
    exact straight.known leg ((same leg).1 member)
  · rw [h.timetable.walksFrom] at known
    exact straight.notSooner leg ((same leg).1 member) other ((same other).1 among) w known

/-- What is walked on from: the arrival by a leg, in time and not known before. -/
def StartsAt (c : Context) (departure latest : SearchTime) (s : SearchState) (stop : StopIndex)
    (time : SearchTime) : Prop :=
  ∃ leg ∈ c.query.access.legs, leg.stop = stop ∧ departure + leg.duration = time ∧ time ≤ latest ∧
    ¬Knows s 0 ⟨stop, time, false⟩

/-- What is known on foot from the origin: arrivals by the legs, and arrivals after one footpath. -/
def StartsTo (c : Context) (departure latest : SearchTime) (s : SearchState) (fact : Fact) : Prop :=
  (∃ leg ∈ c.query.access.legs, departure + leg.duration ≤ latest ∧
      Fact.FollowsFrom ⟨leg.stop, departure + leg.duration, false⟩ fact) ∨
    ∃ stop time, StartsAt c departure latest s stop time ∧
      ∃ w ∈ c.timetable.walksFrom stop, time + w.duration ≤ latest ∧
        Fact.FollowsFrom ⟨w.target, time + w.duration, false⟩ fact

theorem adds_depart (h : Reached c s) (standard : c.profile = .standard)
    {entry : StreetLeg × Nat} (known : entry.1.stop < c.timetable.nbOfStops) :
    Adds 0 s (depart c departure latest s entry) fun fact =>
      departure + entry.1.duration ≤ latest ∧
        Fact.FollowsFrom ⟨entry.1.stop, departure + entry.1.duration, false⟩ fact := by
  simp only [depart]
  split
  · next late => exact .of_known fun fact follows => absurd follows.1 (Int.not_le.2 late)
  · next inTime =>
      split
      · next covered =>
          have here := (knows_iff_isCovered standard).2 covered
          exact .of_known fun fact follows => h.knows_of_followsFrom standard here follows.2
      · rw [standard]
        have adds := adds_reach h.consistent.sized (Nat.zero_le _)
          (JourneyTree.accessNode entry.2 entry.1.stop
            ⟨departure + entry.1.duration, 0, c.query.legCost entry.1⟩ departure s.iteration) known
        exact adds.congr fun fact => and_iff_right (Int.not_lt.1 inTime)

/-- The nodes from an index on came by legs. -/
def OnlyLegsFrom (index : Nat) (s : SearchState) : Prop :=
  ∀ i, index ≤ i → i < s.tree.size → (s.tree.node i).step.isAccess = true

theorem OnlyLegsFrom.depart {index : Nat} (h : OnlyLegsFrom index s)
    (entry : StreetLeg × Nat) : OnlyLegsFrom index (depart c departure latest s entry) := by
  simp only [Search.depart]
  split
  · exact h
  · split
    · exact h
    · intro i new inside
      change i < (s.tree.push _).size at inside
      change ((s.tree.push _).node i).step.isAccess = true
      rw [JourneyTree.size_push] at inside
      by_cases older : i < s.tree.size
      · rw [JourneyTree.node_push_of_lt older]
        exact h i new older
      · have last : i = s.tree.size := by omega
        rw [last, JourneyTree.node_push_size]
        rfl

/-- A state after the legs of a departure time. -/
structure IsDeparted (c : Context) (s t : SearchState) : Prop where
  isRound : IsRound c 0 s.nextIteration t
  adds : Adds 0 s.nextIteration t fun fact =>
    ∃ leg ∈ c.query.access.legs, departureOf c (s.iteration + 1) + leg.duration ≤
        latestOf c (s.iteration + 1) ∧
      Fact.FollowsFrom ⟨leg.stop, departureOf c (s.iteration + 1) + leg.duration, false⟩ fact
  onlyLegs : OnlyLegsFrom s.tree.size t

theorem isDeparted_departs (h : Reached c s) (standard : c.profile = .standard)
    (straight : IsStraight c) (more : s.iteration < c.query.departureTimes.length) :
    IsDeparted c s (c.query.access.legs.toList.zipIdx.foldl
      (depart c (departureOf c (s.iteration + 1)) (latestOf c (s.iteration + 1)))
      s.nextIteration) := by
  have start : Reached c s.nextIteration := h.tail (.iteration more)
  let Departed (t : SearchState) : Prop :=
    Moves c 0 0 s.nextIteration t ∧ OnlyLegsFrom s.tree.size t
  have step : ∀ entry ∈ c.query.access.legs.toList.zipIdx, ∀ t, Departed t →
      Departed (depart c (departureOf c (s.iteration + 1)) (latestOf c (s.iteration + 1)) t entry) ∧
        Adds 0 t (depart c (departureOf c (s.iteration + 1)) (latestOf c (s.iteration + 1)) t entry)
          fun fact => departureOf c (s.iteration + 1) + entry.1.duration ≤
              latestOf c (s.iteration + 1) ∧
            Fact.FollowsFrom
              ⟨entry.1.stop, departureOf c (s.iteration + 1) + entry.1.duration, false⟩ fact := by
    rintro entry member t ⟨moves, onlyLegs⟩
    have leg : entry.1 ∈ c.query.access.legs :=
      Array.mem_toList_iff.1 (List.fst_mem_of_mem_zipIdx member)
    exact ⟨⟨moves.trans (moves.depart_moves member), onlyLegs.depart entry⟩,
      adds_depart (start.moves moves) standard (straight.known _ leg)⟩
  obtain ⟨⟨moves, onlyLegs⟩, adds⟩ := Adds.foldl (P := Departed)
    ⟨.refl, fun i new inside => absurd inside (Nat.not_lt.2 new)⟩ step
  refine ⟨⟨start, h.consistent.fresh_nextIteration 0, moves⟩, adds.congr fun fact => ?_, onlyLegs⟩
  constructor
  · rintro ⟨leg, member, follows⟩
    obtain ⟨index, inside, rfl⟩ := Array.getElem_of_mem member
    exact ⟨(c.query.access.legs[index], index), List.mem_zipIdx_iff_getElem?.2 (by simp [inside]),
      follows⟩
  · rintro ⟨entry, member, follows⟩
    exact ⟨entry.1, Array.mem_toList_iff.1 (List.fst_mem_of_mem_zipIdx member), follows⟩

theorem IsStraight.le_add (h : IsStraight c) {leg other : StreetLeg} {w : Walk}
    (member : leg ∈ c.query.access.legs) (among : other ∈ c.query.access.legs)
    (known : w ∈ c.timetable.walksFrom other.stop) (target : w.target = leg.stop)
    (departure : SearchTime) :
    departure + leg.duration ≤ departure + other.duration + w.duration := by
  have short := h.notSooner leg member other among w known target
  simp only [SearchTime.le_def, SearchTime.seconds_add, clampWord, Duration.step]
  omega

theorem IsStraight.le_arrival (straight : IsStraight c) (h : Consistent c s) {leg : StreetLeg}
    (known : leg ∈ c.query.access.legs) {label : NodeIndex × Criteria}
    (member : label ∈ labelsAt s 0 leg.stop false) :
    departureOf c (s.tree.iteration label.1) + leg.duration ≤ label.2.arrival := by
  have isLabel := h.isLabel_of_mem member
  have trips : (s.tree.node label.1).criteria.nbOfTrips = 0 := by
    rw [isLabel.criteria_eq, isLabel.trips]
  obtain ⟨other, among, ⟨-, atStop, criteria⟩ | ⟨-, w, walks, target, criteria⟩⟩ :=
    h.criteria_of_onFoot isLabel.older trips
  · rw [← isLabel.criteria_eq, criteria,
      StreetLegs.eq_of_stop_eq among known (atStop.trans isLabel.stop_eq)]
    exact Int.le_refl _
  · rw [← isLabel.criteria_eq, criteria]
    exact straight.le_add known among walks (target.trans isLabel.stop_eq) _

theorem startsAt_of_mem_accessLabels (h : IsRound c 0 s.nextIteration u)
    (standard : c.profile = .standard) {label : NodeIndex × Criteria}
    (member : label ∈ accessLabels u stop) :
    StartsAt c (departureOf c (s.iteration + 1)) (latestOf c (s.iteration + 1)) s stop
      label.2.arrival := by
  have consistent := (h.reached.moves h.moves).consistent
  have number : u.iteration = s.iteration + 1 := h.moves.iteration_eq
  simp only [accessLabels, List.mem_filter, Bool.and_eq_true, beq_iff_eq] at member
  obtain ⟨inFront, now, byLeg⟩ := member
  have isLabel := consistent.labels 0 stop label inFront
  have unknown : ¬Knows s.nextIteration 0 ⟨stop, label.2.arrival, false⟩ :=
    h.not_knows standard inFront ((h.iteration_iff inFront).1 now)
  have trips : (u.tree.node label.1).criteria.nbOfTrips = 0 := by
    rw [isLabel.criteria_eq, isLabel.trips]
  obtain ⟨leg, known, ⟨-, atStop, criteria⟩ | ⟨walked, -⟩⟩ :=
    consistent.criteria_of_onFoot isLabel.older trips
  · have inTime := (consistent.follows _ isLabel.older).arrival_le_latestOf
    change _ ≤ latestOf c (JourneyTree.iteration _ _) at inTime
    rw [isLabel.criteria_eq, now, number] at criteria inTime
    exact ⟨leg, known, atStop.trans isLabel.stop_eq, (congrArg Criteria.arrival criteria).symm,
      inTime, fun before => unknown (knows_nextIteration.2 before)⟩
  · rw [Step.isAccess_eq_false_of_isWalk walked] at byLeg
    cases byLeg

theorem IsDeparted.exists_mem_accessLabels (h : IsDeparted c s t) (standard : c.profile = .standard)
    (straight : IsStraight c) (moves : Moves c 0 0 t u) {time : SearchTime}
    (starts : StartsAt c (departureOf c (s.iteration + 1)) (latestOf c (s.iteration + 1)) s stop
      time) : ∃ label ∈ accessLabels u stop, label.2.arrival = time := by
  obtain ⟨leg, known, rfl, rfl, inTime, unknown⟩ := starts
  have isRound : IsRound c 0 s.nextIteration u :=
    ⟨h.isRound.reached, h.isRound.fresh, h.isRound.moves.trans moves⟩
  have number : u.iteration = s.iteration + 1 := isRound.moves.iteration_eq
  have departed : Knows t 0 ⟨leg.stop, departureOf c (s.iteration + 1) + leg.duration, false⟩ :=
    (h.adds _).2 (.inr ⟨leg, known, inTime, .refl _⟩)
  obtain ⟨i, within, label, member, sooner⟩ := moves.later.knows standard departed
  obtain rfl : i = 0 := Nat.le_zero.1 within
  -- What is at the stop now is of the departure time, and no sooner than the leg.
  have now : u.tree.iteration label.1 = u.iteration := by
    refine (isRound.iteration_iff member).2 fun old => unknown (knows_nextIteration.1 ?_)
    exact ⟨0, Nat.le_refl _, label, old, sooner⟩
  have atLeast := straight.le_arrival (isRound.reached.moves isRound.moves).consistent known member
  rw [now, number] at atLeast
  have same : label.2.arrival = departureOf c (s.iteration + 1) + leg.duration :=
    SearchTime.ext (Int.le_antisymm sooner atLeast)
  -- So it was there before the walks, and is not one of them.
  have old : label ∈ labelsAt t 0 leg.stop false := by
    by_contra added
    have uncovered := (GoesOn.later moves.later).addsUncovered.fronts 0 leg.stop label member added
    rw [← same, knows_iff_isCovered standard, uncovered] at departed
    cases departed
  have isLabel := (h.isRound.reached.moves h.isRound.moves).consistent.isLabel_of_mem old
  have byLeg : (u.tree.node label.1).step.isAccess = true := by
    rw [moves.extends.node_eq _ isLabel.older]
    refine h.onlyLegs _ (Nat.not_lt.1 fun older => ?_) isLabel.older
    have before : s.nextIteration.tree.iteration label.1 = s.nextIteration.iteration := by
      rw [JourneyTree.iteration, ← isRound.moves.extends.node_eq _ older]
      exact now.trans number
    exact Nat.not_lt_zero _ (h.isRound.fresh label.1 older before)
  refine ⟨label, ?_, same⟩
  simp only [accessLabels, List.mem_filter, Bool.and_eq_true, beq_iff_eq]
  exact ⟨member, now, byLeg⟩

theorem IsDeparted.adds_walkFromAccess (h : IsDeparted c s t) (standard : c.profile = .standard)
    (straight : IsStraight c) (regular : c.timetable.IsRegular) :
    Adds 0 t (walkFromAccess c (latestOf c t.iteration) t) fun fact =>
      ∃ stop time, StartsAt c (departureOf c (s.iteration + 1)) (latestOf c (s.iteration + 1)) s
          stop time ∧
        ∃ w ∈ c.timetable.walksFrom stop, time + w.duration ≤ latestOf c t.iteration ∧
          Fact.FollowsFrom ⟨w.target, time + w.duration, false⟩ fact := by
  have reached := h.isRound.reached.moves h.isRound.moves
  rw [walkFromAccess, ← Array.foldl_toList]
  have step : ∀ stop ∈ (t.round 0).stops.toList, ∀ u, Moves c 0 0 t u →
      Moves c 0 0 t (walkAll c (latestOf c t.iteration) 0 stop (accessLabels u stop) u) ∧
        Adds 0 u (walkAll c (latestOf c t.iteration) 0 stop (accessLabels u stop) u) fun fact =>
          ∃ time, StartsAt c (departureOf c (s.iteration + 1)) (latestOf c (s.iteration + 1)) s stop
              time ∧
            ∃ w ∈ c.timetable.walksFrom stop, time + w.duration ≤ latestOf c t.iteration ∧
              Fact.FollowsFrom ⟨w.target, time + w.duration, false⟩ fact := by
    intro stop _ u moves
    have able : ∀ label ∈ accessLabels u stop, CanWalk c 0 stop u label :=
      fun label member => canWalk_of_mem_accessLabels (reached.moves moves).consistent member
    have walks := walkAll_moves able
    have adds := adds_walkAll (reached.moves moves) standard (Nat.zero_le _) regular able
    rw [moves.iteration_eq] at walks adds
    refine ⟨moves.trans walks, adds.congr fun fact => ?_⟩
    have isRound : IsRound c 0 s.nextIteration u :=
      ⟨h.isRound.reached, h.isRound.fresh, h.isRound.moves.trans moves⟩
    refine exists_congr fun time => and_congr_left fun _ => ?_
    constructor
    · intro starts
      obtain ⟨label, member, rfl⟩ := h.exists_mem_accessLabels standard straight moves starts
      exact List.mem_map_of_mem member
    · intro listed
      obtain ⟨label, member, rfl⟩ := List.mem_map.1 listed
      exact startsAt_of_mem_accessLabels isRound standard member
  obtain ⟨-, adds⟩ := Adds.foldl (P := Moves c 0 0 t) .refl step
  refine adds.congr fun fact => ?_
  constructor
  · rintro ⟨stop, time, starts, follows⟩
    obtain ⟨label, member, -⟩ := h.exists_mem_accessLabels standard straight .refl starts
    simp only [accessLabels, List.mem_filter, Bool.and_eq_true, beq_iff_eq] at member
    have listed := reached.consistent.touched 0 stop label member.1 member.2.1
    exact ⟨stop, Array.mem_toList_iff.2 listed, time, starts, follows⟩
  · rintro ⟨stop, -, time, starts, follows⟩
    exact ⟨stop, time, starts, follows⟩

theorem knows_runAccess_iff (h : Reached c s) (standard : c.profile = .standard)
    (straight : IsStraight c) (regular : c.timetable.IsRegular)
    (more : s.iteration < c.query.departureTimes.length) (fact : Fact) :
    Knows (runAccess c (departureOf c (s.iteration + 1)) s) 0 fact ↔ Knows s 0 fact ∨
      StartsTo c (departureOf c (s.iteration + 1)) (latestOf c (s.iteration + 1)) s fact := by
  have departed := isDeparted_departs h standard straight more
  have walked := departed.adds_walkFromAccess standard straight regular
  rw [departed.isRound.moves.iteration_eq] at walked
  refine (walked fact).trans ?_
  rw [departed.adds fact, knows_nextIteration, or_assoc]
  exact Iff.rfl

theorem startAlike_of_legs (h : Reordered c d)
    (same : ∀ leg, leg ∈ d.query.access.legs ↔ leg ∈ c.query.access.legs)
    (straight : IsStraight c ∧ IsStraight d) : StartAlike c d := by
  intro count more before fact
  have times := congrArg List.length h.departureTimes_eq
  have within : count ≤ d.query.departureTimes.length := by omega
  have left := (stateAfter_spec (c := c) (Nat.le_of_lt more)).2
  have right := (stateAfter_spec within).2
  have here := knows_runAccess_iff (reached_stateAfter (Nat.le_of_lt more)) h.standard.1 straight.1
    h.regular.1 (by rw [left]; exact more) fact
  have there := knows_runAccess_iff (reached_stateAfter within) h.standard.2 straight.2 h.regular.2
    (by rw [right]; omega) fact
  rw [left] at here
  rw [right] at there
  rw [here, there, before, h.departureOf_eq, h.latestOf_eq]
  simp only [StartsTo, StartsAt, same, h.timetable.walksFrom, before]

end OtherOrder

end JourneyPlanner.Search
