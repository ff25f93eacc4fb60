import JourneyPlanner.Proofs.Journey.Reordered
import JourneyPlanner.Proofs.Search.RoundClosure

/-!
What is walked in round zero. Each leg from the origin is covered at its stop, and each label that came
by a leg is walked on from, in its iteration and as long as it stands in the front of its stop. Nobody
walks on from somewhere reached by a footpath. So the walks from the stop of a leg are covered too,
unless another leg and a footpath are better there: then the label of the leg may give way before its
stop is walked from, and what it would have reached is not sought.
-/

namespace JourneyPlanner.Search

variable {c : Context} {round first last : Nat} {s t u : SearchState} {departure : SearchTime}
  {stop : StopIndex} {label : NodeIndex × Criteria}

/-- Another leg and a footpath are better at the stop of a leg: they are at least as good as the leg,
and the leg is not as good as they are. -/
def IsBeaten (c : Context) (departure : SearchTime) (leg : StreetLeg) : Prop :=
  ∃ other ∈ c.query.access.legs, ∃ w ∈ c.timetable.walksFrom other.stop, w.target = leg.stop ∧
    c.profile.atLeastAsGood (walkCriteria c (legCriteria c departure other) w)
      (legCriteria c departure leg) = true ∧
    c.profile.atLeastAsGood (legCriteria c departure leg)
      (walkCriteria c (legCriteria c departure other) w) = false

instance (c : Context) (departure : SearchTime) (leg : StreetLeg) :
    Decidable (IsBeaten c departure leg) :=
  inferInstanceAs (Decidable (∃ other ∈ c.query.access.legs, ∃ w ∈ c.timetable.walksFrom other.stop,
    w.target = leg.stop ∧ c.profile.atLeastAsGood (walkCriteria c (legCriteria c departure other) w)
      (legCriteria c departure leg) = true ∧
    c.profile.atLeastAsGood (legCriteria c departure leg)
      (walkCriteria c (legCriteria c departure other) w) = false))

/-- Every leg is covered at its stop when it arrives there in time. -/
def LegsCovered (c : Context) (departure : SearchTime) (s : SearchState) : Prop :=
  ∀ leg ∈ c.query.access.legs,
    (legCriteria c departure leg).arrival ≤ latestArrival c departure →
      s.isCovered c.profile leg.stop 0 (legCriteria c departure leg) = true

/-- Every footpath from the stop of a leg is covered where the two arrive in time. -/
def LegWalksCovered (c : Context) (departure : SearchTime) (s : SearchState) (leg : StreetLeg) :
    Prop :=
  ∀ w ∈ c.timetable.walksFrom leg.stop,
    (walkCriteria c (legCriteria c departure leg) w).arrival ≤ latestArrival c departure →
      s.isCovered c.profile w.target 0 (walkCriteria c (legCriteria c departure leg) w) = true

instance (c : Context) (departure : SearchTime) (s : SearchState) (leg : StreetLeg) :
    Decidable (LegWalksCovered c departure s leg) :=
  inferInstanceAs (Decidable (∀ w ∈ c.timetable.walksFrom leg.stop,
    (walkCriteria c (legCriteria c departure leg) w).arrival ≤ latestArrival c departure →
      s.isCovered c.profile w.target 0 (walkCriteria c (legCriteria c departure leg) w) = true))

/-- A label of round zero is settled. If it came by a leg, the footpaths from it are covered. If it
was walked to, no leg of its iteration is as good at its stop. -/
structure IsSettled (c : Context) (s : SearchState) (stop : StopIndex)
    (label : NodeIndex × Criteria) : Prop where
  walkedFrom : (s.tree.node label.1).step.isAccess = true → ∀ w ∈ c.timetable.walksFrom stop,
    (walkCriteria c label.2 w).arrival ≤ latestOf c (s.tree.iteration label.1) →
      s.isCovered c.profile w.target 0 (walkCriteria c label.2 w) = true
  ahead : (s.tree.node label.1).step.isWalk = true → ∀ leg ∈ c.query.access.legs,
    leg.stop = stop → c.profile.atLeastAsGood
      (legCriteria c (departureOf c (s.tree.iteration label.1)) leg) label.2 = false

/-- Every label of round zero is settled. -/
def AllSettled (c : Context) (s : SearchState) : Prop :=
  ∀ stop, ∀ label ∈ (s.round 0).front stop, IsSettled c s stop label

/-- The state after the legs for the next departure time, before anybody walks on. -/
def departed (c : Context) (s : SearchState) : SearchState :=
  c.query.access.legs.toList.zipIdx.foldl (depart c (departureOf c (s.iteration + 1))
    (latestOf c (s.iteration + 1))) s.nextIteration

theorem isCovered_zero_congr (same : t.round 0 = s.round 0) {p : Profile} {criteria : Criteria} :
    t.isCovered p stop 0 criteria = s.isCovered p stop 0 criteria := by
  simp only [SearchState.isCovered, Nat.zero_add, List.range_one, List.any_cons, List.any_nil, same]

theorem Move.mem_front_of_older {i : Nat} (h : Move c round s t)
    (member : label ∈ (t.round i).front stop) (older : label.1 < s.tree.size) :
    label ∈ (s.round i).front stop := by
  cases h with
  | reach =>
      rcases SearchState.mem_front_reach member with old | ⟨⟨-, -, rfl⟩, -⟩
      · exact old
      · exact absurd older (Nat.lt_irrefl _)
  | alight =>
      rcases SearchState.mem_front_alight member with old | ⟨⟨-, -, rfl⟩, -⟩
      · exact old
      · exact absurd older (Nat.lt_irrefl _)
  | arrive => exact member
  | count => exact member

theorem Moves.mem_front_of_older {i : Nat} (h : Moves c first last s t)
    (member : label ∈ (t.round i).front stop) (older : label.1 < s.tree.size) :
    label ∈ (s.round i).front stop := by
  induction h with
  | refl => exact member
  | tail before step ih =>
      obtain ⟨_, -, move⟩ := step
      have within := Nat.lt_of_lt_of_le older (Moves.extends before).size_le
      exact ih (move.mem_front_of_older member within)

theorem Moves.not_atLeastAsGood_of_new (h : Moves c 0 0 s t) {criteria : Criteria}
    (covered : s.isCovered c.profile stop 0 criteria = true) {i : Nat}
    (new : s.tree.size ≤ i) (inside : i < t.tree.size) (atStop : (t.tree.node i).stop = stop)
    (onFoot : (t.tree.node i).step.isRide = false) :
    c.profile.atLeastAsGood criteria (t.tree.node i).criteria = false := by
  induction h with
  | refl => exact absurd inside (Nat.not_lt.2 new)
  | @tail t u before step ih =>
      obtain ⟨round, within, move⟩ := step
      obtain rfl : round = 0 := Nat.le_zero.1 within.2
      by_cases older : i < t.tree.size
      · rw [move.extends.node_eq i older] at atStop onFoot ⊢
        exact ih older atStop onFoot
      · cases move with
        | @reach node _ _ _ _ uncovered =>
            change i < (t.tree.push node).size at inside
            change ((t.tree.push node).node i).stop = stop at atStop
            change c.profile.atLeastAsGood criteria ((t.tree.push node).node i).criteria = false
            rw [JourneyTree.size_push] at inside
            obtain rfl : i = t.tree.size := by omega
            rw [JourneyTree.node_push_size] at atStop ⊢
            by_contra better
            rw [Bool.not_eq_false] at better
            have here := SearchState.isCovered_of_atLeastAsGood (Moves.isCovered before covered)
              better
            rw [← atStop, uncovered] at here
            cases here
        | @alight node _ byVehicle =>
            rw [SearchState.tree_alight] at inside onFoot
            rw [JourneyTree.size_push] at inside
            obtain rfl : i = t.tree.size := by omega
            rw [JourneyTree.node_push_size, byVehicle] at onFoot
            cases onFoot
        | arrive => exact absurd inside older
        | count => exact absurd inside older

theorem IsSettled.mono (h : IsSettled c s stop label) (older : label.1 < s.tree.size)
    (grows : s.tree.Extends t.tree)
    (kept : ∀ target criteria, s.isCovered c.profile target 0 criteria = true →
      t.isCovered c.profile target 0 criteria = true) : IsSettled c t stop label := by
  have node := grows.node_eq _ older
  refine ⟨fun byLeg w known inTime => ?_, fun walked leg member atStop => ?_⟩
  · rw [node] at byLeg
    rw [JourneyTree.iteration, node] at inTime
    exact kept _ _ (h.walkedFrom byLeg w known inTime)
  · rw [node] at walked
    rw [JourneyTree.iteration, node]
    exact h.ahead walked leg member atStop

theorem AllSettled.of_round_eq (h : AllSettled c s) (consistent : Consistent c s)
    (same : t.round 0 = s.round 0) (grows : s.tree.Extends t.tree) : AllSettled c t := by
  intro stop label inFront
  rw [same] at inFront
  exact (h stop label inFront).mono (consistent.labels 0 stop label inFront).older grows
    fun _ _ covered => (isCovered_zero_congr same).trans covered

theorem departed_moves (c : Context) (s : SearchState) :
    Moves c 0 0 s.nextIteration (departed c s) :=
  Moves.foldl fun _ member _ moves => moves.depart_moves member

theorem iteration_departed (c : Context) (s : SearchState) :
    (departed c s).iteration = s.iteration + 1 :=
  (departed_moves c s).iteration_eq

theorem runAccess_eq (c : Context) (s : SearchState) :
    runAccess c (departureOf c (s.iteration + 1)) s =
      walkFromAccess c (latestOf c (departed c s).iteration) (departed c s) := by
  rw [iteration_departed]
  rfl

theorem growsBy_departed (c : Context) (s : SearchState) :
    GrowsBy Step.isAccess s.nextIteration (departed c s) := by
  refine GrowsBy.foldl (fun t entry => ?_) _
  simp only [depart]
  split
  · exact .refl t
  · split
    · exact .refl t
    · exact .of_push rfl rfl

theorem isCovered_depart (sized : s.Sized c.timetable.nbOfStops c.query.maxBoardings)
    {leg : StreetLeg} {index : Nat} (known : leg.stop < c.timetable.nbOfStops)
    {latest : SearchTime} (inTime : (legCriteria c departure leg).arrival ≤ latest) :
    (depart c departure latest s (leg, index)).isCovered c.profile leg.stop 0
      (legCriteria c departure leg) = true := by
  have notLate : ¬latest < departure + leg.duration := Int.not_lt.2 inTime
  simp only [depart]
  rw [if_neg notLate]
  split
  · next covered => exact covered
  · refine SearchState.isCovered_insert_self ?_ ?_
    · change 0 < s.rounds.size
      rw [sized.rounds]
      omega
    · change leg.stop < (s.round 0).all.size
      rw [sized.all 0 (Nat.zero_le _)]
      exact known

theorem covered_of_walkFromAccess (h : Consistent c s) (regular : c.timetable.IsRegular)
    (inFront : label ∈ ((walkFromAccess c (latestOf c s.iteration) s).round 0).front stop)
    (older : label.1 < s.tree.size) (now : s.tree.iteration label.1 = s.iteration)
    (byLeg : (s.tree.node label.1).step.isAccess = true) {w : Walk}
    (known : w ∈ c.timetable.walksFrom stop)
    (inTime : (walkCriteria c label.2 w).arrival ≤ latestOf c s.iteration) :
    (walkFromAccess c (latestOf c s.iteration) s).isCovered c.profile w.target 0
      (walkCriteria c label.2 w) = true := by
  have start := (walkFromAccess_moves h).mem_front_of_older inFront older
  have listed := h.touched 0 stop label start now
  rw [walkFromAccess, ← Array.foldl_toList] at inFront ⊢
  have step : ∀ x ∈ (s.round 0).stops.toList, ∀ t, Moves c 0 0 s t →
      Moves c 0 0 t (walkAll c (latestOf c s.iteration) 0 x (accessLabels t x) t) := by
    intro x _ t moves
    rw [← moves.iteration_eq]
    exact walkAll_moves fun label member => canWalk_of_mem_accessLabels (h.moves moves) member
  -- The label may give way later on; up to the end it cannot have given way before.
  refine (Moves.foldl_of_mem (c := c) (P := fun t => label.1 < t.tree.size ∧
      (label ∈ (t.round 0).front stop →
        t.isCovered c.profile w.target 0 (walkCriteria c label.2 w) = true))
    (Array.mem_toList_iff.2 listed) step ?_ ?_).2 inFront
  · rintro t u moves ⟨inside, covered⟩
    refine ⟨Nat.lt_of_lt_of_le inside moves.extends.size_le, fun stays => ?_⟩
    exact moves.isCovered (covered (moves.mem_front_of_older stays inside))
  · intro t moves
    have inside := Nat.lt_of_lt_of_le older moves.extends.size_le
    have walks := step stop (Array.mem_toList_iff.2 listed) t moves
    refine ⟨Nat.lt_of_lt_of_le inside walks.extends.size_le, fun stays => ?_⟩
    have here := walks.mem_front_of_older stays inside
    have member : label ∈ accessLabels t stop := by
      simp only [accessLabels, List.mem_filter, Bool.and_eq_true, beq_iff_eq]
      refine ⟨here, ?_, ?_⟩
      · rw [JourneyTree.iteration, moves.extends.node_eq _ older, moves.iteration_eq]
        exact now
      · rw [moves.extends.node_eq _ older]
        exact byLeg
    rw [← moves.iteration_eq] at inTime ⊢
    exact walkAll_covers (h.moves moves) (Nat.zero_le _) regular
      (fun other among => canWalk_of_mem_accessLabels (h.moves moves) among) member known inTime

theorem legsCovered_departed (h : Consistent c s)
    (legs : ∀ leg ∈ c.query.access.legs, leg.stop < c.timetable.nbOfStops) :
    LegsCovered c (departureOf c (s.iteration + 1)) (departed c s) := by
  intro leg member inTime
  obtain ⟨index, inside, rfl⟩ := Array.getElem_of_mem member
  have entry : (c.query.access.legs[index], index) ∈ c.query.access.legs.toList.zipIdx :=
    List.mem_zipIdx_iff_getElem?.2 (by simp [inside])
  have step : ∀ entry ∈ c.query.access.legs.toList.zipIdx, ∀ t, Moves c 0 0 s.nextIteration t →
      Moves c 0 0 t (depart c (departureOf c (s.iteration + 1)) (latestOf c (s.iteration + 1)) t
        entry) := fun _ member _ moves => moves.depart_moves member
  exact Moves.foldl_of_mem (c := c)
    (P := fun t => t.isCovered c.profile c.query.access.legs[index].stop 0
      (legCriteria c (departureOf c (s.iteration + 1)) c.query.access.legs[index]) = true)
    entry step (fun t u moves => moves.isCovered) fun t moves =>
      isCovered_depart (h.nextIteration.moves moves).sized (legs _ member) inTime

theorem ahead_of_walked (h : Consistent c s)
    (legs : ∀ leg ∈ c.query.access.legs, leg.stop < c.timetable.nbOfStops)
    (moves : Moves c 0 0 (departed c s) t) (isLabel : IsLabel t.tree 0 stop label)
    (new : s.tree.size ≤ label.1) (now : t.tree.iteration label.1 = s.iteration + 1)
    (walked : (t.tree.node label.1).step.isWalk = true) {leg : StreetLeg}
    (member : leg ∈ c.query.access.legs) (atStop : leg.stop = stop) :
    c.profile.atLeastAsGood (legCriteria c (departureOf c (s.iteration + 1)) leg) label.2 =
      false := by
  have start : Consistent c (departed c s) := h.nextIteration.moves (departed_moves c s)
  -- Nobody who came by a leg walked to the stop, so the leg was covered before the label.
  have afterLegs : (departed c s).tree.size ≤ label.1 := by
    by_contra ofLeg
    rw [Nat.not_le] at ofLeg
    have byLeg := (growsBy_departed c s).ofKind _ new ofLeg
    rw [moves.extends.node_eq _ ofLeg] at walked
    rw [Step.isAccess_eq_false_of_isWalk walked] at byLeg
    cases byLeg
  have early := ((start.moves moves).follows _ isLabel.older).arrival_le_latestOf
  change _ ≤ latestOf c (t.tree.iteration label.1) at early
  rw [now] at early
  rw [← isLabel.criteria_eq]
  by_contra better
  rw [Bool.not_eq_false] at better
  have inTime := Int.le_trans (Profile.arrival_le_of_atLeastAsGood better) early
  have behind := moves.not_atLeastAsGood_of_new (legsCovered_departed h legs leg member inTime)
    afterLegs isLabel.older (isLabel.stop_eq.trans atStop.symm)
    (Step.isRide_eq_false_of_isWalk walked)
  rw [better] at behind
  cases behind

theorem AllSettled.runAccess (settled : AllSettled c s) (h : Consistent c s)
    (regular : c.timetable.IsRegular)
    (legs : ∀ leg ∈ c.query.access.legs, leg.stop < c.timetable.nbOfStops) :
    AllSettled c (runAccess c (departureOf c (s.iteration + 1)) s) := by
  have departs := departed_moves c s
  have start : Consistent c (departed c s) := h.nextIteration.moves departs
  have walks := walkFromAccess_moves start
  have onFoot := onFoot_walkFromAccess (c := c) (latestOf c (departed c s).iteration) (departed c s)
  have all : Moves c 0 0 s.nextIteration _ := departs.trans walks
  rw [runAccess_eq]
  intro stop label inFront
  have isLabel := (start.moves walks).labels 0 stop label inFront
  by_cases older : label.1 < s.tree.size
  · have before := all.mem_front_of_older inFront older
    rw [SearchState.front_nextIteration] at before
    refine (settled stop label before).mono older all.extends fun _ _ covered => all.isCovered ?_
    simpa only [SearchState.isCovered, SearchState.front_nextIteration] using covered
  · have now := all.iteration_of_new (i := label.1) (Nat.not_lt.1 older) isLabel.older
    rw [walks.iteration_eq] at now
    refine ⟨fun byLeg w known inTime => ?_, fun walked leg member atStop => ?_⟩
    · -- Nobody who walked to the stop came by a leg, so the label is of the legs.
      have ofLeg : label.1 < (departed c s).tree.size := by
        by_contra new
        have walked := onFoot.ofKind _ (Nat.not_lt.1 new) isLabel.older
        rw [Step.isAccess_eq_false_of_isWalk walked] at byLeg
        cases byLeg
      have node := walks.extends.node_eq _ ofLeg
      rw [now] at inTime
      rw [JourneyTree.iteration, node] at now
      rw [node] at byLeg
      exact covered_of_walkFromAccess start regular inFront ofLeg now byLeg known inTime
    · rw [now, iteration_departed]
      exact ahead_of_walked h legs walks isLabel (Nat.not_lt.1 older)
        (now.trans (iteration_departed c s)) walked member atStop

theorem round_zero_stateAfter {count : Nat} (more : count < c.query.departureTimes.length) :
    let start := Search.runAccess c (departureOf c (count + 1)) (stateAfter c count)
    (stateAfter c (count + 1)).round 0 = start.round 0 ∧
      start.tree.Extends (stateAfter c (count + 1)).tree := by
  intro start
  obtain ⟨consistent, number⟩ := stateAfter_spec (c := c) (Nat.le_of_lt more)
  have access := runAccess_moves consistent
  have walked := consistent.nextIteration.moves access
  rw [number] at access walked
  have now : start.iteration = count + 1 := access.iteration_eq.trans (congrArg (· + 1) number)
  rw [stateAfter_succ more]
  rw [fullIteration_eq]
  split
  · have kept := sameButArrived_arriveOnFoot (c := c)
      (latestArrival c (departureOf c (count + 1))) start
    refine ⟨kept.round_eq 0, ?_⟩
    rw [kept.tree_eq]
    exact .refl _
  · have rounds := allRounds_moves c.query.maxBoardings 0 walked (by omega)
    rw [now] at rounds
    exact ⟨rounds.round_eq Nat.one_pos, rounds.extends⟩

theorem allSettled_stateAfter (regular : c.timetable.IsRegular)
    (legs : ∀ leg ∈ c.query.access.legs, leg.stop < c.timetable.nbOfStops) {count : Nat}
    (within : count ≤ c.query.departureTimes.length) : AllSettled c (stateAfter c count) := by
  induction count with
  | zero =>
      intro stop label inFront
      rw [stateAfter, List.take_zero, List.foldl_nil, (SearchState.initial_fronts _ _ 0 stop).1]
        at inFront
      cases inFront
  | succ count ih =>
      obtain ⟨consistent, number⟩ := stateAfter_spec (c := c) (Nat.le_of_lt within)
      have access := (ih (by omega)).runAccess consistent regular legs
      have start := consistent.nextIteration.moves (runAccess_moves consistent)
      rw [number] at access start
      obtain ⟨same, grows⟩ := round_zero_stateAfter within
      exact access.of_round_eq start same grows

theorem atLeastAsGood_legCriteria {later : SearchTime} (le : departure ≤ later) (leg : StreetLeg) :
    c.profile.atLeastAsGood (legCriteria c departure leg) (legCriteria c later leg) = true :=
  (Profile.atLeastAsGood_iff _ _ _).2
    ⟨SearchTime.add_le_add le _, fun _ => ⟨Nat.le_refl _, Nat.le_refl _⟩⟩

theorem departureOf_eq_or_le {first later : Nat} (positive : 1 ≤ first) (le : first ≤ later)
    (within : later ≤ c.query.departureTimes.length) :
    departureOf c later = departureOf c first ∨ -2147483648 ≤ (departureOf c later).seconds := by
  rcases Nat.eq_or_lt_of_le le with rfl | less
  · exact .inl rfl
  · refine .inr ?_
    have inside : later - 1 < c.query.departureTimes.length := by omega
    have member : departureOf c later ∈ c.query.departureTimes := by
      simp [departureOf, inside]
    simp only [Query.departureTimes] at member within
    split at member
    · next single =>
        rw [if_pos single, List.length_singleton] at within
        omega
    · obtain ⟨index, -, entry⟩ := List.mem_map.1 member
      rw [← entry, SearchTime.seconds_add, clampWord]
      omega

/-- Who has walked to the stop of a leg for a later departure time, ahead of the leg for that time,
beats the leg if he is at least as good. -/
theorem isBeaten_of_ahead {later : SearchTime} (le : departure ≤ later)
    (low : departure = later ∨ -2147483648 ≤ departure.seconds) {leg other : StreetLeg}
    (among : other ∈ c.query.access.legs) {w : Walk} (known : w ∈ c.timetable.walksFrom other.stop)
    (target : w.target = leg.stop)
    (better : c.profile.atLeastAsGood (walkCriteria c (legCriteria c later other) w)
      (legCriteria c departure leg) = true)
    (ahead : c.profile.atLeastAsGood (legCriteria c later leg)
      (walkCriteria c (legCriteria c later other) w) = false) :
    IsBeaten c departure leg := by
  refine ⟨other, among, w, known, target, ?_, ?_⟩
  · exact Profile.atLeastAsGood_trans _ _ _ _
      (Profile.atLeastAsGood_walkCriteria c (atLeastAsGood_legCriteria le other) w) better
  · by_contra tied
    rw [Bool.not_eq_false, Profile.atLeastAsGood_iff] at tied
    have back := Profile.arrival_le_of_atLeastAsGood better
    have asGood : c.profile.atLeastAsGood (legCriteria c later leg)
        (walkCriteria c (legCriteria c later other) w) = true :=
      (Profile.atLeastAsGood_iff _ _ _).2
        ⟨SearchTime.add_le_add_add_of_later le low tied.1 back, tied.2⟩
    rw [asGood] at ahead
    cases ahead

theorem legWalksCovered_of_not_isBeaten (regular : c.timetable.IsRegular)
    (legs : ∀ leg ∈ c.query.access.legs, leg.stop < c.timetable.nbOfStops) {count : Nat}
    (more : count < c.query.departureTimes.length) {leg : StreetLeg}
    (isLeg : leg ∈ c.query.access.legs)
    (covered : (stateAfter c (count + 1)).isCovered c.profile leg.stop 0
      (legCriteria c (departureOf c (count + 1)) leg) = true)
    (notBeaten : ¬IsBeaten c (departureOf c (count + 1)) leg) :
    LegWalksCovered c (departureOf c (count + 1)) (stateAfter c (count + 1)) leg := by
  intro w known inTime
  have within : count + 1 ≤ c.query.departureTimes.length := more
  have consistent := (stateAfter_spec (c := c) within).1
  obtain ⟨i, zero, here⟩ := SearchState.isCovered_iff.1 covered
  obtain rfl : i = 0 := Nat.le_zero.1 zero
  obtain ⟨label, inFront, better⟩ := Front.covers_iff.1 here
  have isLabel := consistent.labels 0 leg.stop label inFront
  have settled := allSettled_stateAfter regular legs within leg.stop label inFront
  have trips : ((stateAfter c (count + 1)).tree.node label.1).criteria.nbOfTrips = 0 := by
    rw [isLabel.criteria_eq, isLabel.trips]
  obtain ⟨positive, past, -⟩ := lt_size_stateAfter within isLabel.older
  obtain ⟨other, among, ⟨byLeg, -⟩ | ⟨walked, v, walks, target, criteria⟩⟩ :=
    consistent.criteria_of_onFoot isLabel.older trips
  · have sooner := Profile.atLeastAsGood_walkCriteria c better w
    have early : (walkCriteria c label.2 w).arrival ≤
        latestOf c ((stateAfter c (count + 1)).tree.iteration label.1) :=
      Int.le_trans (Profile.arrival_le_of_atLeastAsGood sooner)
        (Int.le_trans inTime (latestOf_antitone positive past within))
    exact SearchState.isCovered_of_atLeastAsGood (settled.walkedFrom byLeg w known early) sooner
  · have ahead := settled.ahead walked leg isLeg rfl
    rw [← isLabel.criteria_eq, criteria] at better ahead
    exact absurd (isBeaten_of_ahead (departureOf_antitone positive past within)
      (departureOf_eq_or_le positive past within) among walks (target.trans isLabel.stop_eq) better
      ahead) notBeaten

theorem covered_runAccess (regular : c.timetable.IsRegular)
    (legs : ∀ leg ∈ c.query.access.legs, leg.stop < c.timetable.nbOfStops) {count : Nat}
    (more : count < c.query.departureTimes.length) :
    let start := Search.runAccess c (departureOf c (count + 1)) (stateAfter c count)
    LegsCovered c (departureOf c (count + 1)) start ∧
      ∀ leg ∈ c.query.access.legs,
        (legCriteria c (departureOf c (count + 1)) leg).arrival ≤
            latestArrival c (departureOf c (count + 1)) →
          ¬IsBeaten c (departureOf c (count + 1)) leg →
            LegWalksCovered c (departureOf c (count + 1)) start leg := by
  intro start
  obtain ⟨consistent, number⟩ := stateAfter_spec (c := c) (Nat.le_of_lt more)
  have walks := walkFromAccess_moves (consistent.nextIteration.moves (departed_moves c _))
  have departed := legsCovered_departed consistent legs
  have covered : LegsCovered c (departureOf c (count + 1)) start := by
    intro leg member inTime
    rw [number] at departed
    have covered := walks.isCovered (departed leg member inTime)
    rw [← runAccess_eq, number] at covered
    exact covered
  have same := (round_zero_stateAfter more).1
  refine ⟨covered, fun leg member inTime notBeaten w known early => ?_⟩
  have here := covered leg member inTime
  rw [← isCovered_zero_congr same] at here ⊢
  exact legWalksCovered_of_not_isBeaten regular legs more member here notBeaten w known early

end JourneyPlanner.Search
