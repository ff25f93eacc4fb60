import JourneyPlanner.Proofs.Search.Fronts

/-!
What the fronts tell in the standard profile: by when a stop is reached, and by when it is reached
by vehicle. Who arrives there plays no part in it. A step of a search adds facts, and what a fold
of steps adds is all that the steps add, in whatever order they are made.
-/

namespace JourneyPlanner.Search

/-- Somebody has got to a stop at a time or before; or has even left a vehicle there by then. -/
structure Fact where
  stop : StopIndex
  time : SearchTime
  byVehicle : Bool

/-- What follows from a fact alone: the same for all later times, and an arrival by vehicle is an
arrival. -/
structure Fact.FollowsFrom (cause fact : Fact) : Prop where
  stop_eq : fact.stop = cause.stop
  time_le : cause.time ≤ fact.time
  byVehicle : fact.byVehicle = true → cause.byVehicle = true

/-- The labels of a stop in a round: the arrivals by vehicle, or all arrivals. -/
def labelsAt (s : SearchState) (round : Nat) (stop : StopIndex) (byVehicle : Bool) : StopFront :=
  if byVehicle then (s.round round).transitFront stop else (s.round round).front stop

/-- The facts that a state knows from its rounds up to a given one. -/
def Knows (s : SearchState) (round : Nat) (fact : Fact) : Prop :=
  ∃ i ≤ round, ∃ label ∈ labelsAt s i fact.stop fact.byVehicle, label.2.arrival ≤ fact.time

variable {c : Context} {s t u : SearchState} {round first last nbOfStops : Nat} {fact cause : Fact}
  {stop : StopIndex} {time : SearchTime} {criteria : Criteria} {index : NodeIndex}

theorem Fact.FollowsFrom.refl (fact : Fact) : fact.FollowsFrom fact :=
  ⟨rfl, Int.le_refl _, id⟩

theorem knows_iff_isCovered {p : Profile} (standard : p = .standard) :
    Knows s round ⟨stop, criteria.arrival, false⟩ ↔
      s.isCovered p stop round criteria = true := by
  simp only [standard, SearchState.isCovered_iff, Front.covers_iff, Profile.atLeastAsGood,
    decide_eq_true_eq]
  exact Iff.rfl

theorem knows_iff_isCoveredByTransit {p : Profile} (standard : p = .standard) :
    Knows s round ⟨stop, criteria.arrival, true⟩ ↔
      s.isCoveredByTransit p stop round criteria = true := by
  simp only [standard, SearchState.isCoveredByTransit_iff, Front.covers_iff, Profile.atLeastAsGood,
    decide_eq_true_eq]
  exact Iff.rfl

theorem Knows.round_mono {more : Nat} (h : Knows s round fact) (le : round ≤ more) :
    Knows s more fact := by
  obtain ⟨i, within, found⟩ := h
  exact ⟨i, Nat.le_trans within le, found⟩

theorem Knows.mono {later : SearchTime} {byVehicle : Bool}
    (h : Knows s round ⟨stop, time, byVehicle⟩)
    (le : time ≤ later) : Knows s round ⟨stop, later, byVehicle⟩ := by
  obtain ⟨i, within, label, member, arrival⟩ := h
  exact ⟨i, within, label, member, Int.le_trans arrival le⟩

theorem knows_congr
    (same : ∀ i ≤ round, ∀ stop byVehicle,
      labelsAt t i stop byVehicle = labelsAt s i stop byVehicle) :
    Knows t round fact ↔ Knows s round fact := by
  refine exists_congr fun i => and_congr_right fun within => ?_
  rw [same i within]

theorem labelsAt_congr {i : Nat} (same : t.round i = s.round i) (stop : StopIndex)
    (byVehicle : Bool) : labelsAt t i stop byVehicle = labelsAt s i stop byVehicle := by
  rw [labelsAt, labelsAt, same]

theorem Later.knows (h : Later c s t) (standard : c.profile = .standard)
    (known : Knows s round fact) : Knows t round fact := by
  have retains := (GoesOn.later h).retains
  obtain ⟨stop, time, byVehicle⟩ := fact
  let criteria : Criteria := ⟨time, 0, .zero⟩
  cases byVehicle with
  | false =>
      have covered := (knows_iff_isCovered standard).1
        (show Knows s round ⟨stop, criteria.arrival, false⟩ from known)
      exact (knows_iff_isCovered standard).2 (retains.covered stop round criteria covered)
  | true =>
      have covered := (knows_iff_isCoveredByTransit standard).1
        (show Knows s round ⟨stop, criteria.arrival, true⟩ from known)
      exact (knows_iff_isCoveredByTransit standard).2
        (retains.coveredByTransit stop round criteria covered)

theorem Reached.knows_stop (h : Reached c s) (standard : c.profile = .standard)
    (known : Knows s round ⟨stop, time, true⟩) : Knows s round ⟨stop, time, false⟩ := by
  obtain ⟨i, within, label, member, arrival⟩ := known
  have covered := h.inOrder.transitCovered i stop label member (by simp)
  exact (((knows_iff_isCovered standard).2 covered).round_mono within).mono arrival

theorem Reached.knows_of_followsFrom (h : Reached c s) (standard : c.profile = .standard)
    (known : Knows s round cause) (follows : cause.FollowsFrom fact) : Knows s round fact := by
  obtain ⟨stop, time, byVehicle⟩ := fact
  obtain ⟨same, le, vehicle⟩ := follows
  dsimp only at same le vehicle
  subst same
  have sooner : Knows s round ⟨cause.stop, time, cause.byVehicle⟩ := known.mono le
  cases byVehicle with
  | true =>
      rw [vehicle rfl] at sooner
      exact sooner
  | false =>
      cases rides : cause.byVehicle with
      | true =>
          rw [rides] at sooner
          exact h.knows_stop standard sooner
      | false =>
          rw [rides] at sooner
          exact sooner

theorem Moves.round_eq_of_ne (h : Moves c round round s t) {i : Nat} (other : i ≠ round) :
    t.round i = s.round i := by
  induction h with
  | refl => rfl
  | tail _ step ih =>
      obtain ⟨j, within, move⟩ := step
      rw [move.round_eq (by omega), ih]

theorem knows_iff_of_moves (standard : c.profile = .standard) (moves : Moves c round round s t)
    (upTo : Nat) :
    Knows t upTo fact ↔ Knows s upTo fact ∨ round ≤ upTo ∧ Knows t round fact := by
  constructor
  · rintro ⟨i, within, label, member, arrival⟩
    by_cases here : i = round
    · subst here
      exact .inr ⟨within, i, Nat.le_refl _, label, member, arrival⟩
    · rw [labelsAt_congr (moves.round_eq_of_ne here)] at member
      exact .inl ⟨i, within, label, member, arrival⟩
  · rintro (known | ⟨reaches, known⟩)
    · exact moves.later.knows standard known
    · exact known.round_mono reaches

/-- The second state knows what the first one knows, and the facts that are added. -/
def Adds (round : Nat) (s t : SearchState) (added : Fact → Prop) : Prop :=
  ∀ fact, Knows t round fact ↔ Knows s round fact ∨ added fact

namespace Adds

variable {added more : Fact → Prop}

theorem of_known (known : ∀ fact, added fact → Knows s round fact) : Adds round s s added :=
  fun fact => ⟨.inl, fun h => h.elim id (known fact)⟩

theorem trans (h : Adds round s t added) (next : Adds round t u more) :
    Adds round s u fun fact => added fact ∨ more fact := by
  intro fact
  rw [next fact, h fact, or_assoc]

theorem congr (h : Adds round s t added) (same : ∀ fact, more fact ↔ added fact) :
    Adds round s t more := by
  intro fact
  rw [h fact, same fact]

theorem of_round_eq (h : Adds round s t added) (same : ∀ i, u.round i = t.round i) :
    Adds round s u added := by
  intro fact
  rw [knows_congr fun i _ => labelsAt_congr (same i), h fact]

theorem foldl {f : SearchState → α → SearchState} {l : List α} {added : α → Fact → Prop}
    {P : SearchState → Prop} (start : P s)
    (step : ∀ a ∈ l, ∀ t, P t → P (f t a) ∧ Adds round t (f t a) (added a)) :
    P (l.foldl f s) ∧ Adds round s (l.foldl f s) fun fact => ∃ a ∈ l, added a fact := by
  induction l generalizing s with
  | nil => exact ⟨start, of_known fun _ none => by simp at none⟩
  | cons a l ih =>
      obtain ⟨here, adds⟩ := step a List.mem_cons_self s start
      obtain ⟨after, rest⟩ := ih here fun b member => step b (List.mem_cons_of_mem _ member)
      refine ⟨after, (adds.trans rest).congr fun fact => ?_⟩
      simp

end Adds

theorem knows_iff_of_pushed {byVehicle : Bool}
    (pushed : labelsAt t round stop byVehicle =
      (labelsAt s round stop byVehicle).pruneAndPush Profile.standard.atLeastAsGood index criteria)
    (others : ∀ i x kind, ¬(i = round ∧ x = stop ∧ kind = byVehicle) →
      labelsAt t i x kind = labelsAt s i x kind) :
    Knows t round fact ↔ Knows s round fact ∨
      fact.byVehicle = byVehicle ∧ fact.stop = stop ∧ criteria.arrival ≤ fact.time := by
  constructor
  · rintro ⟨i, within, label, member, arrival⟩
    by_cases here : i = round ∧ fact.stop = stop ∧ fact.byVehicle = byVehicle
    · obtain ⟨rfl, atStop, kind⟩ := here
      rw [atStop, kind, pushed] at member
      rcases Front.mem_pruneAndPush.1 member with old | rfl
      · exact .inl ⟨i, within, label, by rw [atStop, kind]; exact old.1, arrival⟩
      · exact .inr ⟨kind, atStop, arrival⟩
    · rw [others _ _ _ here] at member
      exact .inl ⟨i, within, label, member, arrival⟩
  · rintro (⟨i, within, label, member, arrival⟩ | ⟨kind, atStop, arrival⟩)
    · by_cases here : i = round ∧ fact.stop = stop ∧ fact.byVehicle = byVehicle
      · obtain ⟨rfl, atStop, kind⟩ := here
        rw [atStop, kind] at member
        obtain ⟨kept, inFront, sooner, -⟩ := Front.exists_mem_pruneAndPush
          Profile.standard.atLeastAsGood_refl member index criteria
        rw [← pushed, ← atStop, ← kind] at inFront
        exact ⟨i, within, kept, inFront, Int.le_trans (of_decide_eq_true sooner) arrival⟩
      · exact ⟨i, within, label, by rwa [others _ _ _ here], arrival⟩
    · refine ⟨round, Nat.le_refl _, (index, criteria), ?_, arrival⟩
      rw [atStop, kind, pushed]
      exact Front.mem_pruneAndPush.2 (.inr rfl)

theorem knows_insert_iff (sized : s.Sized nbOfStops last) (allowed : round ≤ last)
    (known : stop < nbOfStops) :
    Knows (s.insert .standard stop round index criteria) round fact ↔ Knows s round fact ∨
      fact.byVehicle = false ∧ fact.stop = stop ∧ criteria.arrival ≤ fact.time := by
  have inRounds : round < s.rounds.size := by
    rw [sized.rounds]
    omega
  have inRound : stop < (s.round round).all.size := by
    rw [sized.all round allowed]
    exact known
  have pushed : labelsAt (s.insert .standard stop round index criteria) round stop false =
      (labelsAt s round stop false).pruneAndPush Profile.standard.atLeastAsGood index criteria :=
    (SearchState.front_insert ..).trans (if_pos ⟨⟨rfl, inRounds⟩, rfl, inRound⟩)
  refine knows_iff_of_pushed pushed fun i x kind other => ?_
  cases kind with
  | true => exact SearchState.transitFront_insert ..
  | false =>
      refine (SearchState.front_insert ..).trans (if_neg fun here => other ?_)
      exact ⟨here.1.1.symm, here.2.1.symm, rfl⟩

theorem knows_insertTransit_iff (sized : s.Sized nbOfStops last) (allowed : round ≤ last)
    (known : stop < nbOfStops) :
    Knows (s.insertTransit .standard stop round index criteria) round fact ↔ Knows s round fact ∨
      fact.byVehicle = true ∧ fact.stop = stop ∧ criteria.arrival ≤ fact.time := by
  have inRounds : round < s.rounds.size := by
    rw [sized.rounds]
    omega
  have inRound : stop < (s.round round).transit.size := by
    rw [sized.transit round allowed]
    exact known
  have pushed : labelsAt (s.insertTransit .standard stop round index criteria) round stop true =
      (labelsAt s round stop true).pruneAndPush Profile.standard.atLeastAsGood index criteria :=
    (SearchState.transitFront_insertTransit ..).trans (if_pos ⟨⟨rfl, inRounds⟩, rfl, inRound⟩)
  refine knows_iff_of_pushed pushed fun i x kind other => ?_
  cases kind with
  | false => exact SearchState.front_insertTransit ..
  | true =>
      refine (SearchState.transitFront_insertTransit ..).trans (if_neg fun here => other ?_)
      exact ⟨here.1.1.symm, here.2.1.symm, rfl⟩

theorem adds_reach (sized : s.Sized nbOfStops last) (allowed : round ≤ last) (node : Node)
    (known : node.stop < nbOfStops) :
    Adds round s (s.reach .standard round node)
      (Fact.FollowsFrom ⟨node.stop, node.criteria.arrival, false⟩) := by
  intro fact
  refine (knows_insert_iff (sized.pushNode node) allowed known).trans (or_congr Iff.rfl ?_)
  constructor
  · rintro ⟨onFoot, atStop, le⟩
    exact ⟨atStop, le, fun rides => by simp [onFoot] at rides⟩
  · rintro ⟨atStop, le, vehicle⟩
    refine ⟨Bool.eq_false_iff.2 fun rides => ?_, atStop, le⟩
    cases vehicle rides

theorem adds_alight (sized : s.Sized nbOfStops last) (allowed : round ≤ last) (node : Node)
    (known : node.stop < nbOfStops) :
    Adds round s (s.alight .standard round node)
      (Fact.FollowsFrom ⟨node.stop, node.criteria.arrival, true⟩) := by
  have half := sized.stepOff .standard round node
  have steps (fact : Fact) : Knows (s.stepOff .standard round node) round fact ↔
      Knows s round fact ∨ fact.byVehicle = true ∧ fact.stop = node.stop ∧
        node.criteria.arrival ≤ fact.time :=
    knows_insertTransit_iff (sized.pushNode node) allowed known
  have follows (fact : Fact) :
      (fact.byVehicle = true ∧ fact.stop = node.stop ∧ node.criteria.arrival ≤ fact.time ∨
        fact.byVehicle = false ∧ fact.stop = node.stop ∧ node.criteria.arrival ≤ fact.time) ↔
          Fact.FollowsFrom ⟨node.stop, node.criteria.arrival, true⟩ fact := by
    constructor
    · rintro (⟨-, atStop, le⟩ | ⟨-, atStop, le⟩)
      · exact ⟨atStop, le, fun _ => rfl⟩
      · exact ⟨atStop, le, fun _ => rfl⟩
    · rintro ⟨atStop, le, -⟩
      cases kind : fact.byVehicle with
      | true => exact .inl ⟨rfl, atStop, le⟩
      | false => exact .inr ⟨rfl, atStop, le⟩
  intro fact
  rw [SearchState.alight_eq]
  split
  · next covered =>
      rw [steps, ← follows, ← or_assoc, ← steps]
      refine ⟨.inl, fun h => h.elim id ?_⟩
      rintro ⟨kind, atStop, le⟩
      obtain ⟨i, within, found⟩ := SearchState.isCovered_iff.1 covered
      obtain ⟨label, member, sooner⟩ := Front.covers_iff.1 found
      refine ⟨i, within, label, ?_, Int.le_trans (of_decide_eq_true sooner) le⟩
      rw [atStop, kind]
      exact member
  · rw [knows_insert_iff half allowed known, steps, or_assoc, follows]

end JourneyPlanner.Search
