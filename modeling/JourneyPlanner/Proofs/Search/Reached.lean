import JourneyPlanner.Proofs.Search.Run

/-!
The states that a search can reach from the empty one. From one of them to the next, another
departure time begins or one move of a round is made: a label is put into the fronts of its stop, or a
journey arrives at the destination.
-/

namespace JourneyPlanner

/-- The first half of getting off: the label is in the front of the arrivals by vehicle, and not yet
in the front of all arrivals. -/
def SearchState.stepOff (p : Profile) (s : SearchState) (round : Nat) (node : Node) : SearchState :=
  (s.pushNode node).insertTransit p node.stop round s.tree.size node.criteria

theorem SearchState.alight_eq (p : Profile) (s : SearchState) (round : Nat) (node : Node) :
    s.alight p round node =
      if (s.stepOff p round node).isCovered p node.stop round node.criteria then
        s.stepOff p round node
      else (s.stepOff p round node).insert p node.stop round s.tree.size node.criteria := rfl

namespace SearchState

variable (p : Profile) (s : SearchState) (round : Nat) (node : Node)

@[simp] theorem front_stepOff (i : Nat) (x : StopIndex) :
    ((s.stepOff p round node).round i).front x = (s.round i).front x := by
  rw [stepOff, front_insertTransit, round_pushNode]

theorem isCovered_stepOff (stop : StopIndex) (last : Nat) (criteria : Criteria) :
    (s.stepOff p round node).isCovered p stop last criteria = s.isCovered p stop last criteria := by
  simp only [isCovered, front_stepOff]

theorem Sized.stepOff {s : SearchState} {nbOfStops last : Nat} (h : s.Sized nbOfStops last)
    (p : Profile) (round : Nat) (node : Node) : (s.stepOff p round node).Sized nbOfStops last :=
  (h.pushNode node).insertTransit _ _ _ _ _

theorem transitFront_alight (i : Nat) (x : StopIndex) :
    ((s.alight p round node).round i).transitFront x =
      ((s.stepOff p round node).round i).transitFront x := by
  rw [alight_eq]
  split
  · rfl
  · exact transitFront_insert _ _ _ _ _ _ _ _

@[simp] theorem front_nextIteration (i : Nat) (x : StopIndex) :
    (s.nextIteration.round i).front x = (s.round i).front x := by
  rw [round_nextIteration]
  rfl

@[simp] theorem transitFront_nextIteration (i : Nat) (x : StopIndex) :
    (s.nextIteration.round i).transitFront x = (s.round i).transitFront x := by
  rw [round_nextIteration]
  rfl

end SearchState

namespace Search

/-- What can come next in a search: another departure time of the range, or a move of a round. -/
inductive Next (c : Context) (s : SearchState) : SearchState → Prop
  | iteration (more : s.iteration < c.query.departureTimes.length) : Next c s s.nextIteration
  | move {round : Nat} {t : SearchState} (move : Move c round s t) : Next c s t

/-- A state that is the same or follows. -/
abbrev Later (c : Context) : SearchState → SearchState → Prop :=
  Relation.ReflTransGen (Next c)

/-- A state that follows from the empty one. -/
def Reached (c : Context) (s : SearchState) : Prop :=
  Later c (SearchState.initial c.timetable.nbOfStops c.query.maxBoardings) s

variable {c : Context} {round first last : Nat} {s t : SearchState}

theorem Moves.later (h : Moves c first last s t) : Later c s t := by
  induction h with
  | refl => exact .refl
  | tail _ step ih =>
      obtain ⟨round, -, move⟩ := step
      exact ih.tail (.move move)

theorem Reached.moves (h : Reached c s) (moves : Moves c first last s t) : Reached c t :=
  Relation.ReflTransGen.trans h moves.later

theorem Next.consistent (h : Next c s t) (consistent : Consistent c s) : Consistent c t := by
  cases h with
  | iteration => exact consistent.nextIteration
  | move move => exact consistent.move move

theorem Later.consistent (h : Later c s t) (consistent : Consistent c s) : Consistent c t := by
  induction h with
  | refl => exact consistent
  | tail _ next ih => exact next.consistent ih

theorem Later.extends (h : Later c s t) : s.tree.Extends t.tree := by
  induction h with
  | refl => exact .refl _
  | tail _ next ih =>
      cases next with
      | iteration => exact ih
      | move move => exact ih.trans move.extends

theorem Reached.consistent (h : Reached c s) : Consistent c s :=
  Later.consistent h (Consistent.initial c)

theorem Reached.iteration_le (h : Reached c s) :
    s.iteration ≤ c.query.departureTimes.length := by
  rw [Reached] at h
  induction h with
  | refl => exact Nat.zero_le _
  | tail _ next ih =>
      cases next with
      | iteration more => exact more
      | move move => exact Nat.le_trans (Nat.le_of_eq move.iteration_eq) ih

theorem Reached.fullIteration (reached : Reached c s)
    (more : s.iteration < c.query.departureTimes.length) :
    Reached c (fullIteration c s (departureOf c (s.iteration + 1))) := by
  have begun : Reached c s.nextIteration := .tail reached (.iteration more)
  exact begun.moves (fullIteration_moves reached.consistent)

theorem later_stateAfter_succ {count : Nat} (more : count < c.query.departureTimes.length) :
    Later c (stateAfter c count) (stateAfter c (count + 1)) := by
  obtain ⟨consistent, number⟩ := stateAfter_spec (c := c) (Nat.le_of_lt more)
  have begins : Next c (stateAfter c count) (stateAfter c count).nextIteration :=
    .iteration (number.symm ▸ more)
  have moves := fullIteration_moves consistent
  rw [number, ← stateAfter_succ more] at moves
  exact Relation.ReflTransGen.head begins moves.later

theorem later_stateAfter {count more : Nat} (le : count ≤ more)
    (within : more ≤ c.query.departureTimes.length) :
    Later c (stateAfter c count) (stateAfter c more) := by
  induction le with
  | refl => exact .refl
  | step _ ih => exact (ih (by omega)).trans (later_stateAfter_succ (by omega))

theorem reached_stateAfter {count : Nat} (within : count ≤ c.query.departureTimes.length) :
    Reached c (stateAfter c count) :=
  later_stateAfter (Nat.zero_le _) within

end Search

end JourneyPlanner
