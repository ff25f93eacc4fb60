import JourneyPlanner.Proofs.Search.Reached

/-!
The stages of a search: its states in the order in which they come up, one after each label that is
put into a front and each journey that arrives. Every function of the search has its own stages, and
those of a fold are the stages of its steps. Somebody who gets off is put into two fronts one after
the other, so there is a stage halfway. A search that is cut short ends at one of the stages.
-/

namespace JourneyPlanner.Search

/-- A state, and the label that is still to be put into the front of all arrivals, if there is
one. -/
structure Stage where
  pending : Option (NodeIndex × Criteria)
  state : SearchState

namespace Stage

def settled (s : SearchState) : Stage :=
  ⟨none, s⟩

/-- A node has been put into the front of the arrivals by vehicle. -/
def halfway (p : Profile) (round : Nat) (s : SearchState) (node : Node) : Stage :=
  ⟨some (s.tree.size, node.criteria), s.stepOff p round node⟩

end Stage

/-- The stages of a fold, when those of each step are known. -/
def stagesOf (f : σ → α → σ) (stages : σ → α → List Stage) : σ → List α → List Stage
  | _, [] => []
  | s, a :: rest => stages s a ++ stagesOf f stages (f s a) rest

theorem stagesOf_append (f : σ → α → σ) (stages : σ → α → List Stage) (s : σ) (l m : List α) :
    stagesOf f stages s (l ++ m) = stagesOf f stages s l ++ stagesOf f stages (l.foldl f s) m := by
  induction l generalizing s with
  | nil => rfl
  | cons a rest ih => rw [List.cons_append, stagesOf, stagesOf, ih, List.append_assoc, List.foldl_cons]

/-- The stages of a fold with one stage for each step. -/
def stepStages (f : SearchState → α → SearchState) : SearchState → List α → List Stage :=
  stagesOf f fun s a => [.settled (f s a)]

section

variable (c : Context) (latest : SearchTime) (round : Nat)

def walkAllStages (stop : StopIndex) (labels : StopFront) (s : SearchState) : List Stage :=
  stagesOf (fun s label => (c.timetable.walksFrom stop).foldl (walk c latest round label) s)
    (fun s label => stepStages (walk c latest round label) s (c.timetable.walksFrom stop)) s labels

def walkFromAccessStages (s : SearchState) : List Stage :=
  stagesOf (fun s stop => walkAll c latest 0 stop (accessLabels s stop) s)
    (fun s stop => walkAllStages c latest 0 stop (accessLabels s stop) s) s (s.round 0).stops.toList

def walkFromTransitStages (s : SearchState) : List Stage :=
  stagesOf (fun s stop => walkAll c latest round stop (transitLabels s round stop) s)
    (fun s stop => walkAllStages c latest round stop (transitLabels s round stop) s) s
    (s.round round).transitStops.toList

def debarkStages (line : LineIndex) (position : Nat) (stop : StopIndex) (s : SearchState)
    (o : Onboard × Criteria) : List Stage :=
  if latest < o.2.arrival then []
  else if s.isCoveredByTransit c.profile stop round o.2 then []
  else
    let node : Node := ⟨stop, o.2, o.1.departure, s.iteration,
      .ride o.1.parent line o.1.trip o.1.boardPosition o.1.boardTime position⟩
    [.halfway c.profile round s node, .settled (s.alight c.profile round node),
      .settled (debark c latest round line position stop s o)]

def visitStages (line : LineIndex) (ride : Front Onboard Criteria × SearchState) (position : Nat) :
    List Stage :=
  let stop := (c.timetable.line line).stopAt position
  stagesOf (debark c latest round line position stop)
    (debarkStages c latest round line position stop) ride.2 ride.1

def rideStages (s : SearchState) (entry : LineIndex × Nat) : List Stage :=
  let positions := List.range' entry.2 ((c.timetable.line entry.1).nbOfPositions - entry.2)
  let counted := { s with nbOfScans := s.nbOfScans + 1 }
  .settled counted :: stagesOf (visit c latest round entry.1) (visitStages c latest round entry.1)
    ([], counted) positions

def runRoundStages (lines : List (LineIndex × Nat)) (s : SearchState) : List Stage :=
  let counted := { s with lastRound := max s.lastRound round }
  .settled counted :: (stagesOf (ride c latest round) (rideStages c latest round) counted lines ++
    walkFromTransitStages c latest round (lines.foldl (ride c latest round) counted))

def allRoundsStages : (left round : Nat) → SearchState → List Stage
  | 0, _, _ => []
  | left + 1, round, s =>
      match linesToRide c s round with
      | [] => []
      | lines => runRoundStages c latest (round + 1) lines s ++
          allRoundsStages left (round + 1) (runRound c latest (round + 1) lines s)

def arriveOnFootStages (s : SearchState) : List Stage :=
  let arrive (s : SearchState) (label : NodeIndex × Criteria) (stop : StopIndex) : SearchState :=
    finish c latest (s.tree.node label.1).departure 0 label.1 stop label.2 s
  stagesOf (fun s stop => (currentLabels s 0 stop).foldl (fun s label => arrive s label stop) s)
    (fun s stop => stepStages (fun s label => arrive s label stop) s (currentLabels s 0 stop)) s
    (s.round 0).stops.toList

def runAccessStages (departure : SearchTime) (s : SearchState) : List Stage :=
  let latest := latestArrival c departure
  let legs := c.query.access.legs.toList.zipIdx
  .settled s.nextIteration :: (stepStages (depart c departure latest) s.nextIteration legs ++
    walkFromAccessStages c latest (legs.foldl (depart c departure latest) s.nextIteration))

def fullIterationStages (s : SearchState) (departure : SearchTime) : List Stage :=
  let latest := latestArrival c departure
  let onFoot := runAccess c departure s
  runAccessStages c departure s ++
    if c.query.maxBoardings = 0 then arriveOnFootStages c latest onFoot
    else allRoundsStages c latest c.query.maxBoardings 0 onFoot

/-- The stages after the first one, for some of the departure times of the range. -/
def stagesUpTo (count : Nat) : List Stage :=
  stagesOf (fullIteration c) (fullIterationStages c) (stateAfter c 0)
    (c.query.departureTimes.take count)

/-- The stages of the search for all the departure times. -/
def stages : List Stage :=
  .settled (stateAfter c 0) :: stagesUpTo c c.query.departureTimes.length

end

variable {c : Context} {round first last : Nat} {s t : SearchState}

/-- Somebody gets off at a place that no arrival by vehicle covers. -/
structure GetsOff (c : Context) (round : Nat) (s : SearchState) (node : Node) : Prop where
  follows : Follows c s.tree s.tree.size node
  byVehicle : node.step.isRide = true
  now : node.iteration = s.iteration
  trips : node.criteria.nbOfTrips = round
  allowed : round ≤ c.query.maxBoardings
  uncovered : s.isCoveredByTransit c.profile node.stop round node.criteria = false

theorem GetsOff.move {node : Node} (h : GetsOff c round s node) :
    Move c round s (s.alight c.profile round node) :=
  .alight h.follows h.byVehicle h.now h.trips h.allowed h.uncovered

/-- From one stage to the next: what is done to a state that was reached. -/
inductive Onward (c : Context) : Stage → Stage → Prop
  | settled {s t : SearchState} (reached : Reached c s) (later : Later c s t) :
      Onward c (.settled s) (.settled t)
  | stepOff {round : Nat} {s : SearchState} {node : Node} (reached : Reached c s)
      (getsOff : GetsOff c round s node) :
      Onward c (.settled s) (.halfway c.profile round s node)
  | alight {round : Nat} {s : SearchState} {node : Node} (reached : Reached c s)
      (getsOff : GetsOff c round s node) :
      Onward c (.halfway c.profile round s node) (.settled (s.alight c.profile round node))

/-- A state that was reached, or halfway from one to the next. -/
inductive IsStage (c : Context) : Stage → Prop
  | settled {s : SearchState} (reached : Reached c s) : IsStage c (.settled s)
  | halfway {round : Nat} {s : SearchState} {node : Node} (reached : Reached c s)
      (getsOff : GetsOff c round s node) : IsStage c (.halfway c.profile round s node)

/-- The tree of a stage is that of a state which was reached: the node is there from the first half
of getting off. -/
theorem IsStage.exists_tree_eq {stage : Stage} (h : IsStage c stage) :
    ∃ s, Reached c s ∧ s.tree = stage.state.tree := by
  cases h with
  | settled reached => exact ⟨_, reached, rfl⟩
  | halfway reached getsOff =>
      refine ⟨_, reached.moves getsOff.move.moves, ?_⟩
      rw [SearchState.tree_alight]
      rfl

theorem Onward.isStage {stage next : Stage} (h : Onward c stage next) : IsStage c next := by
  cases h with
  | settled reached later => exact .settled (Relation.ReflTransGen.trans reached later)
  | stepOff reached getsOff => exact .halfway reached getsOff
  | alight reached getsOff => exact .settled (reached.moves getsOff.move.moves)

/-- The stages that lead from one to another. -/
inductive Course (c : Context) : Stage → List Stage → Stage → Prop
  | nil {stage : Stage} : Course c stage [] stage
  | cons {stage next last : Stage} {rest : List Stage} (onward : Onward c stage next)
      (others : Course c next rest last) : Course c stage (next :: rest) last

namespace Course

theorem append {stage middle end_ : Stage} {before after : List Stage}
    (h : Course c stage before middle) (further : Course c middle after end_) :
    Course c stage (before ++ after) end_ := by
  induction h with
  | nil => exact further
  | cons onward _ ih => exact .cons onward (ih further)

theorem moves (reached : Reached c s) (moves : Moves c first last s t) :
    Course c (.settled s) [.settled t] (.settled t) :=
  .cons (.settled reached moves.later) .nil

theorem isStage {stage end_ : Stage} {l : List Stage} (h : Course c stage l end_) :
    ∀ later ∈ l, IsStage c later := by
  induction h with
  | nil => exact fun _ member => absurd member List.not_mem_nil
  | cons onward _ ih => exact List.forall_mem_cons.2 ⟨onward.isStage, ih⟩

theorem last_mem {stage end_ : Stage} {l : List Stage} (h : Course c stage l end_) :
    end_ ∈ stage :: l := by
  induction h with
  | nil => exact List.mem_cons_self
  | cons _ _ ih => exact List.mem_cons_of_mem _ ih

theorem pairwise {R : Stage → Stage → Prop} {stage end_ : Stage} {l : List Stage}
    (h : Course c stage l end_) (onward : ∀ {a b}, Onward c a b → R a b)
    (trans : ∀ {a b d}, R a b → R b d → R a d) : (stage :: l).Pairwise R := by
  induction h with
  | nil => exact List.pairwise_singleton R _
  | cons first _ ih =>
      refine List.pairwise_cons.2 ⟨List.forall_mem_cons.2 ⟨onward first, fun later member => ?_⟩, ih⟩
      exact trans (onward first) ((List.pairwise_cons.1 ih).1 later member)

theorem fold (first last : Nat) {f : SearchState → α → SearchState}
    {stages : SearchState → α → List Stage} {l : List α}
    (step : ∀ a ∈ l, ∀ t, Moves c first last s t → Moves c first last t (f t a) ∧
      Course c (.settled t) (stages t a) (.settled (f t a))) :
    Course c (.settled s) (stagesOf f stages s l) (.settled (l.foldl f s)) := by
  induction l generalizing s with
  | nil => exact .nil
  | cons a rest ih =>
      obtain ⟨moves, here⟩ := step a List.mem_cons_self s .refl
      refine here.append (ih fun b among t more => ?_)
      exact step b (List.mem_cons_of_mem _ among) t (moves.trans more)

theorem steps (first last : Nat) {f : SearchState → α → SearchState} {l : List α}
    (reached : Reached c s)
    (step : ∀ a ∈ l, ∀ t, Moves c first last s t → Moves c first last t (f t a)) :
    Course c (.settled s) (stepStages f s l) (.settled (l.foldl f s)) := by
  refine fold first last fun a member t before => ?_
  have after := step a member t before
  exact ⟨after, moves (reached.moves before) after⟩

end Course

theorem walks_course (reached : Reached c s) {stop : StopIndex} {label : NodeIndex × Criteria}
    (able : CanWalk c round stop s label) :
    Course c (.settled s)
      (stepStages (walk c (latestOf c s.iteration) round label) s (c.timetable.walksFrom stop))
      (.settled ((c.timetable.walksFrom stop).foldl (walk c (latestOf c s.iteration) round label)
        s)) := by
  refine Course.steps round round reached fun w known t moves => ?_
  have able := able.moves moves
  rw [← moves.iteration_eq]
  exact walk_moves able.isLabel able.now able.rested known

theorem walkAll_course (reached : Reached c s) {stop : StopIndex} {labels : StopFront}
    (able : ∀ label ∈ labels, CanWalk c round stop s label) :
    Course c (.settled s) (walkAllStages c (latestOf c s.iteration) round stop labels s)
      (.settled (walkAll c (latestOf c s.iteration) round stop labels s)) := by
  refine Course.fold round round fun label member t moves => ?_
  have able := (able label member).moves moves
  rw [← moves.iteration_eq]
  exact ⟨able.walks_moves, walks_course (reached.moves moves) able⟩

theorem walkFromAccess_course (reached : Reached c s) :
    Course c (.settled s) (walkFromAccessStages c (latestOf c s.iteration) s)
      (.settled (walkFromAccess c (latestOf c s.iteration) s)) := by
  rw [walkFromAccess, ← Array.foldl_toList]
  refine Course.fold 0 0 fun stop _ t moves => ?_
  have reached := reached.moves moves
  have able (label) (member : label ∈ accessLabels t stop) : CanWalk c 0 stop t label :=
    canWalk_of_mem_accessLabels reached.consistent member
  rw [← moves.iteration_eq]
  exact ⟨walkAll_moves able, walkAll_course reached able⟩

theorem walkFromTransit_course (round : Nat) (reached : Reached c s) :
    Course c (.settled s) (walkFromTransitStages c (latestOf c s.iteration) round s)
      (.settled (walkFromTransit c (latestOf c s.iteration) round s)) := by
  rw [walkFromTransit, ← Array.foldl_toList]
  refine Course.fold round round fun stop _ t moves => ?_
  have reached := reached.moves moves
  have able (label) (member : label ∈ transitLabels t round stop) : CanWalk c round stop t label :=
    canWalk_of_mem_transitLabels reached.consistent member
  rw [← moves.iteration_eq]
  exact ⟨walkAll_moves able, walkAll_course reached able⟩

theorem debark_course (reached : Reached c s) (allowed : round ≤ c.query.maxBoardings)
    {line : LineIndex} {o : Onboard} (onboard : IsOnboard c round line s o) {position : Nat}
    (ahead : o.boardPosition < position)
    (inside : position < (c.timetable.line line).nbOfPositions) :
    let node := rideNode c line s.iteration o position
    Course c (.settled s)
      (debarkStages c (latestOf c s.iteration) round line position node.stop s (o, node.criteria))
      (.settled
        (debark c (latestOf c s.iteration) round line position node.stop s (o, node.criteria))) := by
  intro node
  simp only [debarkStages]
  split
  · next late =>
      rw [debark_eq, if_pos late]
      exact .nil
  · next inTime =>
      split
      · next covered =>
          rw [debark_eq, if_neg inTime, if_pos covered]
          exact .nil
      · next uncovered =>
          have getsOff : GetsOff c round s node := ⟨onboard.follows ahead inside inTime, rfl, rfl,
            onboard.trips, allowed, Bool.eq_false_iff.2 uncovered⟩
          rw [debark_eq, if_neg inTime, if_neg uncovered]
          exact .cons (.stepOff reached getsOff) <| .cons (.alight reached getsOff) <|
            Course.moves (reached.moves getsOff.move.moves)
              (finish_alight_moves rfl rfl getsOff.trips)

theorem visit_course (reached : Reached c s) (allowed : round ≤ c.query.maxBoardings)
    {line : LineIndex} {position : Nat} {onboard : Front Onboard Criteria}
    (ready : Ready c round line position s onboard)
    (inside : position < (c.timetable.line line).nbOfPositions) :
    Course c (.settled s)
      (visitStages c (latestOf c s.iteration) round line (onboard, s) position)
      (.settled (visit c (latestOf c s.iteration) round line (onboard, s) position).2) := by
  have debarked : Course c (.settled s)
      (visitStages c (latestOf c s.iteration) round line (onboard, s) position)
      (.settled (onboard.foldl (debark c (latestOf c s.iteration) round line position
        ((c.timetable.line line).stopAt position)) s)) := by
    refine Course.fold round round fun o member t moves => ?_
    obtain ⟨isOnboard, criteria, ahead⟩ := ready o member
    have equal : o = (o.1, o.1.criteriaAt (c.timetable.line line) position c.query.costs) :=
      Prod.ext rfl criteria
    refine ⟨ready.debark_moves allowed inside member moves, ?_⟩
    rw [equal, ← moves.iteration_eq]
    exact debark_course (reached.moves moves) allowed (isOnboard.moves moves) ahead inside
  simp only [visit]
  split
  · exact debarked
  · exact debarked

theorem visits_course (positive : 0 < round) (allowed : round ≤ c.query.maxBoardings)
    (line : LineIndex) (count first : Nat) {onboard : Front Onboard Criteria}
    (reached : Reached c s) (ready : Ready c round line first s onboard)
    (inside : first + count ≤ (c.timetable.line line).nbOfPositions) :
    let positions := List.range' first count
    Course c (.settled s)
      (stagesOf (visit c (latestOf c s.iteration) round line)
        (visitStages c (latestOf c s.iteration) round line) (onboard, s) positions)
      (.settled
        (positions.foldl (visit c (latestOf c s.iteration) round line) (onboard, s)).2) := by
  induction count generalizing first s onboard with
  | zero => exact .nil
  | succ count ih =>
      simp only [List.range'_succ, List.foldl_cons, stagesOf]
      obtain ⟨moves, next⟩ := visit_moves reached.consistent positive allowed ready (by omega)
      have further := ih (first + 1) (reached.moves moves) next (by omega)
      rw [moves.iteration_eq] at further
      exact (visit_course reached allowed ready (by omega)).append further

theorem ride_course (reached : Reached c s) (positive : 0 < round)
    (allowed : round ≤ c.query.maxBoardings) (entry : LineIndex × Nat) :
    Course c (.settled s) (rideStages c (latestOf c s.iteration) round s entry)
      (.settled (ride c (latestOf c s.iteration) round s entry)) := by
  have counted : Moves c round round s { s with nbOfScans := s.nbOfScans + 1 } :=
    (Move.count s.lastRound _).moves
  have nobody : Ready c round entry.1 entry.2 { s with nbOfScans := s.nbOfScans + 1 } [] :=
    fun _ member => absurd member List.not_mem_nil
  refine (Course.moves reached counted).append ?_
  by_cases inside : entry.2 ≤ (c.timetable.line entry.1).nbOfPositions
  · exact visits_course positive allowed entry.1
      ((c.timetable.line entry.1).nbOfPositions - entry.2) entry.2 (reached.moves counted) nobody
      (by omega)
  · have none : (c.timetable.line entry.1).nbOfPositions - entry.2 = 0 := by omega
    simp only [ride, none, List.range'_zero, List.foldl_nil, stagesOf]
    exact .nil

theorem rides_course (reached : Reached c s) (positive : 0 < round)
    (allowed : round ≤ c.query.maxBoardings) (lines : List (LineIndex × Nat)) :
    Course c (.settled s)
      (stagesOf (ride c (latestOf c s.iteration) round) (rideStages c (latestOf c s.iteration) round)
        s lines)
      (.settled (lines.foldl (ride c (latestOf c s.iteration) round) s)) := by
  refine Course.fold round round fun entry _ t moves => ?_
  have reached := reached.moves moves
  rw [← moves.iteration_eq]
  exact ⟨ride_moves reached.consistent positive allowed entry,
    ride_course reached positive allowed entry⟩

theorem runRound_course (reached : Reached c s) (positive : 0 < round)
    (allowed : round ≤ c.query.maxBoardings) (lines : List (LineIndex × Nat)) :
    Course c (.settled s) (runRoundStages c (latestOf c s.iteration) round lines s)
      (.settled (runRound c (latestOf c s.iteration) round lines s)) := by
  have counted : Moves c round round s { s with lastRound := max s.lastRound round } :=
    (Move.count _ s.nbOfScans).moves
  have start := reached.moves counted
  have rides := rides_moves start.consistent positive allowed lines
  have walked := walkFromTransit_course round (start.moves rides)
  rw [rides.iteration_eq] at walked
  exact (Course.moves reached counted).append
    ((rides_course start positive allowed lines).append walked)

/-- Some stages lead to where a run ends: to the last of them, unless the run is cut short. -/
def Leads (c : Context) (s : SearchState) (stages : List Stage) (outcome : Outcome) : Prop :=
  ∃ before after, stages = before ++ after ∧
    Course c (.settled s) before (.settled outcome.state) ∧ (outcome.truncated = false → after = [])

namespace Leads

variable {l m : List Stage} {outcome : Outcome}

theorem stop : Leads c s l ⟨s, true⟩ :=
  ⟨[], l, rfl, .nil, fun whole => by cases whole⟩

theorem of_course (h : Course c (.settled s) l (.settled t)) : Leads c s l ⟨t, false⟩ :=
  ⟨l, [], (List.append_nil l).symm, h, fun _ => rfl⟩

theorem course (h : Leads c s l outcome) (whole : outcome.truncated = false) :
    Course c (.settled s) l (.settled outcome.state) := by
  obtain ⟨before, after, rfl, course, all⟩ := h
  rw [all whole, List.append_nil]
  exact course

theorem append (first : Course c (.settled s) l (.settled t)) (rest : Leads c t m outcome) :
    Leads c s (l ++ m) outcome := by
  obtain ⟨before, after, rfl, course, all⟩ := rest
  exact ⟨l ++ before, after, (List.append_assoc ..).symm, first.append course, all⟩

theorem cut (h : Leads c s l outcome) (short : outcome.truncated = true) :
    Leads c s (l ++ m) outcome := by
  obtain ⟨before, after, rfl, course, -⟩ := h
  refine ⟨before, after ++ m, List.append_assoc .., course, fun whole => ?_⟩
  rw [short] at whole
  cases whole

theorem mem (h : Leads c s l outcome) : .settled outcome.state ∈ .settled s :: l := by
  obtain ⟨before, after, rfl, course, -⟩ := h
  rcases List.mem_cons.1 course.last_mem with first | later
  · exact List.mem_cons.2 (.inl first)
  · exact List.mem_cons_of_mem _ (List.mem_append_left _ later)

end Leads

theorem runRounds_leads (isOver : Checks) (left round : Nat) (reached : Reached c s)
    (allowed : round + left ≤ c.query.maxBoardings) :
    Leads c s (allRoundsStages c (latestOf c s.iteration) left round s)
      (runRounds c (latestOf c s.iteration) isOver left round s) := by
  induction left generalizing round s with
  | zero => exact .of_course .nil
  | succ left ih =>
      rw [runRounds]
      split
      · exact .stop
      · cases lines : linesToRide c s round with
        | nil =>
            simp only [allRoundsStages, lines]
            exact .of_course .nil
        | cons entry more =>
            simp only [allRoundsStages, lines]
            have first := runRound_moves reached.consistent (Nat.succ_pos round) (by omega)
              (entry :: more)
            have rest := ih (round + 1) (reached.moves first) (by omega)
            rw [first.iteration_eq] at rest
            exact .append (runRound_course reached (Nat.succ_pos round) (by omega) _) rest

theorem runAccess_course (reached : Reached c s)
    (more : s.iteration < c.query.departureTimes.length) :
    Course c (.settled s) (runAccessStages c (departureOf c (s.iteration + 1)) s)
      (.settled (runAccess c (departureOf c (s.iteration + 1)) s)) := by
  have begins : Later c s s.nextIteration := .single (.iteration more)
  have start : Reached c s.nextIteration := Relation.ReflTransGen.trans reached begins
  have departs : Moves c 0 0 s.nextIteration (c.query.access.legs.toList.zipIdx.foldl
      (depart c (departureOf c (s.iteration + 1)) (latestOf c (s.iteration + 1)))
      s.nextIteration) :=
    Moves.foldl fun _ member _ moves => moves.depart_moves member
  have departed := Course.steps 0 0 start fun _ member _ moves => moves.depart_moves member
  have walked := walkFromAccess_course (start.moves departs)
  rw [departs.iteration_eq] at walked
  exact .cons (.settled reached begins) (departed.append walked)

theorem arriveOnFoot_course (reached : Reached c s) (none : c.query.maxBoardings = 0) :
    Course c (.settled s) (arriveOnFootStages c (latestOf c s.iteration) s)
      (.settled (arriveOnFoot c (latestOf c s.iteration) s)) := by
  rw [arriveOnFoot, ← Array.foldl_toList]
  refine Course.fold 0 0 fun stop _ t moves => ?_
  have reached := reached.moves moves
  have arrives (label) (current : label ∈ currentLabels t 0 stop) (u) (more : Moves c 0 0 t u) :=
    arrive_moves reached.consistent none current more
  rw [← moves.iteration_eq]
  exact ⟨Moves.foldl arrives, Course.steps 0 0 reached arrives⟩

theorem runIteration_leads (isOver : Checks) (reached : Reached c s)
    (more : s.iteration < c.query.departureTimes.length) :
    Leads c s (fullIterationStages c s (departureOf c (s.iteration + 1)))
      (runIteration c isOver s (departureOf c (s.iteration + 1))) := by
  have begins : Later c s s.nextIteration := .single (.iteration more)
  have access := runAccess_moves reached.consistent
  have onFoot : Reached c (runAccess c (departureOf c (s.iteration + 1)) s) :=
    Relation.ReflTransGen.trans reached (begins.trans access.later)
  have number : (runAccess c (departureOf c (s.iteration + 1)) s).iteration = s.iteration + 1 :=
    access.iteration_eq
  refine .append (runAccess_course reached more) ?_
  simp only [runIteration]
  split
  · next none =>
      have arrivals := arriveOnFoot_course onFoot none
      rw [number] at arrivals
      exact .of_course arrivals
  · have rounds := runRounds_leads isOver c.query.maxBoardings 0 onFoot (by omega)
    rwa [number] at rounds

theorem fullIteration_course (reached : Reached c s)
    (more : s.iteration < c.query.departureTimes.length) :
    Course c (.settled s) (fullIterationStages c s (departureOf c (s.iteration + 1)))
      (.settled (fullIteration c s (departureOf c (s.iteration + 1)))) := by
  refine (runIteration_leads .never reached more).course ?_
  rw [runIteration_never]

theorem runAll_leads (isOver : Checks) {times : List SearchTime} (reached : Reached c s)
    (left : times = c.query.departureTimes.drop s.iteration) :
    Leads c s (stagesOf (fullIteration c) (fullIterationStages c) s times)
      (runAll c isOver times s) := by
  induction times generalizing s with
  | nil => exact .of_course .nil
  | cons departure rest ih =>
      obtain ⟨more, rfl, others⟩ := departureOf_of_left left
      have iteration := runIteration_leads isOver reached more
      simp only [runAll, stagesOf]
      split
      · exact .stop
      · split
        · next short => exact iteration.cut short
        · next whole =>
            rw [runIteration_eq (Bool.eq_false_iff.2 whole)]
            refine .append (fullIteration_course reached more)
              (ih (reached.fullIteration more) ?_)
            rw [others, (fullIteration_moves reached.consistent).iteration_eq]
            rfl

theorem stagesUpTo_succ {count : Nat} (more : count < c.query.departureTimes.length) :
    stagesUpTo c (count + 1) = stagesUpTo c count ++
      fullIterationStages c (stateAfter c count) (departureOf c (count + 1)) := by
  rw [stagesUpTo, take_departureTimes more, stagesOf_append]
  simp only [stagesOf, List.append_nil]
  rfl

theorem stagesUpTo_subset (count : Nat) :
    stagesUpTo c count ⊆ stagesUpTo c c.query.departureTimes.length := by
  have split := stagesOf_append (fullIteration c) (fullIterationStages c) (stateAfter c 0)
    (c.query.departureTimes.take count) (c.query.departureTimes.drop count)
  rw [List.take_append_drop] at split
  rw [stagesUpTo, stagesUpTo, List.take_length, split]
  exact List.subset_append_left _ _

theorem stagesUpTo_course {count : Nat} (within : count ≤ c.query.departureTimes.length) :
    Course c (.settled (stateAfter c 0)) (stagesUpTo c count) (.settled (stateAfter c count)) := by
  induction count with
  | zero => exact .nil
  | succ count ih =>
      obtain ⟨-, number⟩ := stateAfter_spec (c := c) (Nat.le_of_lt within)
      have last := fullIteration_course (reached_stateAfter (Nat.le_of_lt within))
        (number.symm ▸ within)
      rw [number, ← stateAfter_succ within] at last
      rw [stagesUpTo_succ within]
      exact (ih (Nat.le_of_lt within)).append last

theorem stateAfter_mem_stages {count : Nat} (within : count ≤ c.query.departureTimes.length) :
    .settled (stateAfter c count) ∈ stages c := by
  rcases List.mem_cons.1 (stagesUpTo_course within).last_mem with first | later
  · rw [first]
    exact List.mem_cons_self
  · exact List.mem_cons_of_mem _ (stagesUpTo_subset count later)

/-- A search ends at one of the stages, whatever the checks of the clock find. -/
theorem run_mem_stages (c : Context) (isOver : Checks) :
    .settled (run c isOver).state ∈ stages c := by
  rw [run]
  split
  · exact List.mem_cons_self
  · have all : c.query.departureTimes = c.query.departureTimes.drop (stateAfter c 0).iteration := rfl
    have ends := runAll_leads (fun i round => c.query.isLate || isOver i round)
      (reached_stateAfter (Nat.zero_le _)) all
    rw [stages, stagesUpTo, List.take_length]
    exact ends.mem

theorem isStage_of_mem_stages {stage : Stage} (member : stage ∈ stages c) : IsStage c stage := by
  rcases List.mem_cons.1 member with rfl | later
  · exact .settled (reached_stateAfter (Nat.zero_le _))
  · exact (stagesUpTo_course (Nat.le_refl _)).isStage stage later

theorem reached_of_mem_stages (member : .settled s ∈ stages c) : Reached c s := by
  have isStage := isStage_of_mem_stages member
  generalize equal : Stage.settled s = stage at isStage
  cases isStage with
  | settled reached =>
      cases equal
      exact reached
  | halfway => cases equal

theorem reached_run (c : Context) (isOver : Checks) : Reached c (run c isOver).state :=
  reached_of_mem_stages (run_mem_stages c isOver)

theorem consistent_run (c : Context) (isOver : Checks) : Consistent c (run c isOver).state :=
  (reached_run c isOver).consistent

end JourneyPlanner.Search
