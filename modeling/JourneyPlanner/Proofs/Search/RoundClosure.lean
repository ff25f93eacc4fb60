import JourneyPlanner.Proofs.Search.Closure
import JourneyPlanner.Proofs.Timetable.Earliest

/-!
The closure of a whole iteration. A round closes itself: its rides cover what the labels of the round
before can reach without overtaking those who are kept on board, and its walks cover what follows from
its own rides. The rounds after it leave both untouched, and where no line can be boarded any more
there is nothing left to close.
-/

namespace JourneyPlanner.Search

variable {c : Context} {round first last : Nat} {s t : SearchState}

/-- Every ride that a label of the round before can make, on a line where trips may overtake each
other, is covered at each stop where it arrives in time. -/
def RideClosed (c : Context) (round : Nat) (s : SearchState) : Prop :=
  ∀ stop, ∀ label ∈ (s.round (round - 1)).front stop, s.tree.iteration label.1 = s.iteration →
    ∀ line < c.timetable.nbOfLines, (c.timetable.line line).pattern.fifo = false →
      ∀ position, position + 1 < (c.timetable.line line).nbOfPositions →
        (c.timetable.line line).stopAt position = stop →
          ∀ o, board c (c.timetable.line line) position s.tree label = some o →
            ∀ later, position < later → later < (c.timetable.line line).nbOfPositions →
              (o.criteriaAt (c.timetable.line line) later c.query.costs).arrival ≤
                  latestOf c s.iteration →
                s.isCoveredByTransit c.profile ((c.timetable.line line).stopAt later) round
                  (o.criteriaAt (c.timetable.line line) later c.query.costs) = true

/-- Every walk from a node that was reached by vehicle in the round is covered where it arrives in
time. -/
def WalkClosed (c : Context) (round : Nat) (s : SearchState) : Prop :=
  ∀ i < s.tree.size, s.tree.iteration i = s.iteration → (s.tree.node i).step.isRide = true →
    (s.tree.node i).criteria.nbOfTrips = round →
      ∀ walk ∈ c.timetable.walksFrom (s.tree.node i).stop,
        (walkCriteria c (s.tree.node i).criteria walk).arrival ≤ latestOf c s.iteration →
          s.isCovered c.profile walk.target round
            (walkCriteria c (s.tree.node i).criteria walk) = true

/-- Every ride that a label of the round before can make is covered at each stop where it arrives in
time, or overtakes somebody on the way there. -/
def CoveredOrOvertaking (c : Context) (round : Nat) (s : SearchState) : Prop :=
  ∀ line < c.timetable.nbOfLines, ∀ position,
    position + 1 < (c.timetable.line line).nbOfPositions →
      ∀ label o, CanBoard c round line position s label o →
        ∀ later, position < later → later < (c.timetable.line line).nbOfPositions →
          (criteriaOn c line o later).arrival ≤ latestOf c s.iteration →
            s.isCoveredByTransit c.profile ((c.timetable.line line).stopAt later) round
                (criteriaOn c line o later) = true ∨ Overtakes c round line s o later

theorem CoveredOrOvertaking.moves (h : CoveredOrOvertaking c round s) (consistent : Consistent c s)
    (moves : Moves c first last s t) (positive : 0 < round) (le : round ≤ first) :
    CoveredOrOvertaking c round t := by
  intro line known position notLast label o able later ahead inside inTime
  rw [moves.iteration_eq] at inTime
  rcases h line known position notLast label o
    ((canBoard_iff_of_moves consistent moves positive le).1 able) later ahead inside inTime with
    covered | overtakes
  · exact .inl (moves.isCoveredByTransit covered)
  · exact .inr (overtakes.moves moves)

theorem CoveredOrOvertaking.rideClosed (h : CoveredOrOvertaking c round s) :
    RideClosed c round s := by
  intro stop label inFront current line known notFifo position notLast atStop o boarded later ahead
    inside inTime
  subst atStop
  have able : CanBoard c round line position s label o := ⟨inFront, current, boarded⟩
  refine (h line known position notLast label o able later ahead inside inTime).resolve_right ?_
  rintro ⟨fifo, -⟩
  rw [notFifo] at fifo
  cases fifo

theorem WalkClosed.moves (h : WalkClosed c round s) (moves : Moves c first last s t)
    (less : round < first) : WalkClosed c round t := by
  intro i inside current byVehicle trips walk known inTime
  by_cases older : i < s.tree.size
  · have same := moves.extends.node_eq i older
    rw [JourneyTree.iteration, same, moves.iteration_eq] at current
    rw [moves.iteration_eq] at inTime
    rw [same] at byVehicle trips known inTime ⊢
    exact moves.isCovered (h i older current byVehicle trips walk known inTime)
  · have bound := (moves.nbOfTrips_mem (Nat.not_lt.1 older) inside).1
    omega

theorem isCovered_walk (sized : s.Sized c.timetable.nbOfStops c.query.maxBoardings)
    (allowed : round ≤ c.query.maxBoardings) {w : Walk} (known : w.target < c.timetable.nbOfStops)
    (latest : SearchTime) (label : NodeIndex × Criteria)
    (inTime : ¬latest < (walkCriteria c label.2 w).arrival) :
    (walk c latest round label s w).isCovered c.profile w.target round
      (walkCriteria c label.2 w) = true := by
  simp only [walk]
  rw [if_neg inTime]
  split
  · next covered => exact covered
  · refine SearchState.isCovered_insert_self ?_ ?_
    · change round < s.rounds.size
      rw [sized.rounds]
      omega
    · change w.target < (s.round round).all.size
      rw [sized.all round allowed]
      exact known

theorem walkAll_covers (h : Consistent c s) (allowed : round ≤ c.query.maxBoardings)
    (regular : c.timetable.IsRegular) {stop : StopIndex} {labels : StopFront}
    (able : ∀ label ∈ labels, CanWalk c round stop s label) {label : NodeIndex × Criteria}
    (member : label ∈ labels) {w : Walk} (known : w ∈ c.timetable.walksFrom stop)
    (inTime : (walkCriteria c label.2 w).arrival ≤ latestOf c s.iteration) :
    (walkAll c (latestOf c s.iteration) round stop labels s).isCovered c.profile w.target round
      (walkCriteria c label.2 w) = true := by
  let Covered (u : SearchState) : Prop :=
    u.isCovered c.profile w.target round (walkCriteria c label.2 w) = true
  have keeps : ∀ t u, Moves c round round t u → Covered t → Covered u :=
    fun t u moves covered => moves.isCovered covered
  refine Moves.foldl_of_mem (c := c) (P := Covered) member (fun other among t moves => ?_) keeps
    fun t moves => ?_
  · rw [← moves.iteration_eq]
    exact ((able other among).moves moves).walks_moves
  · refine Moves.foldl_of_mem (c := c) (P := Covered) known (fun other among u more => ?_) keeps
      fun u more => ?_
    · have all := moves.trans more
      have able := (able label member).moves all
      rw [← Moves.iteration_eq all]
      exact walk_moves able.isLabel able.now able.rested among
    · exact isCovered_walk (h.moves (moves.trans more)).sized allowed
        (regular.target_lt stop w known) _ label (Int.not_lt.2 inTime)

/-- The state grows by nodes of one kind. -/
structure GrowsBy (kind : Step → Bool) (s t : SearchState) : Prop where
  grows : s.tree.Extends t.tree
  ofKind : ∀ i, s.tree.size ≤ i → i < t.tree.size → kind (t.tree.node i).step = true

/-- The state grows by nodes that were walked to from a stop. -/
abbrev OnFoot : SearchState → SearchState → Prop :=
  GrowsBy Step.isWalk

namespace GrowsBy

variable {kind : Step → Bool} {u : SearchState}

theorem refl (s : SearchState) : GrowsBy kind s s :=
  ⟨.refl _, fun _ new inside => absurd inside (Nat.not_lt.2 new)⟩

theorem trans (st : GrowsBy kind s t) (tu : GrowsBy kind t u) : GrowsBy kind s u := by
  refine ⟨st.grows.trans tu.grows, fun i new inside => ?_⟩
  by_cases older : i < t.tree.size
  · rw [tu.grows.node_eq i older]
    exact st.ofKind i new older
  · exact tu.ofKind i (Nat.not_lt.1 older) inside

theorem foldl {f : SearchState → α → SearchState} {l : List α}
    (step : ∀ t, ∀ a, GrowsBy kind t (f t a)) (s : SearchState) : GrowsBy kind s (l.foldl f s) :=
  List.foldlRecOn (motive := GrowsBy kind s) l f (.refl s) fun t grown a _ => grown.trans (step t a)

theorem of_push {node : Node} (tree : t.tree = s.tree.push node) (isKind : kind node.step = true) :
    GrowsBy kind s t := by
  refine ⟨tree ▸ JourneyTree.Extends.push _ _, fun i new inside => ?_⟩
  rw [tree, JourneyTree.size_push] at inside
  obtain rfl : i = s.tree.size := by omega
  rw [tree, JourneyTree.node_push_size]
  exact isKind

end GrowsBy

theorem onFoot_walk (latest : SearchTime) (label : NodeIndex × Criteria) (s : SearchState)
    (w : Walk) : OnFoot s (walk c latest round label s w) := by
  simp only [walk]
  split
  · exact .refl s
  · split
    · exact .refl s
    · exact .of_push rfl rfl

theorem onFoot_walkAll (latest : SearchTime) (stop : StopIndex) (labels : StopFront)
    (s : SearchState) : OnFoot s (walkAll c latest round stop labels s) :=
  GrowsBy.foldl (fun t label => GrowsBy.foldl (fun u w => onFoot_walk latest label u w) t) s

theorem onFoot_walkFromTransit (latest : SearchTime) (round : Nat) (s : SearchState) :
    OnFoot s (walkFromTransit c latest round s) := by
  rw [walkFromTransit, ← Array.foldl_toList]
  exact GrowsBy.foldl (fun t stop => onFoot_walkAll latest stop (transitLabels t round stop) t) s

theorem onFoot_walkFromAccess (latest : SearchTime) (s : SearchState) :
    OnFoot s (walkFromAccess c latest s) := by
  rw [walkFromAccess, ← Array.foldl_toList]
  exact GrowsBy.foldl (fun t stop => onFoot_walkAll latest stop (accessLabels t stop) t) s

theorem walkClosed_walkFromTransit (h : Consistent c s) (allowed : round ≤ c.query.maxBoardings)
    (regular : c.timetable.IsRegular) (kept : AllKept c s) :
    WalkClosed c round (walkFromTransit c (latestOf c s.iteration) round s) := by
  have onFoot := onFoot_walkFromTransit (c := c) (latestOf c s.iteration) round s
  have all : Moves c round round s _ := walkFromTransit_moves h
  intro i inside current byVehicle trips w known inTime
  by_cases older : i < s.tree.size
  · have same := onFoot.grows.node_eq i older
    rw [JourneyTree.iteration, same, all.iteration_eq] at current
    rw [all.iteration_eq] at inTime
    rw [same] at byVehicle trips known inTime ⊢
    have keptNode := kept i older current byVehicle
    rw [trips] at keptNode
    obtain ⟨label, inFront, now, -⟩ := keptNode
    have listed := h.transitTouched round _ label inFront now
    rw [walkFromTransit, ← Array.foldl_toList]
    have step : ∀ stop ∈ (s.round round).transitStops.toList, ∀ t, Moves c round round s t →
        Moves c round round t (walkAll c (latestOf c s.iteration) round stop
          (transitLabels t round stop) t) := by
      intro stop _ t moves
      rw [← moves.iteration_eq]
      exact walkAll_moves fun label member => canWalk_of_mem_transitLabels (h.moves moves) member
    refine Moves.foldl_of_mem (c := c) (P := fun u => u.isCovered c.profile w.target round
        (walkCriteria c (s.tree.node i).criteria w) = true)
      (Array.mem_toList_iff.2 listed) step (fun t u moves covered => moves.isCovered covered)
      fun t moves => ?_
    -- When the stop is walked from, a label as good as the node is still there.
    have keptNow := kept.moves regular h moves i (Nat.lt_of_lt_of_le older moves.extends.size_le)
    rw [JourneyTree.iteration, moves.extends.node_eq i older, moves.iteration_eq, trips] at keptNow
    obtain ⟨best, inFront, now, better⟩ := keptNow current byVehicle
    have member : best ∈ transitLabels t round (s.tree.node i).stop := by
      simp only [transitLabels, List.mem_filter, beq_iff_eq]
      exact ⟨inFront, now⟩
    have sooner := Profile.atLeastAsGood_walkCriteria c better w
    have inTime : (walkCriteria c best.2 w).arrival ≤ latestOf c t.iteration := by
      rw [moves.iteration_eq]
      exact Int.le_trans (Profile.arrival_le_of_atLeastAsGood sooner) inTime
    rw [← moves.iteration_eq]
    refine SearchState.isCovered_of_atLeastAsGood (walkAll_covers (h.moves moves) allowed regular
      (fun label member => canWalk_of_mem_transitLabels (h.moves moves) member) member known inTime)
      sooner
  · have walked := onFoot.ofKind i (Nat.not_lt.1 older) inside
    rw [Step.isRide_eq_false_of_isWalk walked] at byVehicle
    cases byVehicle

theorem exists_mem_linesToRide (h : Consistent c s) (regular : c.timetable.IsRegular)
    (allowed : round ≤ c.query.maxBoardings) {stop : StopIndex} {label : NodeIndex × Criteria}
    (inFront : label ∈ (s.round round).front stop)
    (current : s.tree.iteration label.1 = s.iteration) {line : LineIndex}
    (known : line < c.timetable.nbOfLines) {position : Nat}
    (notLast : position + 1 < (c.timetable.line line).nbOfPositions)
    (atStop : (c.timetable.line line).stopAt position = stop) :
    ∃ first ≤ position, (line, first) ∈ linesToRide c s round := by
  have inside : stop < c.timetable.nbOfStops := by
    rw [← h.sized.all round allowed]
    exact Round.lt_size_of_mem_front inFront
  have listed := h.touched round stop label inFront current
  have place := (regular.mem_linesAt stop inside line position).2
    ⟨known, Nat.lt_of_succ_lt notLast, atStop⟩
  exact Timetable.exists_mem_touch (Array.mem_toList_iff.2 listed) place notLast

theorem coveredOrOvertaking_rides (h : Consistent c s) (positive : 0 < round)
    (allowed : round ≤ c.query.maxBoardings) (regular : c.timetable.IsRegular) :
    CoveredOrOvertaking c round
      ((linesToRide c s (round - 1)).foldl (ride c (latestOf c s.iteration) round) s) := by
  have all := rides_moves h positive allowed (linesToRide c s (round - 1))
  intro line known position notLast label o able later ahead inside inTime
  have able := (canBoard_iff_of_moves h all positive (Nat.le_refl round)).1 able
  rw [all.iteration_eq] at inTime
  obtain ⟨first, first_le, member⟩ := exists_mem_linesToRide h regular (by omega) able.inFront
    able.current known notLast rfl
  have step : ∀ entry ∈ linesToRide c s (round - 1), ∀ t, Moves c round round s t →
      Moves c round round t (ride c (latestOf c s.iteration) round t entry) := by
    intro entry _ t moves
    rw [← moves.iteration_eq]
    exact ride_moves (h.moves moves) positive allowed entry
  refine Moves.foldl_of_mem (c := c) (P := fun u => u.isCoveredByTransit c.profile
      ((c.timetable.line line).stopAt later) round (criteriaOn c line o later) = true ∨
        Overtakes c round line u o later)
    member step (fun t u moves => Or.imp moves.isCoveredByTransit (·.moves moves)) fun t moves => ?_
  rw [← moves.iteration_eq] at inTime ⊢
  exact ride_matches (h.moves moves) positive allowed regular (line, first) first_le
    ((canBoard_iff_of_moves h moves positive (Nat.le_refl round)).2 able) ahead inside inTime

theorem runRound_closed (h : Consistent c s) (positive : 0 < round)
    (allowed : round ≤ c.query.maxBoardings) (regular : c.timetable.IsRegular)
    (kept : AllKept c s) :
    let after := runRound c (latestOf c s.iteration) round (linesToRide c s (round - 1)) s
    CoveredOrOvertaking c round after ∧ WalkClosed c round after := by
  let counted : SearchState := { s with lastRound := max s.lastRound round }
  have counts : Moves c round round s counted := (Move.count _ s.nbOfScans).moves
  have start := h.moves counts
  have rides := rides_moves start positive allowed (linesToRide c s (round - 1))
  have closed : CoveredOrOvertaking c round _ :=
    coveredOrOvertaking_rides start positive allowed regular
  have ridden := start.moves rides
  have walks : Moves c round round _ _ := walkFromTransit_moves ridden
  have walked := walkClosed_walkFromTransit ridden allowed regular
    ((kept.moves regular h counts).moves regular start rides)
  rw [rides.iteration_eq] at walks walked
  exact ⟨closed.moves ridden walks positive (Nat.le_refl _), walked⟩

theorem closed_of_nothing_to_ride (h : Consistent c s) (regular : c.timetable.IsRegular)
    (fresh : Fresh (round + 1) s) (nothing : linesToRide c s round = []) {later : Nat}
    (beyond : round < later) (allowed : later ≤ c.query.maxBoardings) :
    CoveredOrOvertaking c later s ∧ WalkClosed c later s := by
  constructor
  · intro line known position notLast label o able
    have isLabel := h.labels _ _ _ able.inFront
    have few := fresh label.1 isLabel.older able.current
    rw [isLabel.criteria_eq, isLabel.trips] at few
    have here : later - 1 = round := by omega
    have inFront := able.inFront
    rw [here] at inFront
    obtain ⟨first, -, member⟩ := exists_mem_linesToRide h regular (by omega) inFront able.current
      known notLast rfl
    rw [nothing] at member
    cases member
  · intro i inside current _ trips
    have few := fresh i inside current
    omega

theorem allRounds_closed (left round : Nat) (h : Consistent c s)
    (allowed : round + left ≤ c.query.maxBoardings) (regular : c.timetable.IsRegular)
    (kept : AllKept c s) (fresh : Fresh (round + 1) s) {later : Nat} (beyond : round < later)
    (within : later ≤ round + left) :
    let after := allRounds c (latestOf c s.iteration) left round s
    CoveredOrOvertaking c later after ∧ WalkClosed c later after := by
  induction left generalizing round s with
  | zero => exact absurd within (by omega)
  | succ left ih =>
      rw [allRounds_succ]
      split
      · next nothing => exact closed_of_nothing_to_ride h regular fresh nothing beyond (by omega)
      · have moves := runRound_moves h (Nat.succ_pos round) (by omega) (linesToRide c s round)
        have closed := runRound_closed h (Nat.succ_pos round) (by omega) regular kept
        have after := h.moves moves
        have rest := allRounds_moves left (round + 1) after (by omega)
        rw [moves.iteration_eq] at rest
        by_cases here : later = round + 1
        · subst here
          exact ⟨closed.1.moves after rest (Nat.succ_pos round) (by omega),
            closed.2.moves rest (by omega)⟩
        · have next := ih (round + 1) after (by omega) (kept.moves regular h moves)
            (fresh.moves moves (Nat.le_refl _)) (by omega) (by omega)
          rw [moves.iteration_eq] at next
          exact next

theorem fullIteration_covers (h : Consistent c s) (regular : c.timetable.IsRegular)
    (positive : 0 < round) (allowed : round ≤ c.query.maxBoardings) :
    let after := fullIteration c s (departureOf c (s.iteration + 1))
    CoveredOrOvertaking c round after ∧ WalkClosed c round after := by
  have access := runAccess_moves h
  have start := h.nextIteration.moves access
  have number : (runAccess c (departureOf c (s.iteration + 1)) s).iteration = s.iteration + 1 :=
    access.iteration_eq
  have kept := h.allKept_nextIteration.moves regular h.nextIteration access
  have fresh := (h.fresh_nextIteration 0).moves access (Nat.le_refl _)
  have closed := allRounds_closed c.query.maxBoardings 0 start (by omega) regular kept fresh
    positive (by omega)
  rw [number] at closed
  rw [fullIteration_eq, if_neg (by omega)]
  exact closed

theorem fullIteration_closed (h : Consistent c s) (regular : c.timetable.IsRegular)
    (positive : 0 < round) (allowed : round ≤ c.query.maxBoardings) :
    let after := fullIteration c s (departureOf c (s.iteration + 1))
    RideClosed c round after ∧ WalkClosed c round after := by
  obtain ⟨rides, walks⟩ := fullIteration_covers h regular positive allowed
  exact ⟨rides.rideClosed, walks⟩

/-- On a timetable of a compiled layer every round is closed at the end of every iteration, whatever
is searched: no ride on a line with overtaking trips and no walk is forgotten. -/
theorem round_closed {network : Network} {layer : Layer} {date : Date} {dayRange : Nat}
    {filters : PatternFilters} {speed : Float} (built : Layer.build network = .ok layer)
    (made : Timetable.build layer date dayRange filters speed = .ok c.timetable) {count : Nat}
    (inRange : count < c.query.departureTimes.length) (positive : 1 ≤ round)
    (allowed : round ≤ c.query.maxBoardings) :
    (stateAfter c (count + 1)).iteration = count + 1 ∧
      RideClosed c round (stateAfter c (count + 1)) ∧
        WalkClosed c round (stateAfter c (count + 1)) := by
  have regular := (Timetable.build_spec made).2.isRegular (Layer.isCompiled_build built)
  obtain ⟨consistent, number⟩ := stateAfter_spec (c := c) (Nat.le_of_lt inRange)
  refine ⟨(stateAfter_spec (c := c) inRange).2, ?_⟩
  have closed := fullIteration_closed consistent regular positive allowed
  rw [number, ← stateAfter_succ inRange] at closed
  exact closed

/-- From the first stop of both lines, with one departure. -/
def crossingQuery : Query where
  access := .ofLegs 3 [⟨0, .zero, 0, some .zero, none⟩]
  egress := .ofLegs 3 [⟨2, .zero, 0, some .zero, none⟩]
  earliestDeparture := ⟨0⟩
  window := .ofHms 0 1 0
  step := .ofHms 0 1 0
  maxBoardings := 2
  maxDuration := .ofHms 24 0 0
  minTransferTime := .ofHms 0 1 0
  costs := {}

theorem round_closed_crossing : ∃ layer t label o walk, ∃ node : Node,
    Layer.build .crossing = .ok layer ∧ Timetable.build layer ⟨100⟩ 3 {} 1 = .ok t ∧
      let c : Context := ⟨t, .standard, crossingQuery⟩
      let s := stateAfter c 1
      (t.line 0).pattern.fifo = false ∧ CanBoard c 1 0 0 s label o ∧
        s.isCoveredByTransit .standard ((t.line 0).stopAt 1) 1
          (o.criteriaAt (t.line 0) 1 c.query.costs) = true ∧
        node.step.isRide = true ∧ walk ∈ t.walksFrom node.stop ∧
          s.isCovered .standard walk.target 1 (walkCriteria c node.criteria walk) = true := by
  have found : (Layer.build .crossing).toOption.any (fun layer =>
      (Timetable.build layer ⟨100⟩ 3 {} 1).toOption.any fun t =>
        let c : Context := ⟨t, .standard, crossingQuery⟩
        let s := stateAfter c 1
        decide (0 < t.nbOfLines ∧ (t.line 0).pattern.fifo = false ∧
            (t.line 0).nbOfPositions = 2) &&
          (((s.round 0).front ((t.line 0).stopAt 0)).any fun label =>
              s.tree.iteration label.1 == s.iteration &&
                (board c (t.line 0) 0 s.tree label).any fun o =>
                  decide ((o.criteriaAt (t.line 0) 1 c.query.costs).arrival ≤
                    latestOf c s.iteration)) &&
            (List.range s.tree.size).any fun i => (t.walksFrom (s.tree.node i).stop).any fun walk =>
              decide (s.tree.iteration i = s.iteration ∧ (s.tree.node i).step.isRide = true ∧
                (s.tree.node i).criteria.nbOfTrips = 1 ∧
                  (walkCriteria c (s.tree.node i).criteria walk).arrival ≤
                    latestOf c s.iteration)) = true := by
    rw [Layer.build, Network.patterns_crossing]
    decide +kernel
  obtain ⟨layer, built, found⟩ := exists_ok_of_any found
  obtain ⟨t, made, found⟩ := exists_ok_of_any found
  simp only [Bool.and_eq_true, decide_eq_true_eq, beq_iff_eq, List.any_eq_true, Option.any_eq_true,
    List.mem_range] at found
  obtain ⟨⟨⟨known, overtaking, positions⟩, label, inFront, current, o, boarded, inTime⟩,
    i, inside, walk, leaving, now, byVehicle, trips, inTimeToo⟩ := found
  let c : Context := ⟨t, .standard, crossingQuery⟩
  have inRange : 0 < crossingQuery.departureTimes.length := by decide
  have allowed : 1 ≤ crossingQuery.maxBoardings := by decide
  obtain ⟨-, rides, walks⟩ := round_closed (c := c) built made inRange (Nat.le_refl 1) allowed
  have more : 0 + 1 < (t.line 0).nbOfPositions := by omega
  exact ⟨layer, t, label, o, walk, _, built, made, overtaking, ⟨inFront, current, boarded⟩,
    rides _ label inFront current 0 known overtaking 0 more rfl o boarded 1 Nat.one_pos more inTime,
    byVehicle, leaving, walks i inside now byVehicle trips walk leaving inTimeToo⟩

end JourneyPlanner.Search
