import JourneyPlanner.Proofs.Search.Kept
import JourneyPlanner.Proofs.Timetable.Touched

/-!
What is not forgotten in a round. A label of the round before boards every line at its stop. On a
line where trips may overtake each other it stays on board to the end; on other lines somebody who is
at least as good at the next position may stay on board in its place. So each later stop is covered
by what it would arrive there with, unless it would have overtaken the other one on the way. What is
covered stays covered in all that follows.
-/

namespace JourneyPlanner.Search

variable {c : Context} {round first last : Nat} {s t : SearchState}

theorem Moves.foldl_of_mem {f : SearchState → α → SearchState} {l : List α} {a : α}
    (member : a ∈ l)
    (step : ∀ b ∈ l, ∀ t, Moves c first last s t → Moves c first last t (f t b))
    {P : SearchState → Prop} (keeps : ∀ t u, Moves c first last t u → P t → P u)
    (establishes : ∀ t, Moves c first last s t → P (f t a)) : P (l.foldl f s) := by
  obtain ⟨before, after, rfl⟩ := List.append_of_mem member
  rw [List.foldl_append, List.foldl_cons]
  have start : Moves c first last s (before.foldl f s) :=
    Moves.foldl fun b among t moves => step b (List.mem_append_left _ among) t moves
  have here := step a member _ start
  have rest : Moves c first last (f (before.foldl f s) a)
      (after.foldl f (f (before.foldl f s) a)) := by
    refine Moves.foldl fun b among t moves => ?_
    exact step b (List.mem_append_right _ (List.mem_cons_of_mem _ among)) t
      ((start.trans here).trans moves)
  exact keeps _ _ rest (establishes _ start)

/-- A label of the round before can board a line at a position. -/
structure CanBoard (c : Context) (round : Nat) (line : LineIndex) (position : Nat)
    (s : SearchState) (label : NodeIndex × Criteria) (o : Onboard) : Prop where
  inFront : label ∈ (s.round (round - 1)).front ((c.timetable.line line).stopAt position)
  current : s.tree.iteration label.1 = s.iteration
  boarded : board c (c.timetable.line line) position s.tree label = some o

theorem canBoard_iff_of_moves {line : LineIndex} {position : Nat} {label : NodeIndex × Criteria}
    {o : Onboard} (h : Consistent c s) (moves : Moves c first last s t) (positive : 0 < round)
    (le : round ≤ first) :
    CanBoard c round line position t label o ↔ CanBoard c round line position s label o := by
  have front : t.round (round - 1) = s.round (round - 1) := moves.round_eq (by omega)
  constructor
  · rintro ⟨inFront, current, boarded⟩
    rw [front] at inFront
    have same := moves.extends.node_eq _ (h.labels _ _ _ inFront).older
    rw [JourneyTree.iteration, same, moves.iteration_eq] at current
    rw [board_congr _ _ _ same] at boarded
    exact ⟨inFront, current, boarded⟩
  · rintro ⟨inFront, current, boarded⟩
    have same := moves.extends.node_eq _ (h.labels _ _ _ inFront).older
    refine ⟨?_, ?_, ?_⟩
    · rw [front]
      exact inFront
    · rw [JourneyTree.iteration, same, moves.iteration_eq]
      exact current
    · rw [board_congr _ _ _ same]
      exact boarded

@[simp] theorem round_finish (latest departure : SearchTime) (nbOfTransfers : Nat)
    (node : NodeIndex) (stop : StopIndex) (criteria : Criteria) (s : SearchState) (i : Nat) :
    (finish c latest departure nbOfTransfers node stop criteria s).round i = s.round i := by
  simp only [finish]
  split
  · rfl
  · split
    · rfl
    · rfl

theorem isCoveredByTransit_debark (sized : s.Sized c.timetable.nbOfStops c.query.maxBoardings)
    (allowed : round ≤ c.query.maxBoardings) (line : LineIndex) (position : Nat)
    (known : (c.timetable.line line).stopAt position < c.timetable.nbOfStops) (o : Onboard)
    (latest : SearchTime)
    (inTime : ¬latest < (o.criteriaAt (c.timetable.line line) position c.query.costs).arrival) :
    (debark c latest round line position ((c.timetable.line line).stopAt position) s
        (o, o.criteriaAt (c.timetable.line line) position c.query.costs)).isCoveredByTransit
      c.profile ((c.timetable.line line).stopAt position) round
        (o.criteriaAt (c.timetable.line line) position c.query.costs) = true := by
  refine (debark_rideNode latest line position s o) ▸ ?_
  split
  · next late => exact absurd late inTime
  · split
    · next covered => exact covered
    · have kept : IsKept c.profile (s.alight c.profile round (rideNode c line s.iteration o position))
          round ((c.timetable.line line).stopAt position)
            (o.criteriaAt (c.timetable.line line) position c.query.costs) :=
        isKept_new c.profile sized allowed known rfl
      obtain ⟨label, member, -, better⟩ := kept
      refine SearchState.isCoveredByTransit_iff.2 ⟨round, Nat.le_refl _, ?_⟩
      rw [round_finish]
      exact Front.covers_iff.2 ⟨label, member, better⟩

/-- The criteria of getting off a line at a position. -/
abbrev criteriaOn (c : Context) (line : LineIndex) (o : Onboard) (position : Nat) : Criteria :=
  o.criteriaAt (c.timetable.line line) position c.query.costs

/-- On a line where only the best ones are kept on board, somebody overtakes another one who was at
least as good, on the way to a later position. -/
def Overtakes (c : Context) (round : Nat) (line : LineIndex) (s : SearchState) (o : Onboard)
    (later : Nat) : Prop :=
  (c.timetable.line line).pattern.fifo = true ∧
    ∃ position other, IsOnboard c round line s other ∧ other.boardPosition < position ∧
      o.boardPosition < position ∧ position < later ∧
      c.profile.atLeastAsGood (criteriaOn c line other position) (criteriaOn c line o position) =
          true ∧
        c.profile.atLeastAsGood (criteriaOn c line other (position + 1))
          (criteriaOn c line o (position + 1)) = false

theorem Overtakes.moves {line : LineIndex} {o : Onboard} {later : Nat}
    (h : Overtakes c round line s o later) (moves : Moves c first last s t) :
    Overtakes c round line t o later := by
  obtain ⟨fifo, position, other, isOnboard, rest⟩ := h
  exact ⟨fifo, position, other, isOnboard.moves moves, rest⟩

theorem Overtakes.mono {line : LineIndex} {o : Onboard} {sooner later : Nat}
    (h : Overtakes c round line s o sooner) (le : sooner ≤ later) :
    Overtakes c round line s o later := by
  obtain ⟨fifo, position, other, isOnboard, ahead, boarded, less, rest⟩ := h
  exact ⟨fifo, position, other, isOnboard, ahead, boarded, Nat.lt_of_lt_of_le less le, rest⟩

/-- Somebody on board before a position is at least as good there. Where everybody is kept on board
it is the same one. -/
def IsMatched (c : Context) (line : LineIndex) (position : Nat) (onboard : Front Onboard Criteria)
    (o : Onboard) : Prop :=
  ∃ other ∈ onboard, c.profile.atLeastAsGood other.2 (criteriaOn c line o position) = true ∧
    ((c.timetable.line line).pattern.fifo = false → other.1 = o)

theorem isMatched_carry {line : LineIndex} {position : Nat} {onboard : Front Onboard Criteria}
    {o : Onboard}
    (candidate : (∃ label ∈ currentLabels s (round - 1) ((c.timetable.line line).stopAt position),
        board c (c.timetable.line line) position s.tree label = some o) ∨
      ∃ criteria, (o, criteria) ∈ onboard) :
    IsMatched c line (position + 1)
      (carry c round (c.timetable.line line) position s onboard) o := by
  have among : o ∈ (currentLabels s (round - 1)
      ((c.timetable.line line).stopAt position)).filterMap
        (board c (c.timetable.line line) position s.tree) ++ onboard.map (·.1) := by
    rcases candidate with boards | ⟨criteria, stays⟩
    · exact List.mem_append_left _ (List.mem_filterMap.2 boards)
    · exact List.mem_append_right _ (List.mem_map.2 ⟨_, stays, rfl⟩)
  have member := List.mem_map_of_mem
    (f := fun o => (o, criteriaOn c line o (position + 1))) among
  simp only [IsMatched, carry]
  split
  · next fifo =>
      have covered := Front.covers_ofCandidates c.profile.atLeastAsGood_refl
        c.profile.atLeastAsGood_trans member
      obtain ⟨other, kept, better⟩ := Front.covers_iff.1 covered
      exact ⟨other, kept, better, fun notFifo => absurd fifo (Bool.eq_false_iff.1 notFifo)⟩
  · exact ⟨_, member, c.profile.atLeastAsGood_refl _, fun _ => rfl⟩

/-- Where somebody is matched before a position its stop gets covered, and at the next position the
other one is still matched or has overtaken. -/
theorem visit_matches (h : Consistent c s)
    (allowed : round ≤ c.query.maxBoardings) (regular : c.timetable.IsRegular) {line : LineIndex}
    {position : Nat} {onboard : Front Onboard Criteria}
    (ready : Ready c round line position s onboard)
    (inside : position < (c.timetable.line line).nbOfPositions) {o : Onboard}
    (matched : IsMatched c line position onboard o) (boarded : o.boardPosition < position) :
    let after := visit c (latestOf c s.iteration) round line (onboard, s) position
    ((criteriaOn c line o position).arrival ≤ latestOf c s.iteration →
      after.2.isCoveredByTransit c.profile ((c.timetable.line line).stopAt position) round
        (criteriaOn c line o position) = true) ∧
      (position + 1 ≠ (c.timetable.line line).nbOfPositions →
        IsMatched c line (position + 1) after.1 o ∨
          Overtakes c round line s o (position + 1)) := by
  obtain ⟨other, member, better, same⟩ := matched
  obtain ⟨isOnboard, criteria, ahead⟩ := ready other member
  rw [criteria] at better
  have known := regular.stopAt_lt line (Timetable.lt_nbOfLines inside) position inside
  have covers (inTime : (criteriaOn c line o position).arrival ≤ latestOf c s.iteration) :
      (onboard.foldl (debark c (latestOf c s.iteration) round line position
        ((c.timetable.line line).stopAt position)) s).isCoveredByTransit c.profile
          ((c.timetable.line line).stopAt position) round (criteriaOn c line o position) = true := by
    have sooner := Int.le_trans (Profile.arrival_le_of_atLeastAsGood better) inTime
    refine SearchState.isCoveredByTransit_of_atLeastAsGood ?_ better
    refine Moves.foldl_of_mem (c := c) (P := fun t => t.isCoveredByTransit c.profile
        ((c.timetable.line line).stopAt position) round (criteriaOn c line other.1 position) = true)
      member (fun _ among _ moves => ready.debark_moves allowed inside among moves)
      (fun t u moves covered => moves.isCoveredByTransit covered)
      fun t moves => ?_
    have equal : other = (other.1, criteriaOn c line other.1 position) := Prod.ext rfl criteria
    rw [equal]
    exact isCoveredByTransit_debark (h.moves moves).sized allowed line position known other.1 _
      (Int.not_lt.2 sooner)
  simp only [visit]
  split
  · next atEnd => exact ⟨covers, fun goesOn => absurd atEnd goesOn⟩
  · refine ⟨covers, fun _ => ?_⟩
    obtain ⟨next, kept, lower, sameNext⟩ : IsMatched c line (position + 1) _ other.1 :=
      isMatched_carry (.inr ⟨other.2, member⟩)
    cases level : c.profile.atLeastAsGood (criteriaOn c line other.1 (position + 1))
        (criteriaOn c line o (position + 1)) with
    | true =>
        exact .inl ⟨next, kept, c.profile.atLeastAsGood_trans _ _ _ lower level,
          fun notFifo => (sameNext notFifo).trans (same notFifo)⟩
    | false =>
        -- Where everybody is kept on board, nobody is behind oneself.
        cases fifo : (c.timetable.line line).pattern.fifo with
        | true =>
            exact .inr ⟨fifo, position, other.1, isOnboard, ahead, boarded, Nat.lt_succ_self _,
              better, level⟩
        | false =>
            rw [same fifo, c.profile.atLeastAsGood_refl] at level
            cases level

theorem visit_boards_matched (h : Consistent c s) (positive : 0 < round)
    (allowed : round ≤ c.query.maxBoardings) {line : LineIndex} {position : Nat}
    {onboard : Front Onboard Criteria} (ready : Ready c round line position s onboard)
    (goesOn : position + 1 < (c.timetable.line line).nbOfPositions) {label : NodeIndex × Criteria}
    {o : Onboard} (able : CanBoard c round line position s label o) :
    IsMatched c line (position + 1)
      (visit c (latestOf c s.iteration) round line (onboard, s) position).1 o := by
  obtain ⟨moves, -⟩ := visit_moves h positive allowed ready (Nat.lt_of_succ_lt goesOn)
  have still := (canBoard_iff_of_moves h moves positive (Nat.le_refl round)).2 able
  simp only [visit, if_neg (Nat.ne_of_lt goesOn)] at still ⊢
  refine isMatched_carry (.inl ⟨label, ?_, still.boarded⟩)
  simp only [currentLabels, List.mem_filter, beq_iff_eq]
  exact ⟨still.inFront, still.current⟩

theorem visits_match (positive : 0 < round) (allowed : round ≤ c.query.maxBoardings)
    (regular : c.timetable.IsRegular) {line : LineIndex} {o : Onboard} {later : Nat}
    (inTime : (criteriaOn c line o later).arrival ≤ latestOf c s.iteration) (count start : Nat)
    (h : Consistent c s) {onboard : Front Onboard Criteria}
    (ready : Ready c round line start s onboard)
    (inside : start + count ≤ (c.timetable.line line).nbOfPositions)
    (matched : IsMatched c line start onboard o) (boarded : o.boardPosition < start)
    (start_le : start ≤ later) (lt_end : later < start + count) :
    let after := ((List.range' start count).foldl (visit c (latestOf c s.iteration) round line)
      (onboard, s)).2
    after.isCoveredByTransit c.profile ((c.timetable.line line).stopAt later) round
        (criteriaOn c line o later) = true ∨ Overtakes c round line after o later := by
  induction count generalizing start s onboard with
  | zero => exact absurd lt_end (by omega)
  | succ count ih =>
      rw [List.range'_succ, List.foldl_cons]
      obtain ⟨moves, next⟩ := visit_moves h positive allowed ready (by omega)
      obtain ⟨covers, onward⟩ := visit_matches h allowed regular ready (by omega) matched boarded
      obtain ⟨rest, -⟩ := visits_moves positive allowed line count (start + 1) (h.moves moves) next
        (by omega)
      rw [moves.iteration_eq] at rest
      by_cases here : later = start
      · subst here
        exact .inl (rest.isCoveredByTransit (covers inTime))
      · rcases onward (by omega) with stillMatched | overtakes
        · have further := ih (s := (visit c (latestOf c s.iteration) round line (onboard, s) start).2)
          rw [moves.iteration_eq] at further
          exact further inTime (start + 1) (h.moves moves) next (by omega) stillMatched (by omega)
            (by omega) (by omega)
        · exact .inr (((overtakes.moves moves).moves rest).mono (by omega))

theorem range'_split {start position stop : Nat} (le : start ≤ position) (lt : position < stop) :
    List.range' start (stop - start) = List.range' start (position - start) ++
      position :: List.range' (position + 1) (stop - position - 1) := by
  have split := List.range'_append_1 (s := start) (m := position - start)
    (n := stop - position - 1 + 1)
  rw [Nat.add_sub_cancel' le, List.range'_succ] at split
  have count : stop - start = position - start + (stop - position - 1 + 1) := by omega
  rw [count]
  exact split.symm

/-- Riding a line from a position or an earlier one covers all that a label there can reach, up to
where somebody is overtaken. -/
theorem ride_matches (h : Consistent c s) (positive : 0 < round)
    (allowed : round ≤ c.query.maxBoardings) (regular : c.timetable.IsRegular)
    (entry : LineIndex × Nat) {position : Nat} (first_le : entry.2 ≤ position)
    {label : NodeIndex × Criteria} {o : Onboard}
    (able : CanBoard c round entry.1 position s label o) {later : Nat} (ahead : position < later)
    (inside : later < (c.timetable.line entry.1).nbOfPositions)
    (inTime : (criteriaOn c entry.1 o later).arrival ≤ latestOf c s.iteration) :
    let after := ride c (latestOf c s.iteration) round s entry
    after.isCoveredByTransit c.profile ((c.timetable.line entry.1).stopAt later) round
        (criteriaOn c entry.1 o later) = true ∨ Overtakes c round entry.1 after o later := by
  let counted : SearchState := { s with nbOfScans := s.nbOfScans + 1 }
  have counts : Moves c round round s counted := (Move.count s.lastRound _).moves
  have nobody : Ready c round entry.1 entry.2 counted [] :=
    fun _ member => absurd member List.not_mem_nil
  -- The positions before the one where the label boards.
  obtain ⟨moves, ready⟩ := visits_moves positive allowed entry.1 (position - entry.2) entry.2
    (h.moves counts) nobody (by omega)
  rw [Nat.add_sub_cancel' first_le] at ready
  simp only [ride]
  rw [range'_split first_le (Nat.lt_trans ahead inside), List.foldl_append, List.foldl_cons]
  generalize (List.range' entry.2 (position - entry.2)).foldl
    (visit c (latestOf c s.iteration) round entry.1)
      ([], { s with nbOfScans := s.nbOfScans + 1 }) = before at moves ready ⊢
  obtain ⟨onboard, u⟩ := before
  have all : Moves c round round s u := counts.trans moves
  have consistent := h.moves all
  have number : u.iteration = s.iteration := all.iteration_eq
  have boards := visit_boards_matched consistent positive allowed ready (by omega)
    ((canBoard_iff_of_moves h all positive (Nat.le_refl round)).2 able)
  obtain ⟨visited, next⟩ := visit_moves consistent positive allowed ready (by omega)
  have boardPosition : o.boardPosition = position := by
    obtain ⟨trip, time, -, boarding⟩ := board_eq_some able.boarded
    rw [boarding]
  -- The positions after it.
  have inTimeNow : (criteriaOn c entry.1 o later).arrival ≤ latestOf c
      (visit c (latestOf c u.iteration) round entry.1 (onboard, u) position).2.iteration := by
    rwa [visited.iteration_eq, number]
  have covers := visits_match positive allowed regular inTimeNow
    ((c.timetable.line entry.1).nbOfPositions - position - 1) (position + 1)
    (consistent.moves visited) next (by omega) boards (by omega) (by omega) (by omega)
  rw [visited.iteration_eq, number] at covers
  exact covers

end JourneyPlanner.Search
