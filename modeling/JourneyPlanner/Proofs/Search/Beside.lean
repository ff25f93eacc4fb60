import JourneyPlanner.Proofs.Search.Run
import JourneyPlanner.Proofs.Timetable.RunsAs

/-!
Two searches side by side that differ in the legs to the destination and in the names of the lines.
Neither is read before somebody gets off for the destination, and nothing that arrived there is read
again, so the two searches go through the same rounds and grow the same tree. Of what arrives at the
destination they keep whatever relation each arrival keeps.
-/

namespace JourneyPlanner

/-- Two states with everything in common but what has arrived at the destination, which is
related. -/
structure Beside (R : ArrivedFront → ArrivedFront → Prop) (s u : SearchState) : Prop where
  eq_with : u = { s with arrived := u.arrived }
  related : R s.arrived u.arrived

namespace Beside

variable {R : ArrivedFront → ArrivedFront → Prop} {s u : SearchState}

theorem read_eq {α : Type} (h : Beside R s u) (f : SearchState → α)
    (blind : ∀ s front, f { s with arrived := front } = f s) : f u = f s := by
  rw [h.eq_with, blind]

theorem rounds_eq (h : Beside R s u) : u.rounds = s.rounds :=
  h.read_eq SearchState.rounds fun _ _ => rfl

theorem tree_eq (h : Beside R s u) : u.tree = s.tree :=
  h.read_eq SearchState.tree fun _ _ => rfl

theorem iteration_eq (h : Beside R s u) : u.iteration = s.iteration :=
  h.read_eq SearchState.iteration fun _ _ => rfl

theorem round_eq (h : Beside R s u) : u.round = s.round :=
  h.read_eq SearchState.round fun _ _ => rfl

theorem isCovered_eq (h : Beside R s u) (p : Profile) : u.isCovered p = s.isCovered p :=
  h.read_eq (SearchState.isCovered p) fun _ _ => rfl

theorem isCoveredByTransit_eq (h : Beside R s u) (p : Profile) :
    u.isCoveredByTransit p = s.isCoveredByTransit p :=
  h.read_eq (SearchState.isCoveredByTransit p) fun _ _ => rfl

theorem map (h : Beside R s u) (f : SearchState → SearchState)
    (apart : ∀ s front, f { s with arrived := front } = { f s with arrived := front }) :
    Beside R (f s) (f u) := by
  have left : (f s).arrived = s.arrived := by
    rw [apart s s.arrived]
  have right : f u = { f s with arrived := u.arrived } := by
    rw [← apart, ← h.eq_with]
  refine ⟨?_, ?_⟩
  · rw [right]
  · rw [left, right]
    exact h.related

theorem eq (h : Beside Eq s u) : u = s := by
  rw [h.eq_with, ← h.related]

theorem setArrived (h : Beside R s u) {first second : ArrivedFront} (related : R first second) :
    Beside R { s with arrived := first } { u with arrived := second } :=
  ⟨by rw [h.eq_with], related⟩

theorem foldl {α : Type} {f g : SearchState → α → SearchState}
    (step : ∀ s u a, Beside R s u → Beside R (f s a) (g u a)) (l : List α) (h : Beside R s u) :
    Beside R (l.foldl f s) (l.foldl g u) := by
  induction l generalizing s u with
  | nil => exact h
  | cons a l ih => exact ih (step s u a h)

theorem reach (h : Beside R s u) (p : Profile) (round : Nat) (node : Node) :
    Beside R (s.reach p round node) (u.reach p round node) :=
  h.map (fun s => s.reach p round node) fun _ _ => rfl

theorem alight (h : Beside R s u) (p : Profile) (round : Nat) (node : Node) :
    Beside R (s.alight p round node) (u.alight p round node) := by
  refine h.map (fun s => s.alight p round node) fun s front => ?_
  let inserted := (s.pushNode node).insertTransit p node.stop round s.tree.size node.criteria
  -- Whether the arrival is covered is asked of the same rounds.
  have asked : SearchState.alight p { s with arrived := front } round node =
      if inserted.isCovered p node.stop round node.criteria then { inserted with arrived := front }
      else { inserted.insert p node.stop round s.tree.size node.criteria with arrived := front } :=
    rfl
  rw [asked, SearchState.alight]
  split
  · rfl
  · rfl

end Beside

namespace Search

/-- The same search on another timetable and with other legs to the destination. -/
def Context.beside (c : Context) (t : Timetable) (egress : StreetLegs) : Context :=
  { c with timetable := t, query := { c.query with egress := egress } }

/-- Getting off for the destination keeps a relation of what has arrived there. -/
def FinishesBeside (R : ArrivedFront → ArrivedFront → Prop) (c d : Context) : Prop :=
  ∀ {s u : SearchState}, Beside R s u → ∀ latest departure nbOfTransfers node stop criteria,
    Beside R (finish c latest departure nbOfTransfers node stop criteria s)
      (finish d latest departure nbOfTransfers node stop criteria u)

variable {R : ArrivedFront → ArrivedFront → Prop} {c : Context} {t : Timetable}
  {egress : StreetLegs} {s u : SearchState} {latest : SearchTime} {round : Nat}

theorem depart_beside (h : Beside R s u) (departure : SearchTime) (leg : StreetLeg × Nat) :
    Beside R (depart c departure latest s leg)
      (depart (c.beside t egress) departure latest u leg) := by
  change Beside R _ (depart c departure latest u leg)
  simp only [depart, h.isCovered_eq]
  split
  · exact h
  · split
    · exact h
    · rw [h.iteration_eq]
      exact h.reach ..

theorem walk_beside (h : Beside R s u) (label : NodeIndex × Criteria) (w : Walk) :
    Beside R (walk c latest round label s w) (walk (c.beside t egress) latest round label u w) := by
  change Beside R _ (walk c latest round label u w)
  simp only [walk, h.isCovered_eq]
  split
  · exact h
  · split
    · exact h
    · have node : u.tree.walkNode label.1 w.footpath w.duration w.target (walkCriteria c label.2 w)
          u.iteration = s.tree.walkNode label.1 w.footpath w.duration w.target
            (walkCriteria c label.2 w) s.iteration := by
        rw [h.tree_eq, h.iteration_eq]
      rw [node]
      exact h.reach ..

variable (alike : c.timetable.RunsAs t)
include alike

theorem walkAll_beside (h : Beside R s u) (stop : StopIndex) (labels : StopFront) :
    Beside R (walkAll c latest round stop labels s)
      (walkAll (c.beside t egress) latest round stop labels u) := by
  refine Beside.foldl (fun s u label h => ?_) labels h
  have walks : (c.beside t egress).timetable.walksFrom stop = c.timetable.walksFrom stop :=
    alike.walksFrom_eq stop
  rw [walks]
  exact Beside.foldl (fun s u w h => walk_beside h label w) _ h

theorem walkFromAccess_beside (h : Beside R s u) :
    Beside R (walkFromAccess c latest s) (walkFromAccess (c.beside t egress) latest u) := by
  rw [walkFromAccess, walkFromAccess, ← Array.foldl_toList, ← Array.foldl_toList, h.round_eq]
  refine Beside.foldl (fun s u stop h => ?_) _ h
  have labels : accessLabels u stop = accessLabels s stop :=
    h.read_eq (accessLabels · stop) fun _ _ => rfl
  rw [labels]
  exact walkAll_beside alike h stop _

theorem walkFromTransit_beside (h : Beside R s u) :
    Beside R (walkFromTransit c latest round s)
      (walkFromTransit (c.beside t egress) latest round u) := by
  rw [walkFromTransit, walkFromTransit, ← Array.foldl_toList, ← Array.foldl_toList, h.round_eq]
  refine Beside.foldl (fun s u stop h => ?_) _ h
  have labels : transitLabels u round stop = transitLabels s round stop :=
    h.read_eq (transitLabels · round stop) fun _ _ => rfl
  rw [labels]
  exact walkAll_beside alike h stop _

theorem runAccess_beside (h : Beside R s u) (departure : SearchTime) :
    Beside R (runAccess c departure s) (runAccess (c.beside t egress) departure u) := by
  refine walkFromAccess_beside alike ?_
  refine Beside.foldl (fun s u leg h => depart_beside h departure leg) _ ?_
  exact h.map SearchState.nextIteration fun _ _ => rfl

theorem carry_beside (h : Beside R s u) (index : LineIndex) (position : Nat)
    (onboard : Front Onboard Criteria) :
    carry (c.beside t egress) round (t.line index) position u onboard =
      carry c round (c.timetable.line index) position s onboard :=
  calc carry c round (t.line index) position u onboard
      = carry c round (t.line index).unnamed position s onboard := by
        rw [h.eq_with]
        rfl
    _ = carry c round (c.timetable.line index) position s onboard := by
        rw [alike.line_eq]
        rfl

variable (finishes : FinishesBeside R c (c.beside t egress))
include finishes

omit alike in
theorem debark_beside (latest : SearchTime) (round : Nat) (h : Beside R s u) (line : LineIndex)
    (position : Nat) (stop : StopIndex) (o : Onboard × Criteria) :
    Beside R (debark c latest round line position stop s o)
      (debark (c.beside t egress) latest round line position stop u o) := by
  rw [debark_eq, debark_eq]
  simp only [h.isCoveredByTransit_eq, h.tree_eq, h.iteration_eq, Context.beside]
  split
  · exact h
  · split
    · exact h
    · exact finishes (h.alight ..) ..

theorem visit_beside (latest : SearchTime) (round : Nat) (h : Beside R s u) (line : LineIndex)
    (position : Nat) (onboard : Front Onboard Criteria) :
    let left := visit c latest round line (onboard, s) position
    let right := visit (c.beside t egress) latest round line (onboard, u) position
    Beside R left.2 right.2 ∧ right.1 = left.1 := by
  have stops : (t.line line).stopAt = (c.timetable.line line).stopAt :=
    Line.stopAt_eq (alike.line_eq line)
  have positions : (t.line line).nbOfPositions = (c.timetable.line line).nbOfPositions :=
    Line.nbOfPositions_eq (alike.line_eq line)
  have debarked := Beside.foldl (fun s u o h => debark_beside finishes latest round h line
    position ((c.timetable.line line).stopAt position) o) onboard h
  have same : (c.beside t egress).timetable = t := rfl
  simp only [visit, same, stops, positions]
  split
  · exact ⟨debarked, rfl⟩
  · exact ⟨debarked, carry_beside alike debarked line position onboard⟩

theorem visits_beside (h : Beside R s u) (line : LineIndex) (positions : List Nat)
    (onboard : Front Onboard Criteria) :
    Beside R (positions.foldl (visit c latest round line) (onboard, s)).2
      (positions.foldl (visit (c.beside t egress) latest round line) (onboard, u)).2 := by
  induction positions generalizing s u onboard with
  | nil => exact h
  | cons position rest ih =>
      obtain ⟨here, aboard⟩ := visit_beside alike finishes latest round h line position onboard
      rw [List.foldl_cons, List.foldl_cons, ← Prod.eta (visit (c.beside t egress) _ _ _ _ _), aboard]
      exact ih here _

theorem ride_beside (h : Beside R s u) (entry : LineIndex × Nat) :
    Beside R (ride c latest round s entry) (ride (c.beside t egress) latest round u entry) := by
  have positions : (t.line entry.1).nbOfPositions = (c.timetable.line entry.1).nbOfPositions :=
    Line.nbOfPositions_eq (alike.line_eq entry.1)
  have same : (c.beside t egress).timetable = t := rfl
  simp only [ride, same, positions]
  refine visits_beside alike finishes ?_ entry.1 _ []
  exact h.map (fun s => { s with nbOfScans := s.nbOfScans + 1 }) fun _ _ => rfl

theorem runRound_beside (h : Beside R s u) (lines : List (LineIndex × Nat)) :
    Beside R (runRound c latest round lines s)
      (runRound (c.beside t egress) latest round lines u) := by
  refine walkFromTransit_beside alike
    (Beside.foldl (fun s u entry h => ride_beside alike finishes h entry) lines ?_)
  exact h.map (fun s => { s with lastRound := max s.lastRound round }) fun _ _ => rfl

theorem allRounds_beside (h : Beside R s u) (left round : Nat) :
    Beside R (allRounds c latest left round s)
      (allRounds (c.beside t egress) latest left round u) := by
  induction left generalizing s u round with
  | zero => exact h
  | succ left ih =>
      have lines : linesToRide (c.beside t egress) u round = linesToRide c s round := by
        rw [linesToRide, linesToRide, h.round_eq, ← alike.touch_eq]
        rfl
      rw [allRounds_succ, allRounds_succ, lines]
      split
      · exact h
      · exact ih (runRound_beside alike finishes h _) (round + 1)

omit alike in
theorem arriveOnFoot_beside (h : Beside R s u) :
    Beside R (arriveOnFoot c latest s) (arriveOnFoot (c.beside t egress) latest u) := by
  rw [arriveOnFoot, arriveOnFoot, ← Array.foldl_toList, ← Array.foldl_toList, h.round_eq]
  refine Beside.foldl (fun s u stop h => ?_) _ h
  have labels : currentLabels u 0 stop = currentLabels s 0 stop :=
    h.read_eq (currentLabels · 0 stop) fun _ _ => rfl
  rw [labels]
  refine Beside.foldl (fun s u label h => ?_) _ h
  rw [h.tree_eq]
  exact finishes h ..

theorem fullIteration_beside (h : Beside R s u) (departure : SearchTime) :
    Beside R (fullIteration c s departure) (fullIteration (c.beside t egress) u departure) := by
  have started : Beside R _ (runAccess (c.beside t egress) departure u) :=
    runAccess_beside alike h departure
  have latest : latestArrival (c.beside t egress) departure = latestArrival c departure := rfl
  have allowed : (c.beside t egress).query.maxBoardings = c.query.maxBoardings := rfl
  simp only [fullIteration_eq, latest, allowed]
  split
  · exact arriveOnFoot_beside finishes started
  · exact allRounds_beside alike finishes started _ 0

theorem run_beside (nothing : R [] []) (some : egress.isEmpty = c.query.egress.isEmpty) :
    Beside R (run c).state (run (c.beside t egress)).state ∧
      (run (c.beside t egress)).truncated = (run c).truncated := by
  have start : Beside R (SearchState.initial c.timetable.nbOfStops c.query.maxBoardings)
      (SearchState.initial t.nbOfStops c.query.maxBoardings) := by
    rw [alike.nbOfStops_eq]
    exact ⟨rfl, nothing⟩
  have stops : (c.beside t egress).timetable = t := rfl
  have access : (c.beside t egress).query.access = c.query.access := rfl
  have arrives : (c.beside t egress).query.egress = egress := rfl
  have late : (c.beside t egress).query.isLate = c.query.isLate := rfl
  have allowed : (c.beside t egress).query.maxBoardings = c.query.maxBoardings := rfl
  have times : (c.beside t egress).query.departureTimes = c.query.departureTimes := rfl
  simp only [run_eq, stops, access, arrives, some, late, allowed, times]
  split
  · exact ⟨start, rfl⟩
  · split
    · exact ⟨start, rfl⟩
    · exact ⟨Beside.foldl (fun s u departure h => fullIteration_beside alike finishes h departure) _
        start, rfl⟩

omit finishes in
theorem run_eq_of_runsAs : run { c with timetable := t } = run c := by
  have same : FinishesBeside Eq c (c.beside t c.query.egress) := by
    intro s u h latest departure nbOfTransfers node stop criteria
    obtain rfl := h.eq
    exact ⟨rfl, rfl⟩
  obtain ⟨beside, truncated⟩ := run_beside alike same rfl rfl
  have outcome (o : Outcome) : o = ⟨o.state, o.truncated⟩ := rfl
  rw [outcome (run c), ← beside.eq, ← truncated]
  rfl

end Search

/-- The second front is nowhere worse than the first one. -/
def ArrivedFront.CoversAll (p : Profile) (first second : ArrivedFront) : Prop :=
  ∀ criteria, first.covers p.atLeastAsGoodAtDestination criteria = true →
    second.covers p.atLeastAsGoodAtDestination criteria = true

namespace ArrivedFront.CoversAll

variable {p : Profile} {first second : ArrivedFront}

theorem add_right (h : CoversAll p first second) (arrived : Arrived) (criteria : ArrivalCriteria) :
    CoversAll p first (second.add p.atLeastAsGoodAtDestination arrived criteria) :=
  fun covered before => Front.covers_add p.atLeastAsGoodAtDestination_refl
    p.atLeastAsGoodAtDestination_trans (h covered before) arrived criteria

theorem add (h : CoversAll p first second) (arrived other : Arrived) (criteria : ArrivalCriteria) :
    CoversAll p (first.add p.atLeastAsGoodAtDestination arrived criteria)
      (second.add p.atLeastAsGoodAtDestination other criteria) := by
  intro covered before
  obtain ⟨element, member, better⟩ := Front.covers_iff.1 before
  rcases Front.mem_of_mem_add member with old | rfl
  · exact h.add_right other criteria covered (Front.covers_iff.2 ⟨element, old, better⟩)
  · exact Front.covers_of_le p.atLeastAsGoodAtDestination_trans
      (Front.covers_add_self p.atLeastAsGoodAtDestination_refl second other criteria) better

end ArrivedFront.CoversAll

namespace Search

variable {c : Context} {t : Timetable} {egress : StreetLegs}

theorem finishesBeside_of_legs (kept : ∀ {stop index leg},
      c.query.egress.atStop? stop = some (index, leg) →
        ∃ place, egress.atStop? stop = some (place, leg)) :
    FinishesBeside (ArrivedFront.CoversAll c.profile) c (c.beside t egress) := by
  intro s u h latest departure nbOfTransfers node stop criteria
  simp only [finish, Context.beside]
  cases found : c.query.egress.atStop? stop with
  | none =>
      cases egress.atStop? stop with
      | none => exact h
      | some other =>
          simp only
          split
          · exact h
          · exact h.setArrived (h.related.add_right _ _)
  | some entry =>
      obtain ⟨place, foundToo⟩ := kept found
      simp only [foundToo]
      split
      · exact h
      · exact h.setArrived (h.related.add _ _ _)

end Search

end JourneyPlanner
