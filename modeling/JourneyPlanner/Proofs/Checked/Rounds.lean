import JourneyPlanner.Proofs.Checked.Search
import JourneyPlanner.Proofs.Timetable.Touched

/-!
The rounds of a search with each lookup checked, for one departure time and for the whole range. The
rounds end by themselves or at the largest number of boardings, so there is a round for each; the
lines to ride are lines of the timetable.
-/

namespace JourneyPlanner.Checked

open Search

variable {c : Context} {s : SearchState} {round : Nat}

def boardableAt (t : Timetable) (stop : StopIndex) : Option (List (LineIndex × Nat)) := do
  filter (fun visit => do return visit.2 + 1 < (← t.lines[visit.1]?).nbOfPositions)
    (← t.stopLines[stop]?)

theorem boardableAt_eq {t : Timetable} (inRange : t.InRange) {stop : StopIndex}
    (known : stop < t.nbOfStops) : boardableAt t stop = some (t.boardableAt stop) := by
  have inside : stop < t.stopLines.size := inRange.stopLines.symm ▸ known
  have visits : t.stopLines[stop]? = some (t.linesAt stop) := by
    simp [Timetable.linesAt, inside]
  rw [boardableAt, visits]
  refine filter_eq fun visit member => ?_
  obtain ⟨index, position⟩ := visit
  obtain ⟨line, there, -⟩ := inRange.visits _ (Array.mem_of_getElem? visits) _ member
  have same := Timetable.line_of_getElem? there
  subst same
  simp only [there, Option.bind_eq_bind, Option.bind_some]
  rfl

def linesToRide (c : Context) (s : SearchState) (round : Nat) :
    Option (List (LineIndex × Nat)) := do
  let places ← (← s.rounds[round]?).stops.toList.mapM (boardableAt c.timetable)
  return (places.flatten.foldl (fun touched (line, position) => touched.insert line position)
    TouchedLines.empty).entries

theorem linesToRide_eq (inRange : c.InRange) (reached : Reached c s)
    (allowed : round ≤ c.query.maxBoardings) :
    linesToRide c s round = some (Search.linesToRide c s round) := by
  have places : (s.round round).stops.toList.mapM (boardableAt c.timetable) =
      some ((s.round round).stops.toList.map c.timetable.boardableAt) :=
    mapM_eq fun stop member => boardableAt_eq inRange.timetable
      ((reached.listed inRange round).2 stop (Array.mem_toList_iff.1 member))
  simp only [linesToRide, getElem?_rounds reached.consistent.sized allowed, places,
    Search.linesToRide, Timetable.touch, List.flatMap, Option.bind_eq_bind, Option.bind_some]
  rfl

theorem foldlM_rides {f : SearchState → LineIndex × Nat → Option SearchState}
    (h : Consistent c s) (positive : 0 < round) (allowed : round ≤ c.query.maxBoardings)
    (lines : List (LineIndex × Nat))
    (each : ∀ entry ∈ lines, ∀ t, Moves c round round s t →
      f t entry = some (Search.ride c (latestOf c s.iteration) round t entry)) :
    lines.foldlM f s = some (lines.foldl (Search.ride c (latestOf c s.iteration) round) s) := by
  refine foldlM_moves c round round fun entry member t moves => ⟨each entry member t moves, ?_⟩
  rw [← moves.iteration_eq]
  exact ride_moves (h.moves moves) positive allowed entry

theorem foldlM_departs {f : SearchState → StreetLeg × Nat → Option SearchState}
    (each : ∀ entry ∈ c.query.access.legs.toList.zipIdx, ∀ t, Moves c 0 0 s t →
      f t entry = some (Search.depart c (departureOf c s.iteration) (latestOf c s.iteration) t
        entry)) :
    c.query.access.legs.toList.zipIdx.foldlM f s =
      some (c.query.access.legs.toList.zipIdx.foldl
        (Search.depart c (departureOf c s.iteration) (latestOf c s.iteration)) s) ∧
    Moves c 0 0 s (c.query.access.legs.toList.zipIdx.foldl
      (Search.depart c (departureOf c s.iteration) (latestOf c s.iteration)) s) :=
  ⟨foldlM_moves c 0 0 fun entry member t moves =>
    ⟨each entry member t moves, moves.depart_moves member⟩,
    Moves.foldl fun _ member _ moves => moves.depart_moves member⟩

/-- Tries some departure times one after the other, until the time is over. -/
def runAll (iterate : SearchState → SearchTime → Option Outcome) (isOver : Checks) :
    List SearchTime → SearchState → Option Outcome
  | [], s => some ⟨s, false⟩
  | departure :: rest, s =>
      if isOver (s.iteration + 1) 0 then some ⟨s, true⟩
      else do
        let outcome ← iterate s departure
        if outcome.truncated then return outcome else runAll iterate isOver rest outcome.state

theorem runAll_eq {iterate : SearchState → SearchTime → Option Outcome} {isOver : Checks}
    (each : ∀ s, Reached c s → s.iteration < c.query.departureTimes.length →
      iterate s (departureOf c (s.iteration + 1)) =
        some (Search.runIteration c isOver s (departureOf c (s.iteration + 1))))
    {times : List SearchTime} (reached : Reached c s)
    (left : times = c.query.departureTimes.drop s.iteration) :
    runAll iterate isOver times s = some (Search.runAll c isOver times s) := by
  induction times generalizing s with
  | nil => rfl
  | cons departure rest ih =>
      obtain ⟨more, rfl, others⟩ := departureOf_of_left left
      simp only [runAll, Search.runAll, each s reached more, Option.bind_eq_bind, Option.bind_some]
      split
      · rfl
      · split
        · rfl
        · next whole =>
            rw [Search.runIteration_eq (Bool.eq_false_iff.2 whole)]
            refine ih (reached.fullIteration more) ?_
            rw [others, (fullIteration_moves reached.consistent).iteration_eq]
            rfl

def runRound (c : Context) (latest : SearchTime) (round : Nat) (lines : List (LineIndex × Nat))
    (s : SearchState) : Option SearchState := do
  walkFromTransit c latest round
    (← lines.foldlM (ride c latest round) { s with lastRound := max s.lastRound round })

theorem runRound_eq (inRange : c.InRange) (reached : Reached c s) (positive : 0 < round)
    (allowed : round ≤ c.query.maxBoardings) {lines : List (LineIndex × Nat)}
    (known : ∀ entry ∈ lines, entry.1 < c.timetable.nbOfLines) :
    runRound c (latestOf c s.iteration) round lines s =
      some (Search.runRound c (latestOf c s.iteration) round lines s) := by
  have counted : Move c round s { s with lastRound := max s.lastRound round } :=
    .count _ s.nbOfScans
  have start := reached.moves counted.moves
  have rides := foldlM_rides (f := ride c (latestOf c s.iteration) round) start.consistent positive
    allowed lines fun entry member t moves => by
      have ridden := ride_eq inRange (start.moves moves) positive allowed (known entry member)
      rwa [moves.iteration_eq] at ridden
  have moves := rides_moves start.consistent positive allowed lines
  have walks := walkFromTransit_eq inRange (start.moves moves) allowed
  rw [moves.iteration_eq] at walks
  rw [runRound, rides]
  exact walks

def runRounds (c : Context) (latest : SearchTime) (isOver : Checks) :
    (left round : Nat) → SearchState → Option Outcome
  | 0, _, s => some ⟨s, false⟩
  | left + 1, round, s =>
      if isOver s.iteration (round + 1) then some ⟨s, true⟩
      else do
        match ← linesToRide c s round with
        | [] => return ⟨s, false⟩
        | lines =>
            runRounds c latest isOver left (round + 1) (← runRound c latest (round + 1) lines s)

theorem runRounds_eq (inRange : c.InRange) (isOver : Checks) (left round : Nat)
    (reached : Reached c s) (allowed : round + left ≤ c.query.maxBoardings) :
    runRounds c (latestOf c s.iteration) isOver left round s =
      some (Search.runRounds c (latestOf c s.iteration) isOver left round s) := by
  induction left generalizing round s with
  | zero => rfl
  | succ left ih =>
      rw [runRounds, linesToRide_eq inRange reached (by omega), Search.runRounds]
      split
      · rfl
      · cases lines : Search.linesToRide c s round with
        | nil => rfl
        | cons entry others =>
            have known : ∀ touched ∈ entry :: others, touched.1 < c.timetable.nbOfLines :=
              fun touched member => Timetable.lt_nbOfLines_of_mem_touch (lines ▸ member)
            have first := runRound_moves reached.consistent (Nat.succ_pos round) (by omega)
              (entry :: others)
            have rest := ih (round + 1) (reached.moves first) (by omega)
            rw [first.iteration_eq] at rest
            simp only [Option.bind_eq_bind, Option.bind_some,
              runRound_eq inRange reached (Nat.succ_pos round) (by omega) known]
            exact rest

def arriveOnFoot (c : Context) (latest : SearchTime) (s : SearchState) : Option SearchState := do
  (← s.rounds[0]?).stops.toList.foldlM (fun s stop => do
    (← currentLabels s 0 stop).foldlM (fun s label => do
      finish c latest (← s.tree.nodes[label.1]?).departure 0 label.1 stop label.2 s) s) s

theorem arriveOnFoot_eq (inRange : c.InRange) (reached : Reached c s)
    (none : c.query.maxBoardings = 0) :
    arriveOnFoot c (latestOf c s.iteration) s =
      some (Search.arriveOnFoot c (latestOf c s.iteration) s) := by
  rw [arriveOnFoot, getElem?_rounds reached.consistent.sized (Nat.zero_le _), Search.arriveOnFoot,
    ← Array.foldl_toList]
  refine foldlM_moves c 0 0 fun stop listed t moves => ?_
  have known := (reached.listed inRange 0).2 stop (Array.mem_toList_iff.1 listed)
  have consistent := (reached.moves moves).consistent
  have arrives (label) (current : label ∈ Search.currentLabels t 0 stop) (u)
      (more : Moves c 0 0 t u) := arrive_moves consistent none current more
  rw [← moves.iteration_eq, currentLabels_eq consistent (Nat.zero_le _) known]
  refine ⟨foldlM_moves c 0 0 fun label current u more => ⟨?_, arrives label current u more⟩,
    Moves.foldl arrives⟩
  have isLabel := (consistent.labels _ _ _ (List.mem_filter.1 current).1).extends more.extends
  simp only [JourneyTree.getElem?_nodes isLabel.older, Option.bind_eq_bind, Option.bind_some]
  exact finish_eq inRange known _ _ _ _ _

def runAccess (c : Context) (departure : SearchTime) (s : SearchState) : Option SearchState := do
  let latest := latestArrival c departure
  walkFromAccess c latest
    (← c.query.access.legs.toList.zipIdx.foldlM (depart c departure latest) (← nextIteration s))

theorem runAccess_eq (inRange : c.InRange) (reached : Reached c s)
    (more : s.iteration < c.query.departureTimes.length) :
    runAccess c (departureOf c (s.iteration + 1)) s =
      some (Search.runAccess c (departureOf c (s.iteration + 1)) s) := by
  have next : Reached c s.nextIteration := Relation.ReflTransGen.tail reached (.iteration more)
  obtain ⟨departs, departed⟩ := foldlM_departs (s := s.nextIteration)
    (f := depart c (departureOf c (s.iteration + 1)) (latestOf c (s.iteration + 1)))
    fun entry member t moves => by
      have known : c.query.access.legs[entry.2]? = some entry.1 := by
        simpa using List.mem_zipIdx_iff_getElem?.1 member
      exact depart_eq (next.moves moves).consistent.sized
        (inRange.access _ (Array.mem_of_getElem? known)) _ _
  have walks := walkFromAccess_eq inRange (next.moves departed)
  rw [departed.iteration_eq] at walks
  rw [runAccess, nextIteration_eq (reached.inRange inRange)]
  change (c.query.access.legs.toList.zipIdx.foldlM (depart c (departureOf c (s.iteration + 1))
    (latestOf c (s.iteration + 1))) s.nextIteration).bind _ = _
  rw [departs]
  exact walks

def runIteration (c : Context) (isOver : Checks) (s : SearchState) (departure : SearchTime) :
    Option Outcome := do
  let latest := latestArrival c departure
  let s ← runAccess c departure s
  if c.query.maxBoardings = 0 then return ⟨← arriveOnFoot c latest s, false⟩
  else runRounds c latest isOver c.query.maxBoardings 0 s

theorem runIteration_eq (inRange : c.InRange) (isOver : Checks) (reached : Reached c s)
    (more : s.iteration < c.query.departureTimes.length) :
    runIteration c isOver s (departureOf c (s.iteration + 1)) =
      some (Search.runIteration c isOver s (departureOf c (s.iteration + 1))) := by
  have access := runAccess_moves reached.consistent
  have begun : Reached c s.nextIteration := Relation.ReflTransGen.tail reached (.iteration more)
  have next := begun.moves access
  have number : (Search.runAccess c (departureOf c (s.iteration + 1)) s).iteration =
      s.iteration + 1 := access.iteration_eq
  simp only [runIteration, runAccess_eq inRange reached more, Search.runIteration,
    Option.bind_eq_bind, Option.bind_some]
  split
  · next none =>
      have arrivals := arriveOnFoot_eq inRange next none
      rw [number, latestOf] at arrivals
      rw [arrivals]
      rfl
  · have rounds := runRounds_eq inRange isOver c.query.maxBoardings 0 next (by omega)
    rw [number] at rounds
    exact rounds

def run (c : Context) (isOver : Checks) : Option Outcome :=
  let start := SearchState.initial c.timetable.nbOfStops c.query.maxBoardings
  if c.query.access.isEmpty || c.query.egress.isEmpty then some ⟨start, false⟩
  else
    let isOver : Checks := fun iteration round => c.query.isLate || isOver iteration round
    runAll (runIteration c isOver) isOver c.query.departureTimes start

theorem run_eq (inRange : c.InRange) (isOver : Checks) :
    run c isOver = some (Search.run c isOver) := by
  rw [run, Search.run]
  split
  · rfl
  · exact runAll_eq (fun s reached more => runIteration_eq inRange _ reached more)
      (reached_stateAfter (Nat.zero_le _)) rfl

end JourneyPlanner.Checked
