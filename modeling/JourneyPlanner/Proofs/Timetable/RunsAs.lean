import JourneyPlanner.Proofs.Layer.Split
import JourneyPlanner.Proofs.Timetable.Touched

/-!
What a search reads of a timetable: where each line stops, when its trips leave and arrive, and the
lines and the walks at each stop. The index of a pattern in its layer and the name of a pattern are
not among it, so two timetables that differ in these alone are ridden alike.
-/

namespace JourneyPlanner

namespace Line

/-- The line without the place of its pattern in the layer and without the name of the pattern. -/
def unnamed (l : Line) : Line :=
  { l with patternIndex := 0, pattern := l.pattern.unnamed }

variable {l m : Line}

theorem stopAt_eq (h : m.unnamed = l.unnamed) : m.stopAt = l.stopAt := by
  change m.unnamed.stopAt = l.unnamed.stopAt
  rw [h]

theorem nbOfPositions_eq (h : m.unnamed = l.unnamed) : m.nbOfPositions = l.nbOfPositions := by
  change m.unnamed.nbOfPositions = l.unnamed.nbOfPositions
  rw [h]

theorem serviceDate_eq (h : m.unnamed = l.unnamed) : m.serviceDate = l.serviceDate := by
  change m.unnamed.serviceDate = l.unnamed.serviceDate
  rw [h]

theorem debarkTime_eq (h : m.unnamed = l.unnamed) : m.debarkTime = l.debarkTime := by
  change m.unnamed.debarkTime = l.unnamed.debarkTime
  rw [h]

end Line

namespace Timetable

/-- The second timetable has the stops, the walks and, by number, the lines of the first one, with
patterns that may stand elsewhere in their layer and have other names. -/
structure RunsAs (t u : Timetable) : Prop where
  nbOfStops_eq : u.nbOfStops = t.nbOfStops
  nbOfLines_eq : u.nbOfLines = t.nbOfLines
  walksFrom_eq : ∀ stop, u.walksFrom stop = t.walksFrom stop
  linesAt_eq : ∀ stop, u.linesAt stop = t.linesAt stop
  line_eq : ∀ index, (u.line index).unnamed = (t.line index).unnamed

theorem RunsAs.refl (t : Timetable) : t.RunsAs t :=
  ⟨rfl, rfl, fun _ => rfl, fun _ => rfl, fun _ => rfl⟩

theorem RunsAs.touch_eq {t u : Timetable} (h : t.RunsAs u) : u.touch = t.touch := by
  have positions (index : LineIndex) : (u.line index).nbOfPositions = (t.line index).nbOfPositions :=
    Line.nbOfPositions_eq (h.line_eq index)
  have boardable : u.boardableAt = t.boardableAt := by
    funext stop
    simp only [boardableAt, h.linesAt_eq, positions]
  funext stops touched
  simp only [touch, boardable]

end Timetable

end JourneyPlanner
