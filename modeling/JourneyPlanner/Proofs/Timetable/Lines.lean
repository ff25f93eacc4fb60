import JourneyPlanner.Proofs.Layer.Days
import JourneyPlanner.Proofs.Timetable.Boarding

/-!
What the lines and the walks of a timetable are. A line is a trip pattern of the layer that passes
the filters, and each of its days has the schedules that run on its date; the places of a stop are
all the positions of lines at that stop. On a compiled layer the vehicles of a line never go back in
time and all stops are stops of the layer.
-/

namespace JourneyPlanner

theorem Line.getElem?_stops {l : Line} {position : Nat} (inside : position < l.nbOfPositions) :
    l.pattern.stops[position]? = some (l.stopAt position) := by
  have inStops : position < l.pattern.stops.size := inside
  simp [stopAt, TripPattern.stopAt, inStops]

theorem Line.getElem?_days {l : Line} {index : Nat} (inside : index < l.days.size) :
    l.days[index]? = some (l.day index) := by
  simp [day, inside]

theorem Timetable.getElem?_lines {t : Timetable} {index : LineIndex} (known : index < t.nbOfLines) :
    t.lines[index]? = some (t.line index) := by
  have inside : index < t.lines.size := known
  simp [line, inside]

theorem Timetable.line_of_getElem? {t : Timetable} {index : LineIndex} {line : Line}
    (known : t.lines[index]? = some line) : t.line index = line := by
  rw [Timetable.line, Array.getD_eq_getD_getElem?, known, Option.getD_some]

/-- A day of a line has the schedules that run on a date among those scanned. -/
structure ServiceDay.IsDayOf (day : ServiceDay) (layer : Layer) (date : Date) (dayRange : Nat)
    (pattern : PatternIndex) : Prop where
  exists_offset : ∃ k ∈ Timetable.dayOffsets dayRange,
    day.date = date.addDays k ∧ day.offset = k * secondsPerDay
  exists_running : ∃ running ∈ layer.runningOn day.date,
    running.pattern = pattern ∧ day.schedules = running.schedules.toArray

/-- A line is a pattern of a layer that passes the filters, with its days. -/
structure Line.IsLineOf (line : Line) (layer : Layer) (date : Date) (dayRange : Nat)
    (filters : PatternFilters) : Prop where
  pattern_eq : layer.patterns[line.patternIndex]? = some line.pattern
  accepted : line.pattern.isAccepted filters = true
  days : ∀ index < line.days.size,
    (line.day index).IsDayOf layer date dayRange line.patternIndex

structure Timetable.IsTimetableOf (t : Timetable) (layer : Layer) (date : Date) (dayRange : Nat)
    (filters : PatternFilters) (speed : Float) : Prop where
  layer_eq : t.layer = layer
  date_eq : t.date = date
  lines : ∀ index < t.nbOfLines, (t.line index).IsLineOf layer date dayRange filters
  linesAt : ∀ stop < layer.nbOfStops, ∀ index position, (index, position) ∈ t.linesAt stop ↔
    index < t.nbOfLines ∧ position < (t.line index).nbOfPositions ∧
      (t.line index).stopAt position = stop
  walksFrom : ∀ stop, t.walksFrom stop =
    if stop < layer.nbOfStops then Timetable.walks layer speed stop else []

namespace Timetable

theorem isDayOf_of_serviceDay? {layer : Layer} {date : Date} {dayRange : Nat}
    {pattern : PatternIndex} {k : Int} {day : ServiceDay} (scanned : k ∈ dayOffsets dayRange)
    (h : serviceDay? layer date pattern k = some day) :
    day.IsDayOf layer date dayRange pattern := by
  obtain ⟨running, found, made⟩ := Option.map_eq_some_iff.1 h
  have same := List.find?_some found
  have member := List.mem_of_find?_eq_some found
  subst made
  exact ⟨⟨k, scanned, rfl, rfl⟩, running, member, eq_of_beq same, rfl⟩

theorem isLineOf_of_line? {layer : Layer} {date : Date} {dayRange : Nat}
    {filters : PatternFilters} {pattern : TripPattern} {index : PatternIndex} {line : Line}
    (known : layer.patterns[index]? = some pattern)
    (h : line? layer date dayRange filters pattern index = some line) :
    line.IsLineOf layer date dayRange filters := by
  simp only [line?] at h
  split at h
  · next accepted =>
      split at h
      · cases h
      · cases h
        refine ⟨known, accepted, fun position inside => ?_⟩
        have member : ((dayOffsets dayRange).filterMap (serviceDay? layer date index)).toArray.getD
            position default ∈ (dayOffsets dayRange).filterMap (serviceDay? layer date index) := by
          rw [Array.getD_eq_getD_getElem?, Array.getElem?_eq_getElem inside, Option.getD_some,
            List.getElem_toArray]
          exact List.getElem_mem _
        obtain ⟨k, scanned, made⟩ := List.mem_filterMap.1 member
        exact isDayOf_of_serviceDay? scanned made
  · cases h

theorem mem_linesThrough {lines : List Line} {stop : StopIndex} {index : LineIndex}
    {position : Nat} :
    (index, position) ∈ linesThrough lines stop ↔ index < lines.length ∧
      position < (lines.toArray.getD index default).nbOfPositions ∧
        (lines.toArray.getD index default).stopAt position = stop := by
  simp only [linesThrough, List.mem_flatMap, List.mem_filterMap]
  constructor
  · rintro ⟨⟨line, i⟩, known, ⟨visited, p⟩, visit, made⟩
    simp only at made
    split at made
    · next same =>
        cases made
        have known : lines[index]? = some line := List.mem_zipIdx_iff_getElem?.1 known
        have visit : line.pattern.stops[position]? = some stop := by
          simpa [same] using List.mem_zipIdx_iff_getElem?.1 visit
        have entry : lines.toArray.getD index default = line := by simp [known]
        rw [entry]
        refine ⟨(List.getElem?_eq_some_iff.1 known).1, (Array.getElem?_eq_some_iff.1 visit).1, ?_⟩
        simp [Line.stopAt, TripPattern.stopAt, visit]
    · cases made
  · rintro ⟨inside, within, visit⟩
    have entry : lines.toArray.getD index default = lines[index] := by simp [inside]
    rw [entry] at within visit
    have inStops : position < lines[index].pattern.stops.size := within
    have same : lines[index].pattern.stops[position] = stop := by
      simpa [Line.stopAt, TripPattern.stopAt, inStops] using visit
    refine ⟨(lines[index], index), ?_, (stop, position), ?_, ?_⟩
    · exact List.mem_zipIdx_iff_getElem?.2 (List.getElem?_eq_getElem inside)
    · exact List.mem_zipIdx_iff_getElem?.2 (by simp [inStops, same])
    · simp

theorem build_spec {layer : Layer} {date : Date} {dayRange : Nat} {filters : PatternFilters}
    {speed : Float} {t : Timetable} (h : build layer date dayRange filters speed = .ok t) :
    dayRange ≤ maxDayRange ∧ t.IsTimetableOf layer date dayRange filters speed := by
  simp only [build] at h
  split at h
  · cases h
  · split at h
    · cases h
    · next inRange =>
        obtain ⟨-, -, h⟩ := bind_eq_ok.1 h
        have days : dayRange ≤ maxDayRange := by
          simp only [Bool.or_eq_true, decide_eq_true_eq, not_or, Nat.not_lt] at inRange
          exact inRange.2
        let lines := layer.patterns.toList.zipIdx.filterMap fun entry =>
          line? layer date dayRange filters entry.1 entry.2
        have ofLayer : ∀ line ∈ lines, line.IsLineOf layer date dayRange filters := by
          intro line member
          obtain ⟨⟨pattern, i⟩, known, made⟩ := List.mem_filterMap.1 member
          have at' : layer.patterns[i]? = some pattern := by
            simpa using List.mem_zipIdx_iff_getElem?.1 known
          exact isLineOf_of_line? at' made
        cases h
        refine ⟨days, rfl, rfl, ?_, ?_, ?_⟩
        · intro index inside
          have inside : index < lines.length := inside
          have entry : lines.toArray.getD index default = lines[index] := by simp [inside]
          change (lines.toArray.getD index default).IsLineOf layer date dayRange filters
          rw [entry]
          exact ofLayer _ (List.getElem_mem inside)
        · intro stop known index position
          simp only [Timetable.linesAt, Array.getD_eq_getD_getElem?, List.getElem?_toArray,
            List.getElem?_map, List.getElem?_range known, Option.map_some, Option.getD_some]
          exact mem_linesThrough
        · intro stop
          simp only [Timetable.walksFrom, Array.getD_eq_getD_getElem?, List.getElem?_toArray,
            List.getElem?_map]
          split
          · next known => simp [known]
          · next unknown => simp [unknown]

end Timetable

end JourneyPlanner
