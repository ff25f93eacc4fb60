import JourneyPlanner.Proofs.Layer.Reordered
import JourneyPlanner.Proofs.Timetable.Lines

/-!
The timetables of two layers that differ in the order of their trip patterns only. They are accepted
alike and have the same walks and the same lines, in another order and with other indices of
patterns.
-/

namespace JourneyPlanner.Timetable

/-- The timetables have the same stops, walks and lines, the lines in any order. -/
structure IsReordering (t u : Timetable) : Prop where
  nbOfStops : u.nbOfStops = t.nbOfStops
  walksFrom : ∀ stop, u.walksFrom stop = t.walksFrom stop
  lines : ∀ line < t.nbOfLines, ∃ other < u.nbOfLines, ∃ index,
    u.line other = { t.line line with patternIndex := index }
  linesBack : ∀ line < u.nbOfLines, ∃ other < t.nbOfLines, ∃ index,
    t.line other = { u.line line with patternIndex := index }

variable {t u : Timetable} {l k : Layer} {date : Date} {dayRange : Nat} {filters : PatternFilters}
  {speed : Float} {i j : PatternIndex} {pattern : TripPattern}

theorem IsReordering.symm (h : t.IsReordering u) : u.IsReordering t :=
  ⟨h.nbOfStops.symm, fun stop => (h.walksFrom stop).symm, h.linesBack, h.lines⟩

theorem serviceDay?_eq (l : Layer) (date : Date) (i : PatternIndex) (offset : Int) :
    serviceDay? l date i offset = (l.schedulesOn? (date.addDays offset) i).map fun schedules =>
      ⟨date.addDays offset, offset * secondsPerDay, schedules.toArray⟩ := by
  rw [serviceDay?, Layer.schedulesOn?, Option.map_map]
  rfl

theorem line?_eq_of_schedulesOn? (same : ∀ date, k.schedulesOn? date j = l.schedulesOn? date i) :
    line? k date dayRange filters pattern j =
      (line? l date dayRange filters pattern i).map fun line =>
        { line with patternIndex := j } := by
  have days : serviceDay? k date j = serviceDay? l date i := by
    funext offset
    rw [serviceDay?_eq, serviceDay?_eq, same]
  simp only [line?, days]
  split
  · split <;> rfl
  · rfl

/-- The lines of the patterns of a layer. -/
def linesOf (l : Layer) (date : Date) (dayRange : Nat) (filters : PatternFilters) : List Line :=
  l.patterns.toList.zipIdx.filterMap fun (pattern, index) =>
    line? l date dayRange filters pattern index

/-- The timetable of a layer once the parameters are checked. -/
def ofLayer (l : Layer) (date : Date) (dayRange : Nat) (filters : PatternFilters) (speed : Float) :
    Timetable where
  layer := l
  date := date
  lines := (linesOf l date dayRange filters).toArray
  stopLines :=
    ((List.range l.nbOfStops).map (linesThrough (linesOf l date dayRange filters))).toArray
  stopWalks := ((List.range l.nbOfStops).map (walks l speed)).toArray

@[simp] theorem nbOfLines_ofLayer (l : Layer) (date : Date) (dayRange : Nat)
    (filters : PatternFilters) (speed : Float) :
    (ofLayer l date dayRange filters speed).nbOfLines = (linesOf l date dayRange filters).length := by
  simp [ofLayer, nbOfLines]

theorem line_ofLayer {index : LineIndex} (inside : index < (linesOf l date dayRange filters).length) :
    (ofLayer l date dayRange filters speed).line index =
      (linesOf l date dayRange filters)[index] := by
  simp [ofLayer, Timetable.line, inside]

theorem build_eq_ok (h : build l date dayRange filters speed = .ok t) :
    t = ofLayer l date dayRange filters speed ∧
      ∀ k, build k date dayRange filters speed = .ok (ofLayer k date dayRange filters speed) := by
  simp only [build] at h
  split at h
  · cases h
  · next finite =>
      split at h
      · cases h
      · next inRange =>
          obtain ⟨_, valid, h⟩ := bind_eq_ok.1 h
          cases h
          refine ⟨rfl, fun k => ?_⟩
          simp only [build, if_neg finite, if_neg inRange]
          exact bind_eq_ok.2 ⟨_, valid, rfl⟩

theorem mem_linesOf {line : Line} :
    line ∈ linesOf l date dayRange filters ↔ ∃ (i : PatternIndex) (pattern : TripPattern),
      l.patterns[i]? = some pattern ∧ line? l date dayRange filters pattern i = some line := by
  rw [linesOf, List.mem_filterMap]
  constructor
  · rintro ⟨⟨pattern, i⟩, member, made⟩
    exact ⟨i, pattern, by simpa using List.mem_zipIdx_iff_getElem?.1 member, made⟩
  · rintro ⟨i, pattern, known, made⟩
    exact ⟨(pattern, i), List.mem_zipIdx_iff_getElem?.2 (by simpa using known), made⟩

theorem exists_line_ofLayer
    (same : ∀ (i : PatternIndex) (p : TripPattern), l.patterns[i]? = some p →
      ∃ j : PatternIndex, k.patterns[j]? = some p ∧
        ∀ date, k.schedulesOn? date j = l.schedulesOn? date i) :
    ∀ line < (ofLayer l date dayRange filters speed).nbOfLines,
      ∃ other < (ofLayer k date dayRange filters speed).nbOfLines, ∃ index,
        (ofLayer k date dayRange filters speed).line other =
          { (ofLayer l date dayRange filters speed).line line with patternIndex := index } := by
  intro line inside
  rw [nbOfLines_ofLayer] at inside
  obtain ⟨i, pattern, known, made⟩ := mem_linesOf.1 (List.getElem_mem inside)
  obtain ⟨j, knownToo, runs⟩ := same i pattern known
  have member : { (linesOf l date dayRange filters)[line] with patternIndex := j } ∈
      linesOf k date dayRange filters :=
    mem_linesOf.2 ⟨j, pattern, knownToo, by rw [line?_eq_of_schedulesOn? runs, made]; rfl⟩
  obtain ⟨other, within, equal⟩ := List.getElem_of_mem member
  refine ⟨other, by simpa using within, j, ?_⟩
  rw [line_ofLayer inside, line_ofLayer within, equal]

theorem walks_congr (footpaths : k.footpaths = l.footpaths) (speed : Float) :
    walks k speed = walks l speed := by
  funext stop
  simp only [walks, Layer.footpathsFrom, footpaths]

theorem exists_build_of_isReordering (h : l.IsReordering k)
    (built : build l date dayRange filters speed = .ok t) :
    ∃ u, build k date dayRange filters speed = .ok u ∧ t.IsReordering u := by
  obtain ⟨rfl, others⟩ := build_eq_ok built
  have nbOfStops : k.nbOfStops = l.nbOfStops := congrArg Array.size h.stops
  refine ⟨_, others k, nbOfStops, fun stop => ?_, exists_line_ofLayer h.patterns,
    exists_line_ofLayer h.patternsBack⟩
  simp only [walksFrom, ofLayer, nbOfStops, walks_congr h.footpaths]

end JourneyPlanner.Timetable
