import JourneyPlanner.Proofs.Layer.InRange
import JourneyPlanner.Proofs.Timetable.Reordered

/-!
The indices that a timetable stores. A line has schedules of its trip pattern on its days and stops
of the layer at its positions; the lines listed at a stop are there and have the position listed,
and the walks listed at a stop are footpaths of the layer to its stops.
-/

namespace JourneyPlanner

/-- Whatever a line refers to by an index is there. -/
structure Line.InRange (line : Line) (layer : Layer) : Prop where
  pattern : layer.patterns[line.patternIndex]? = some line.pattern
  stops : ∀ stop ∈ line.pattern.stops, stop < layer.nbOfStops
  events : ∀ s ∈ line.pattern.schedules, s.events.size = line.nbOfPositions
  schedules : ∀ day ∈ line.days, ∀ index ∈ day.schedules, index < line.pattern.schedules.size

/-- Whatever a timetable refers to by an index is there. -/
structure Timetable.InRange (t : Timetable) : Prop where
  lines : ∀ line ∈ t.lines, line.InRange t.layer
  stopLines : t.stopLines.size = t.nbOfStops
  visits : ∀ visits ∈ t.stopLines, ∀ visit ∈ visits, ∃ line, t.lines[visit.1]? = some line ∧
    visit.2 < line.nbOfPositions
  stopWalks : t.stopWalks.size = t.nbOfStops
  walks : ∀ walks ∈ t.stopWalks, ∀ walk ∈ walks, walk.target < t.nbOfStops ∧ ∃ leaving,
    t.layer.footpaths[walk.footpath.source]? = some leaving ∧ walk.footpath.rank < leaving.size

variable {layer : Layer} {date : Date} {dayRange : Nat} {filters : PatternFilters} {speed : Float}

theorem Line.IsLineOf.inRange {line : Line} (h : line.IsLineOf layer date dayRange filters)
    (inRange : layer.InRange) : line.InRange layer := by
  have member := Array.mem_of_getElem? h.pattern_eq
  refine ⟨h.pattern_eq, inRange.stops _ member, inRange.events _ member,
    fun day among index asked => ?_⟩
  obtain ⟨k, inside, rfl⟩ := Array.getElem_of_mem among
  obtain ⟨running, listed, ofPattern, schedules⟩ := (h.days k inside).exists_running
  obtain ⟨p, known, within⟩ := inRange.running _ running listed
  rw [ofPattern, h.pattern_eq] at known
  cases known
  have sameDay := (Array.getElem?_eq_getElem inside).symm.trans (Line.getElem?_days inside)
  rw [Option.some.inj sameDay, schedules] at asked
  exact within index (List.mem_toArray.1 asked)

theorem Timetable.inRange_build {t : Timetable}
    (made : Timetable.build layer date dayRange filters speed = .ok t) (inRange : layer.InRange) :
    t.InRange := by
  obtain ⟨-, spec⟩ := Timetable.build_spec made
  obtain ⟨rfl, -⟩ := Timetable.build_eq_ok made
  refine ⟨fun line member => ?_, ?_, fun visits member visit among => ?_, ?_,
    fun walks member walk among => ?_⟩
  · obtain ⟨index, known⟩ := Array.mem_iff_getElem?.1 member
    have lineOf := spec.lines index (Array.getElem?_eq_some_iff.1 known).1
    rw [Timetable.line_of_getElem? known] at lineOf
    exact lineOf.inRange inRange
  · simp [Timetable.ofLayer, Timetable.nbOfStops]
  · obtain ⟨stop, -, rfl⟩ := List.mem_map.1 (List.mem_toArray.1 member)
    obtain ⟨inside, within, -⟩ := Timetable.mem_linesThrough.1 among
    refine ⟨_, List.getElem?_toArray .. ▸ List.getElem?_eq_getElem inside, ?_⟩
    simpa [inside] using within
  · simp [Timetable.ofLayer, Timetable.nbOfStops]
  · obtain ⟨stop, known, rfl⟩ := List.mem_map.1 (List.mem_toArray.1 member)
    obtain ⟨⟨footpath, rank⟩, listed, rfl⟩ := List.mem_map.1 among
    have inside : stop < layer.footpaths.size := by
      rw [inRange.footpaths]
      exact List.mem_range.1 known
    have leaving : layer.footpathsFrom stop = layer.footpaths[stop] := by
      simp [Layer.footpathsFrom, inside]
    have at' : layer.footpaths[stop][rank]? = some footpath := by
      rw [← leaving]
      simpa using List.mem_zipIdx_iff_getElem?.1 listed
    exact ⟨inRange.targets _ (Array.getElem_mem inside) _ (Array.mem_of_getElem? at'),
      layer.footpaths[stop], Array.getElem?_eq_getElem inside,
      (Array.getElem?_eq_some_iff.1 at').1⟩

end JourneyPlanner
