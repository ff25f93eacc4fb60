import JourneyPlanner.Proofs.Layer.Refused
import JourneyPlanner.Proofs.Timetable.Exact
import JourneyPlanner.Proofs.Timetable.RunsAs

/-!
The timetables of two networks that differ in trips which the filters refuse. They have the same
lines in the same order, up to the names of their patterns and the places of these in the layers, so
a search runs alike on both.
-/

namespace JourneyPlanner.Timetable

open Layer.Build

variable {n m : Network} {layer other : Layer} {date : Date} {dayRange : Nat}
  {filters : PatternFilters} {speed : Float}

/-- The line of an accepted pattern, without names. -/
def unnamedLine? (network : Network) (date : Date) (dayRange : Nat) (p : TripPattern) :
    Option Line :=
  if (daysOf network date dayRange p).isEmpty then none
  else some ⟨0, p.unnamed, (daysOf network date dayRange p).toArray⟩

theorem map_unnamed_linesOf (built : Layer.build n = .ok layer) (date : Date) (dayRange : Nat)
    (filters : PatternFilters) :
    (linesOf layer date dayRange filters).map Line.unnamed =
      (acceptedUnnamed filters layer.patterns.toList).filterMap (unnamedLine? n date dayRange) := by
  let ofPattern (p : TripPattern) : Option Line :=
    if p.isAccepted filters then unnamedLine? n date dayRange p else none
  have each : ∀ entry ∈ layer.patterns.toList.zipIdx,
      (line? layer date dayRange filters entry.1 entry.2).map Line.unnamed = ofPattern entry.1 := by
    rintro ⟨p, i⟩ member
    have known : layer.patterns[i]? = some p := by
      simpa using List.mem_zipIdx_iff_getElem?.1 member
    refine Option.ext fun line => ?_
    simp only [Option.map_eq_some_iff, line?_eq_some built known, ofPattern, unnamedLine?,
      Option.ite_none_right_eq_some, Option.ite_none_left_eq_some, Option.some.injEq,
      List.isEmpty_iff]
    constructor
    · rintro ⟨_, ⟨accepted, runs, rfl⟩, rfl⟩
      exact ⟨accepted, runs, rfl⟩
    · rintro ⟨accepted, runs, rfl⟩
      exact ⟨_, ⟨accepted, runs, rfl⟩, rfl⟩
  have unindexed : layer.patterns.toList.zipIdx.filterMap (fun entry => ofPattern entry.1) =
      layer.patterns.toList.filterMap ofPattern := by
    conv_rhs => rw [← List.zipIdx_map_fst 0 layer.patterns.toList, List.filterMap_map]
    rfl
  rw [linesOf, List.map_filterMap, List.filterMap_congr each, unindexed, acceptedUnnamed,
    List.filterMap_map, List.filterMap_filter]
  rfl

theorem linesThrough_unnamed (lines : List Line) (stop : StopIndex) :
    linesThrough (lines.map Line.unnamed) stop = linesThrough lines stop := by
  rw [linesThrough, List.zipIdx_map, List.flatMap_map]
  rfl

theorem runsAs_ofLayer (stops : other.stops = layer.stops)
    (footpaths : other.footpaths = layer.footpaths)
    (lines : (linesOf other date dayRange filters).map Line.unnamed =
      (linesOf layer date dayRange filters).map Line.unnamed) :
    (ofLayer layer date dayRange filters speed).RunsAs
      (ofLayer other date dayRange filters speed) := by
  have nbOfStops : other.nbOfStops = layer.nbOfStops := congrArg Array.size stops
  have nbOfLines : (linesOf other date dayRange filters).length =
      (linesOf layer date dayRange filters).length := by
    simpa using congrArg List.length lines
  refine ⟨nbOfStops, by simpa using nbOfLines, fun stop => ?_, fun stop => ?_, fun index => ?_⟩
  · simp only [walksFrom, ofLayer, nbOfStops, walks_congr footpaths]
  · have same : linesThrough (linesOf other date dayRange filters) =
        linesThrough (linesOf layer date dayRange filters) := by
      funext stop
      rw [← linesThrough_unnamed, lines, linesThrough_unnamed]
    simp only [linesAt, ofLayer, nbOfStops, same]
  · have unnamed (l : Layer) : ((ofLayer l date dayRange filters speed).line index).unnamed =
        ((linesOf l date dayRange filters).map Line.unnamed).getD index (default : Line).unnamed := by
      simp [Timetable.line, ofLayer, List.getD_eq_getElem?_getD, Array.getD_eq_getD_getElem?,
        Option.getD_map]
    rw [unnamed, unnamed, lines]

theorem runsAs_of_differsByRefused (built : Layer.build n = .ok layer)
    (builtToo : Layer.build m = .ok other) (differs : n.DiffersByRefused m filters) (date : Date)
    (dayRange : Nat) (speed : Float) :
    (ofLayer layer date dayRange filters speed).RunsAs
      (ofLayer other date dayRange filters speed) := by
  obtain ⟨stops, footpaths, -, patterns⟩ := Layer.acceptedUnnamed_eq differs built builtToo
  refine runsAs_ofLayer stops footpaths ?_
  rw [map_unnamed_linesOf built, map_unnamed_linesOf builtToo, patterns]
  -- What runs on a day is a matter of the services.
  have services : unnamedLine? m date dayRange = unnamedLine? n date dayRange := by
    rw [differs.parts]
    rfl
  rw [services]

end JourneyPlanner.Timetable
