import JourneyPlanner.Proofs.Layer.Days

/-!
How the trips of a stopping pattern are split into trip patterns. There is one trip pattern for each
kind of vehicle, it has the schedules of the trips of that kind, and no trip is left out.
-/

namespace JourneyPlanner

/-- Whether filters accept a trip of a route; what the trip does not say for itself is said by the
route. -/
def PatternFilters.acceptsTrip (f : PatternFilters) (route : Route) (trip : Trip) : Bool :=
  f.accepts route.id (trip.mode.getD route.mode) (trip.submode.or route.submode)

/-- The trip pattern without its name. -/
def TripPattern.unnamed (p : TripPattern) : TripPattern :=
  { p with id := "" }

namespace Layer

namespace Build

variable {source : StopPattern} {route : Route} {stops : List StopIndex}
  {schedules : List (VehicleKind × Schedule)} {kind : VehicleKind}

theorem mem_kinds : kind ∈ kinds schedules ↔ ∃ entry ∈ schedules, entry.1 = kind := by
  rw [kinds, List.mem_mergeSort, List.mem_eraseDups, List.mem_map]

/-- The schedules of one kind, in order. -/
def ownSchedules (schedules : List (VehicleKind × Schedule)) (kind : VehicleKind) : List Schedule :=
  ((schedules.filter (·.1 = kind)).map (·.2)).mergeSort scheduleLe

/-- The trip pattern of one kind, by the name it is given. -/
def part (source : StopPattern) (route : Route) (stops : List StopIndex)
    (schedules : List (VehicleKind × Schedule)) (id : String) (kind : VehicleKind) : TripPattern where
  id := id
  sourceId := source.id
  routeId := route.id
  routeName := route.name
  mode := kind.mode
  submode := kind.submode
  stops := stops.toArray
  schedules := (ownSchedules schedules kind).toArray
  fifo := isFifo stops.length (ownSchedules schedules kind)

theorem split_eq (source : StopPattern) (route : Route) (stops : List StopIndex)
    (schedules : List (VehicleKind × Schedule)) :
    split source route stops schedules = (kinds schedules).map fun kind =>
      part source route stops schedules
        (if (kinds schedules).length = 1 then source.id else source.id ++ kind.suffix) kind :=
  rfl

theorem mem_ownSchedules {s : Schedule} :
    s ∈ ownSchedules schedules kind ↔ (kind, s) ∈ schedules := by
  rw [ownSchedules, List.mem_mergeSort, List.mem_map]
  constructor
  · rintro ⟨⟨other, s⟩, member, rfl⟩
    obtain ⟨among, same⟩ := List.mem_filter.1 member
    obtain rfl : other = kind := of_decide_eq_true same
    exact among
  · exact fun member => ⟨(kind, s), List.mem_filter.2 ⟨member, decide_eq_true rfl⟩, rfl⟩

theorem exists_mem_split (source : StopPattern) (route : Route) (stops : List StopIndex)
    {s : Schedule} (member : (kind, s) ∈ schedules) :
    ∃ id, part source route stops schedules id kind ∈ split source route stops schedules ∧
      s ∈ (part source route stops schedules id kind).schedules := by
  refine ⟨_, List.mem_map_of_mem (mem_kinds.2 ⟨_, member, rfl⟩), ?_⟩
  rw [part, List.mem_toArray]
  exact mem_ownSchedules.2 member

theorem IsPartOf.isAccepted_eq {network : Network} {p : TripPattern}
    (h : IsPartOf network source route p) {trip : Trip}
    (kind : VehicleKind.ofTrip route trip = ⟨p.mode, p.submode⟩) (filters : PatternFilters) :
    p.isAccepted filters = filters.acceptsTrip route trip := by
  have mode := congrArg VehicleKind.mode kind
  have submode := congrArg VehicleKind.submode kind
  simp only [VehicleKind.ofTrip] at mode submode
  rw [TripPattern.isAccepted, h.routeId, ← mode, ← submode, PatternFilters.acceptsTrip]

end Build

open Build

theorem exists_pattern_of_trip {network : Network} {layer : Layer}
    (built : Layer.build network = .ok layer) {source : StopPattern}
    (inNetwork : source ∈ network.patterns) {route : Route}
    (found : network.routes.find? (·.id == source.routeId) = some route) {trip : Trip}
    (inSource : trip ∈ source.trips) :
    ∃ (i : PatternIndex) (p : TripPattern) (s : Schedule), layer.patterns[i]? = some p ∧
      IsPartOf network source route p ∧ s ∈ p.schedules ∧
        schedule network p.nbOfPositions trip = .ok s ∧
          VehicleKind.ofTrip route trip = ⟨p.mode, p.submode⟩ := by
  obtain ⟨services, patterns, footpaths, -, compiled, -, rfl⟩ := Layer.build_eq_ok.1 built
  obtain ⟨parts, each, rfl⟩ := patterns_eq_ok.1 compiled
  obtain ⟨made, among, ok⟩ := exists_mem_of_mapM each (Array.mem_toList_iff.2 inNetwork)
  obtain ⟨named, foundToo, isPart⟩ := pattern_spec ok
  obtain rfl : route = named := Option.some.inj (found.symm.trans foundToo)
  simp only [Build.pattern, found] at ok
  split at ok
  · cases ok
  · obtain ⟨stops, -, ok⟩ := bind_eq_ok.1 ok
    obtain ⟨schedules, times, ok⟩ := bind_eq_ok.1 ok
    cases ok
    obtain ⟨entry, listed, timed⟩ := exists_mem_of_mapM times inSource
    obtain ⟨s, accepted, timed⟩ := bind_eq_ok.1 timed
    cases timed
    obtain ⟨id, inSplit, inPart⟩ :=
      exists_mem_split source route stops listed
    obtain ⟨i, known⟩ := List.mem_iff_getElem?.1 (List.mem_flatten.2 ⟨_, among, inSplit⟩)
    exact ⟨i, _, s, by simpa using known, isPart _ inSplit, inPart,
      by simpa [TripPattern.nbOfPositions, part] using accepted, rfl⟩

end Layer

end JourneyPlanner
