import JourneyPlanner.Proofs.Timetable.Lines

/-!
On a compiled layer a trip that can be boarded is a trip of the network: it has the times of one of
the trips of a stopping pattern, and runs on one of the dates of its service. So no vehicle arrives
before it has left.
-/

namespace JourneyPlanner

/-- A trip on a day of a line is a trip of the network on a date of its service. -/
structure Line.IsTripOf (line : Line) (network : Network) (filters : PatternFilters)
    (trip : TripOnDay) (source : StopPattern) (route : Route) (made : Trip) (service : Service) :
    Prop where
  inNetwork : source ∈ network.patterns
  routeFound : network.routes.find? (·.id == source.routeId) = some route
  isPart : Layer.Build.IsPartOf network source route line.pattern
  inSource : made ∈ source.trips
  compiled : Layer.Build.schedule network line.nbOfPositions made = .ok (line.schedule trip)
  kind : Layer.Build.VehicleKind.ofTrip route made = ⟨line.pattern.mode, line.pattern.submode⟩
  accepted : line.pattern.isAccepted filters = true
  serviceFound : network.services.find? (·.id == made.serviceId) = some service
  runs : line.serviceDate trip ∈ service.dates

theorem Line.IsTripOf.kind_eq {line : Line} {network : Network} {filters : PatternFilters}
    {trip : TripOnDay} {source : StopPattern} {route : Route} {made : Trip} {service : Service}
    (h : line.IsTripOf network filters trip source route made service) :
    line.pattern.mode = made.mode.getD route.mode ∧
      line.pattern.submode = made.submode.or route.submode :=
  ⟨(congrArg Layer.Build.VehicleKind.mode h.kind).symm,
    (congrArg Layer.Build.VehicleKind.submode h.kind).symm⟩

namespace Line

variable {network : Network} {layer : Layer} {date : Date} {dayRange : Nat}
  {filters : PatternFilters} {line : Line}

theorem IsLineOf.pattern_layer (h : line.IsLineOf layer date dayRange filters) :
    layer.pattern line.patternIndex = line.pattern := by
  rw [Layer.pattern, Array.getD_eq_getD_getElem?, h.pattern_eq, Option.getD_some]

theorem IsLineOf.isPart (h : line.IsLineOf layer date dayRange filters)
    (compiled : layer.IsCompiled network) :
    ∃ source ∈ network.patterns, ∃ route,
      network.routes.find? (·.id == source.routeId) = some route ∧
        Layer.Build.IsPartOf network source route line.pattern :=
  compiled.patterns _ (Array.mem_of_getElem? h.pattern_eq)

theorem IsLineOf.schedule_mem (h : line.IsLineOf layer date dayRange filters)
    (compiled : layer.IsCompiled network) {waiting : SearchTime} {position : Nat}
    {trip : TripOnDay} (boards : line.Boards waiting position trip) :
    line.schedule trip ∈ line.pattern.schedules ∧
      ∃ service, network.services[(line.schedule trip).service]? = some service ∧
        line.serviceDate trip ∈ service.dates := by
  obtain ⟨running, member, ofPattern, schedules⟩ := (h.days trip.day boards.day_lt).exists_running
  have listed : trip.schedule ∈ running.schedules := by
    have runs := boards.runs
    rw [schedules] at runs
    simpa using runs
  have known := compiled.running _ running member trip.schedule listed
  rw [ofPattern, h.pattern_layer] at known
  obtain ⟨inside, service, found, dated⟩ := known
  refine ⟨?_, service, found, dated⟩
  rw [Line.schedule, TripPattern.schedule, Array.getD_eq_getD_getElem?,
    Array.getElem?_eq_getElem inside, Option.getD_some]
  exact Array.getElem_mem inside

theorem IsLineOf.exists_trip (h : line.IsLineOf layer date dayRange filters)
    (compiled : layer.IsCompiled network) {waiting : SearchTime} {position : Nat}
    {trip : TripOnDay} (boards : line.Boards waiting position trip) :
    ∃ source route made service,
      line.IsTripOf network filters trip source route made service := by
  obtain ⟨source, inNetwork, route, routeFound, isPart⟩ := h.isPart compiled
  obtain ⟨member, service, found, dated⟩ := h.schedule_mem compiled boards
  obtain ⟨made, inSource, ok, kind⟩ := isPart.schedules _ member
  refine ⟨source, route, made, service, inNetwork, routeFound, isPart, inSource, ok, kind,
    h.accepted, ?_, dated⟩
  rw [Array.find?_eq_bind_findIdx?_getElem?, (Layer.Build.schedule_spec ok).2.1]
  exact found

theorem IsLineOf.boardTime_le_debarkTime (h : line.IsLineOf layer date dayRange filters)
    (compiled : layer.IsCompiled network) {waiting : SearchTime} {position : Nat}
    {trip : TripOnDay} (boards : line.Boards waiting position trip) {later : Nat}
    (ahead : position < later) (inside : later < line.nbOfPositions) :
    line.boardTime trip position ≤ line.debarkTime trip later := by
  obtain ⟨member, -⟩ := h.schedule_mem compiled boards
  obtain ⟨source, -, route, -, isPart⟩ := h.isPart compiled
  have le := isPart.departure_le_arrival member ahead inside
  rw [SearchTime.le_def]
  simp only [boardTime, debarkTime, SearchTime.ofServiceDay, clampWord]
  omega

end Line

/-- What a search relies on in its timetable: vehicles go forward in time, and each stop that a line
or a walk leads to is known. -/
structure Timetable.IsRegular (t : Timetable) : Prop where
  forward : ∀ index < t.nbOfLines, ∀ waiting position trip,
    (t.line index).Boards waiting position trip →
      ∀ later, position < later → later < (t.line index).nbOfPositions →
        (t.line index).boardTime trip position ≤ (t.line index).debarkTime trip later
  stopAt_lt : ∀ index < t.nbOfLines, ∀ position < (t.line index).nbOfPositions,
    (t.line index).stopAt position < t.nbOfStops
  target_lt : ∀ stop, ∀ walk ∈ t.walksFrom stop, walk.target < t.nbOfStops
  mem_linesAt : ∀ stop < t.nbOfStops, ∀ index position, (index, position) ∈ t.linesAt stop ↔
    index < t.nbOfLines ∧ position < (t.line index).nbOfPositions ∧
      (t.line index).stopAt position = stop

theorem Timetable.IsTimetableOf.isRegular {network : Network} {layer : Layer} {date : Date}
    {dayRange : Nat} {filters : PatternFilters} {speed : Float} {t : Timetable}
    (h : t.IsTimetableOf layer date dayRange filters speed) (compiled : layer.IsCompiled network) :
    t.IsRegular := by
  have sameStops : t.nbOfStops = layer.nbOfStops := by rw [Timetable.nbOfStops, h.layer_eq]
  refine ⟨?_, ?_, ?_, ?_⟩
  · intro index inside waiting position trip boards later ahead within
    exact (h.lines index inside).boardTime_le_debarkTime compiled boards ahead within
  · intro index inside position within
    obtain ⟨source, -, route, -, isPart⟩ := (h.lines index inside).isPart compiled
    rw [sameStops, Layer.nbOfStops, compiled.stops]
    exact isPart.stopAt_lt within
  · intro stop walk member
    rw [h.walksFrom] at member
    split at member
    · obtain ⟨⟨footpath, rank⟩, known, rfl⟩ := List.mem_map.1 member
      rw [sameStops]
      refine compiled.targets stop footpath ?_
      have at' := List.mem_zipIdx_iff_getElem?.1 known
      exact Array.mem_of_getElem? (i := rank) (by simpa using at')
    · cases member
  · rw [sameStops]
    exact h.linesAt

theorem Timetable.line_of_nbOfLines_le {t : Timetable} {index : LineIndex}
    (beyond : t.nbOfLines ≤ index) : t.line index = default := by
  rw [Timetable.line, Array.getD_eq_getD_getElem?, Array.getElem?_eq_none beyond, Option.getD_none]

theorem Timetable.lt_nbOfLines {t : Timetable} {index : LineIndex} {position : Nat}
    (inside : position < (t.line index).nbOfPositions) : index < t.nbOfLines := by
  by_cases known : index < t.nbOfLines
  · exact known
  · rw [line_of_nbOfLines_le (Nat.not_lt.1 known)] at inside
    cases inside

end JourneyPlanner
