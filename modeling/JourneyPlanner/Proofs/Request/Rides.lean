import JourneyPlanner.Proofs.Journey.Rides
import JourneyPlanner.Proofs.Journey.Shown
import JourneyPlanner.Proofs.Request.Context

/-!
The rides that are shown are rides of the network: each one is made by a trip on a date of its
service, between two stops of its stopping pattern, at the times of that trip.
-/

namespace JourneyPlanner

/-- The date-time some seconds after the start of a date. -/
def Date.after (d : Date) (seconds : Nat) : DateTime where
  date := d.addDays (seconds / secondsPerDay : Nat)
  second := seconds % secondsPerDay
  second_lt := Nat.mod_lt _ (by decide)

theorem SearchTime.toDateTime_ofServiceDay (date : Date) {k : Int} (low : -1 ≤ k)
    (high : k < maxDayRange) (t : ServiceTime) :
    (SearchTime.ofServiceDay (k * secondsPerDay) t).toDateTime date =
      (date.addDays k).after t.seconds := by
  have short := t.seconds_le
  have high : k < 14 := high
  simp only [maxServiceSeconds] at short
  have exact : (SearchTime.ofServiceDay (k * secondsPerDay) t).seconds =
      k * 86400 + t.seconds := by
    refine clampWord_of_bounds ?_ ?_
    · simp only [secondsPerDay]
      omega
    · simp only [secondsPerDay]
      omega
  simp only [SearchTime.toDateTime, Date.after, DateTime.mk.injEq, exact]
  refine ⟨?_, ?_, trivial, trivial⟩
  · apply Date.ext
    simp only [Date.day_addDays, secondsPerDay]
    omega
  · simp only [secondsPerDay]
    omega

namespace Layer.Build

variable {network : Network} {source : StopPattern} {route : Route} {p : TripPattern}

theorem IsPartOf.stopId_at (h : IsPartOf network source route p) {position : Nat}
    (inside : position < p.nbOfPositions) :
    source.stopIds[position]? = some (network.stops.getD (p.stopAt position) default).id := by
  have length := h.stops.length_eq
  have inStops : position < p.stops.size := inside
  have inIds : position < source.stopIds.length := by
    rw [length]
    exact inStops
  have found := h.stops.get inIds (by simpa using inStops)
  obtain ⟨known, same, -⟩ := Array.findIdx?_eq_some_iff_getElem.1 found
  have sameStop : p.stopAt position = p.stops[position] := by
    simp [TripPattern.stopAt, inStops]
  rw [List.getElem?_eq_getElem inIds, sameStop, Option.some.injEq]
  simp only [List.get_eq_getElem, Array.getElem_toList] at known same
  rw [Array.getD_eq_getD_getElem?, Array.getElem?_eq_getElem known, Option.getD_some]
  exact (eq_of_beq same).symm

end Layer.Build

namespace Request

/-- A leg that is shown is made by a trip of a network, on a date of its service among those that a
request scans, from one position of its stopping pattern to a later one. -/
structure IsRide (network : Network) (r : Request) (leg : Itinerary.Leg) (pattern : StopPattern)
    (trip : Trip) (route : Route) (service : Service) (date : Date) (p q : Nat) : Prop where
  inNetwork : pattern ∈ network.patterns
  inPattern : trip ∈ pattern.trips
  routeFound : network.routes.find? (·.id == pattern.routeId) = some route
  serviceFound : network.services.find? (·.id == trip.serviceId) = some service
  runs : date ∈ service.dates
  notBefore : r.departure.date.day - 1 ≤ date.day
  notAfter : date.day ≤ r.departure.date.day + r.dayRange - 2
  ahead : p < q
  leg_eq : ∃ source target boarded debarked patternId geometry,
    pattern.stopIds[p]? = some source.stopId ∧ pattern.stopIds[q]? = some target.stopId ∧
      trip.stopTimes[p]? = some boarded ∧ trip.stopTimes[q]? = some debarked ∧
        leg = .ride route.id route.name (trip.mode.getD route.mode) (trip.submode.or route.submode)
          patternId trip.id date source target (date.after boarded.departure)
          (date.after debarked.arrival) geometry
  modeAccepted :
    r.filters.modes.accepts (trip.mode.getD route.mode) (trip.submode.or route.submode) = true
  notBanned : route.id ∉ r.filters.bannedRoutes

theorem serviceDate_spec {layer : Layer} {r : Request} {line : Line}
    (lineOf : line.IsLineOf layer r.departure.date r.dayRange r.filters)
    (days : r.dayRange ≤ maxDayRange) {trip : TripOnDay} (known : trip.day < line.days.size) :
    r.departure.date.day - 1 ≤ (line.serviceDate trip).day ∧
      (line.serviceDate trip).day ≤ r.departure.date.day + r.dayRange - 2 ∧
        ∀ t : ServiceTime, (SearchTime.ofServiceDay (line.day trip.day).offset t).toDateTime
          r.departure.date = (line.serviceDate trip).after t.seconds := by
  obtain ⟨k, scanned, dateEq, offset⟩ := (lineOf.days trip.day known).exists_offset
  obtain ⟨n, inRange, rfl⟩ := List.mem_map.1 scanned
  have inRange := List.mem_range.1 inRange
  have sameDate : line.serviceDate trip = r.departure.date.addDays ((n : Int) - 1) := dateEq
  rw [sameDate, Date.day_addDays]
  refine ⟨by omega, by omega, fun t => ?_⟩
  rw [offset]
  exact SearchTime.toDateTime_ofServiceDay _ (by omega) (by omega) t

theorem isRide_legOf {network : Network} {layer : Layer} (compiled : layer.IsCompiled network)
    {r : Request} {c : Search.Context}
    (timetable : c.timetable.IsTimetableOf layer r.departure.date r.dayRange r.filters r.walkSpeed)
    (days : r.dayRange ≤ maxDayRange) {line : LineIndex} {o : Search.Onboard} {position : Nat}
    {leg : Journey.Leg} (ride : Journey.IsRideOn c line o position leg) :
    ∃ pattern trip route service date, IsRide network r
      (Itinerary.legOf layer c.query.access c.query.egress r.departure.date leg) pattern trip route
      service date o.boardPosition position := by
  have lineOf := timetable.lines line (Timetable.lt_nbOfLines ride.inside)
  obtain ⟨waiting, boards⟩ := ride.boards
  obtain ⟨pattern, route, trip, service, ofNetwork⟩ := lineOf.exists_trip compiled boards
  have boardInside : o.boardPosition < (c.timetable.line line).nbOfPositions :=
    Nat.lt_trans ride.ahead ride.inside
  obtain ⟨boarded, boardAt, -, departs⟩ :=
    Layer.Build.schedule_at ofNetwork.compiled boardInside
  obtain ⟨debarked, debarkAt, arrives, -⟩ :=
    Layer.Build.schedule_at ofNetwork.compiled ride.inside
  obtain ⟨notBefore, notAfter, time⟩ := serviceDate_spec lineOf days boards.day_lt
  obtain ⟨mode, submode⟩ := ofNetwork.kind_eq
  have accepted := ofNetwork.accepted
  simp only [TripPattern.isAccepted, PatternFilters.accepts, Bool.and_eq_true, Bool.not_eq_true',
    ofNetwork.isPart.routeId, mode, submode] at accepted
  have notBanned : route.id ∉ r.filters.bannedRoutes := by simpa using accepted.1
  refine ⟨pattern, trip, route, service, (c.timetable.line line).serviceDate o.trip,
    ofNetwork.inNetwork, ofNetwork.inSource, ofNetwork.routeFound, ofNetwork.serviceFound,
    ofNetwork.runs, notBefore, notAfter, ride.ahead, ?_, accepted.2, notBanned⟩
  · have tripId : ((c.timetable.line line).schedule o.trip).tripId = trip.id :=
      (Layer.Build.schedule_spec ofNetwork.compiled).1
    let served := Itinerary.stopsBetween (c.timetable.line line).pattern o.boardPosition position
    refine ⟨Itinerary.place layer ((c.timetable.line line).stopAt o.boardPosition),
      Itinerary.place layer ((c.timetable.line line).stopAt position), boarded, debarked,
      (c.timetable.line line).pattern.id, served.map fun stop => (layer.stop stop).coord, ?_, ?_,
      boardAt, debarkAt, ?_⟩
    · rw [Itinerary.place, Layer.stop, compiled.stops]
      exact ofNetwork.isPart.stopId_at boardInside
    · rw [Itinerary.place, Layer.stop, compiled.stops]
      exact ofNetwork.isPart.stopId_at ride.inside
    · rw [ride.leg_eq, ride.boardTime]
      simp only [Itinerary.legOf, lineOf.pattern_layer, ofNetwork.isPart.routeId,
        ofNetwork.isPart.routeName, mode, submode, Line.boardTime, Line.debarkTime, time, departs,
        arrives]
      rw [← tripId]
      rfl

theorem isRide_of_legOf {layer : Layer} {access egress : StreetLegs} {date : Date}
    {leg : Journey.Leg} (h : (Itinerary.legOf layer access egress date leg).isRide = true) :
    leg.isRide = true := by
  cases leg with
  | ride => rfl
  | access => cases h
  | walk => cases h
  | egress => cases h

/-- Every ride of an answer is a ride of the network, whenever the time of the request is over. -/
theorem exists_trip_of_ride {network : Network} {layer : Layer} {r : Request} {clock : Clock}
    {response : Response} (built : Layer.build network = .ok layer)
    (answered : layer.route r clock = .ok response)
    {i : Itinerary} (member : i ∈ response.itineraries) {leg : Itinerary.Leg} (among : leg ∈ i.legs)
    (ride : leg.isRide = true) :
    ∃ pattern trip route service date p q,
      IsRide network r leg pattern trip route service date p q := by
  obtain ⟨c, accepted, answered⟩ := bind_eq_ok.1 answered
  cases answered
  obtain ⟨timetable, days, -, -⟩ := context_spec accepted
  obtain ⟨j, shown, rfl⟩ := List.mem_map.1 member
  obtain ⟨inner, inJourney, rfl⟩ := List.mem_map.1 among
  have found := Journey.mem_of_mem_distinct shown
  obtain ⟨line, o, position, onLine⟩ := Journey.exists_isRideOn_of_mem
    (Search.consistent_run c (r.isOver clock)) found inJourney (isRide_of_legOf ride)
  obtain ⟨pattern, trip, route, service, date, isRide⟩ :=
    isRide_legOf (Layer.isCompiled_build built) timetable days onLine
  exact ⟨pattern, trip, route, service, date, o.boardPosition, position, isRide⟩

theorem exists_trip_of_ride_relay : ∃ layer response i leg,
    Layer.build .relay = .ok layer ∧ layer.route hurriedRelay .ticking = .ok response ∧
      response.truncated = true ∧ i ∈ response.itineraries ∧ leg ∈ i.legs ∧ leg.isRide = true ∧
        ∃ pattern trip route service date p q,
          IsRide .relay hurriedRelay leg pattern trip route service date p q := by
  obtain ⟨layer, -, response, i, built, -, answered, truncated, -, member, legs⟩ :=
    exists_answer_hurriedRelay
  have ridden : true ∈ i.legs.map Itinerary.Leg.isRide := by rw [legs]; decide
  obtain ⟨leg, among, ride⟩ := List.mem_map.1 ridden
  exact ⟨layer, response, i, leg, built, answered, truncated, member, among, ride,
    exists_trip_of_ride built answered member among ride⟩

end Request

end JourneyPlanner
