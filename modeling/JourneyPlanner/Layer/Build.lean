import JourneyPlanner.Layer.Basic

/-!
Compiling a network into a layer. The parts are checked in the order stops, services, patterns and
connections, and within a pattern in the order route, number of stops, stops and trips; the first
problem is the answer. A stopping pattern without trips gives no trip pattern, and one whose trips
have several kinds of vehicle gives one trip pattern for each kind.
-/

namespace JourneyPlanner

inductive ScheduleError where
  | timeOutOfBounds (position : Nat)
  | departureBeforeArrival (position : Nat)
  | decreasingTimes (earlier later : Nat)
deriving DecidableEq

def ScheduleError.message : ScheduleError → String
  | timeOutOfBounds position =>
      "time at position " ++ Text.decimal position ++ " is outside of the supported service day"
  | departureBeforeArrival position =>
      "departure is before arrival at position " ++ Text.decimal position
  | decreasingTimes earlier later =>
      "arrival at position " ++ Text.decimal later ++ " is before departure at position " ++
        Text.decimal earlier

inductive BuildError where
  | unknownStop (referencedBy stopId : String)
  | unknownRoute (patternId routeId : String)
  | unknownService (tripId serviceId : String)
  | patternTooShort (patternId : String) (nbOfStops : Nat)
  | scheduleLengthMismatch (tripId : String) (expected found : Nat)
  | badSchedule (tripId : String) (error : ScheduleError)
  | badTransferDistance (sourceId targetId : String)
  | calendarTooLong (first last : Date)
deriving DecidableEq

namespace BuildError

def message : BuildError → String
  | unknownStop referencedBy stopId =>
      referencedBy ++ " references an unknown stop `" ++ stopId ++ "`"
  | unknownRoute patternId routeId =>
      "pattern `" ++ patternId ++ "` references an unknown route `" ++ routeId ++ "`"
  | unknownService tripId serviceId =>
      "trip `" ++ tripId ++ "` references an unknown service `" ++ serviceId ++ "`"
  | patternTooShort patternId nbOfStops =>
      "pattern `" ++ patternId ++ "` has " ++ Text.decimal nbOfStops ++
        " stops, at least 2 are needed"
  | scheduleLengthMismatch tripId expected found =>
      "trip `" ++ tripId ++ "` has " ++ Text.decimal found ++
        " stop times but its pattern has " ++ Text.decimal expected ++ " stops"
  | badSchedule tripId _ => "trip `" ++ tripId ++ "` has an invalid schedule"
  | badTransferDistance sourceId targetId =>
      "transfer from `" ++ sourceId ++ "` to `" ++ targetId ++ "` has an invalid distance"
  | calendarTooLong first last =>
      "services span from " ++ first.render ++ " to " ++ last.render ++ ", which is too long"

/-- What is said about the cause of an error, if it has one. -/
def causes : BuildError → List String
  | badSchedule _ error => [error.message]
  | _ => []

end BuildError

namespace Layer.Build

/-- The calendar of the services, and the days of each service in it. -/
structure Services where
  calendar : Option Calendar
  daySets : DaySets
  serviceDays : Array DaySetIndex

def earlierDate (a b : Date) : Date :=
  if b < a then b else a

def laterDate (a b : Date) : Date :=
  if a < b then b else a

/-- The first and the last of some dates. -/
def dateRange? : List Date → Option (Date × Date)
  | [] => none
  | date :: dates => some (dates.foldl earlierDate date, dates.foldl laterDate date)

/-- The days of the services, in order, each set stored once. -/
def insertDays (calendar : Calendar) (start : DaySets) (services : List Service) :
    Array DaySetIndex × DaySets :=
  services.foldl (fun (indices, sets) service =>
    let (index, sets) := sets.insert service.dates calendar
    (indices.push index, sets)) (#[], start)

/-- Without any date there is no calendar, and no service has a set of days. -/
def services (services : List Service) : Except BuildError Services :=
  match dateRange? (services.flatMap Service.dates) with
  | none => .ok ⟨none, .empty 0, #[]⟩
  | some (first, last) =>
      match Calendar.ofDates? first last with
      | none => .error (.calendarTooLong first last)
      | some calendar =>
          let (serviceDays, daySets) := insertDays calendar (.empty calendar.nbOfDays) services
          .ok ⟨some calendar, daySets, serviceDays⟩

/-- The times of a trip, checked from the first position to the last; `previous` is the departure
at the position before. -/
def events (position : Nat) (previous : Option ServiceTime) :
    List StopTime → Except ScheduleError (List StopEvent)
  | [] => .ok []
  | time :: rest =>
      match ServiceTime.ofSeconds? time.arrival, ServiceTime.ofSeconds? time.departure with
      | some arrival, some departure =>
          if departure.seconds < arrival.seconds then .error (.departureBeforeArrival position)
          else if previous.any (fun p => arrival.seconds < p.seconds) then
            .error (.decreasingTimes (position - 1) position)
          else (events (position + 1) (some departure) rest).map (⟨arrival, departure⟩ :: ·)
      | _, _ => .error (.timeOutOfBounds position)

def schedule (network : Network) (nbOfPositions : Nat) (trip : Trip) :
    Except BuildError Schedule :=
  if trip.stopTimes.length ≠ nbOfPositions then
    .error (.scheduleLengthMismatch trip.id nbOfPositions trip.stopTimes.length)
  else match network.services.findIdx? (·.id == trip.serviceId) with
    | none => .error (.unknownService trip.id trip.serviceId)
    | some service =>
        match events 0 none trip.stopTimes with
        | .error error => .error (.badSchedule trip.id error)
        | .ok events => .ok ⟨trip.id, service, events.toArray⟩

/-- The mode and the submode by which the trips of a pattern are split. -/
structure VehicleKind where
  mode : Mode
  submode : Option String
deriving DecidableEq

namespace VehicleKind

/-- By mode, then without submode first, then by submode. -/
def le (a b : VehicleKind) : Bool :=
  if a.mode = b.mode then
    match a.submode, b.submode with
    | none, _ => true
    | some _, none => false
    | some s, some t => !(t < s)
  else a.mode.rank < b.mode.rank

def ofTrip (route : Route) (trip : Trip) : VehicleKind :=
  ⟨trip.mode.getD route.mode, trip.submode.or route.submode⟩

/-- The identifier of a pattern that is split. -/
def suffix (kind : VehicleKind) : String :=
  match kind.submode with
  | some submode => ":" ++ kind.mode.name ++ ":" ++ submode
  | none => ":" ++ kind.mode.name

end VehicleKind

/-- By first departure, then by identifier of the trip. -/
def scheduleLe (a b : Schedule) : Bool :=
  let first := (a.departure 0).seconds
  let second := (b.departure 0).seconds
  first < second || (first == second && !(b.tripId < a.tripId))

/-- Whether one schedule is at or before another one at each position. -/
def precedes (nbOfPositions : Nat) (a b : Schedule) : Bool :=
  (List.range nbOfPositions).all fun position =>
    (a.departure position).seconds ≤ (b.departure position).seconds &&
      (a.arrival position).seconds ≤ (b.arrival position).seconds

def isFifo (nbOfPositions : Nat) (schedules : List Schedule) : Bool :=
  (schedules.zip schedules.tail).all fun (a, b) => precedes nbOfPositions a b

/-- The kinds of the trips of a pattern, in order. -/
def kinds (schedules : List (VehicleKind × Schedule)) : List VehicleKind :=
  (schedules.map (·.1)).eraseDups.mergeSort VehicleKind.le

/-- The trip patterns of a stopping pattern, from its schedules with their kinds. -/
def split (source : StopPattern) (route : Route) (stops : List StopIndex)
    (schedules : List (VehicleKind × Schedule)) : List TripPattern :=
  let kinds := kinds schedules
  kinds.map fun kind =>
    let own := ((schedules.filter (·.1 = kind)).map (·.2)).mergeSort scheduleLe
    { id := if kinds.length = 1 then source.id else source.id ++ kind.suffix
      sourceId := source.id
      routeId := route.id
      routeName := route.name
      mode := kind.mode
      submode := kind.submode
      stops := stops.toArray
      schedules := own.toArray
      fifo := isFifo stops.length own }

def stopIndex (network : Network) (referencedBy stopId : String) : Except BuildError StopIndex :=
  match network.stops.findIdx? (·.id == stopId) with
  | some index => .ok index
  | none => .error (.unknownStop referencedBy stopId)

def pattern (network : Network) (source : StopPattern) : Except BuildError (List TripPattern) :=
  match network.routes.find? (·.id == source.routeId) with
  | none => .error (.unknownRoute source.id source.routeId)
  | some route =>
      if source.stopIds.length < 2 then
        .error (.patternTooShort source.id source.stopIds.length)
      else do
        let stops ← source.stopIds.mapM (stopIndex network ("pattern `" ++ source.id ++ "`"))
        let schedules ← source.trips.mapM fun trip => do
          let schedule ← schedule network stops.length trip
          return (VehicleKind.ofTrip route trip, schedule)
        return split source route stops schedules

def patterns (network : Network) : Except BuildError (List TripPattern) := do
  return (← network.patterns.toList.mapM (pattern network)).flatten

/-- A connection without a distance is as long as the straight way. -/
def footpath (network : Network) (connection : Connection) :
    Except BuildError (StopIndex × Footpath) := do
  let source ← stopIndex network "a transfer" connection.sourceId
  let target ← stopIndex network "a transfer" connection.targetId
  let coord (stop : StopIndex) := (network.stops.getD stop default).coord
  let distance := connection.distance.getD ((coord source).distance (coord target))
  if !distance.isFinite || distance < 0 then
    throw (.badTransferDistance connection.sourceId connection.targetId)
  return (source, ⟨target, distance, connection.duration, connection.cost⟩)

/-- The footpaths by the stop they leave, in the order of the connections. -/
def footpaths (network : Network) : Except BuildError (Array (Array Footpath)) := do
  let all ← network.connections.toList.mapM (footpath network)
  return ((List.range network.stops.size).map fun stop =>
    ((all.filter (·.1 = stop)).map (·.2)).toArray).toArray

/-- Whether a schedule runs on a day of the calendar. -/
def runs (services : Services) (day : Nat) (schedule : Schedule) : Bool :=
  (services.serviceDays[schedule.service]?).any fun days => services.daySets.contains days day

/-- The patterns that run on a day, each with its running schedules. -/
def runningOnDay (patterns : List TripPattern) (services : Services) (day : Nat) :
    List RunningPattern :=
  patterns.zipIdx.filterMap fun (pattern, index) =>
    let running := (List.range pattern.schedules.size).filter fun schedule =>
      runs services day (pattern.schedule schedule)
    if running.isEmpty then none else some ⟨index, running⟩

end Layer.Build

def Layer.build (network : Network) : Except BuildError Layer := do
  let services ← Build.services network.services.toList
  let patterns ← Build.patterns network
  let footpaths ← Build.footpaths network
  let days := (services.calendar.map Calendar.days).getD []
  return {
    stops := network.stops
    patterns := patterns.toArray
    footpaths := footpaths
    serviceIds := network.services.map Service.id
    serviceDays := services.serviceDays
    daySets := services.daySets
    calendar := services.calendar
    running := (days.map (Build.runningOnDay patterns services)).toArray }

end JourneyPlanner
