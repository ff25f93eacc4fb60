import JourneyPlanner.Filter
import JourneyPlanner.Network.Basic
import JourneyPlanner.Time.DaySets

/-!
A layer is a network compiled for searching, and never changes. Stops and patterns are numbered,
the trips of a stopping pattern are split by kind of vehicle and sorted, footpaths are listed by the
stop they leave, and for each day of the calendar the running schedules of each pattern are listed.
-/

namespace JourneyPlanner

abbrev StopIndex := Nat

abbrev PatternIndex := Nat

abbrev ServiceIndex := Nat

/-- Arrival and departure of a trip at a position of its pattern. -/
structure StopEvent where
  arrival : ServiceTime
  departure : ServiceTime
deriving Inhabited

/-- The times of a trip at all the positions of its pattern. -/
structure Schedule where
  tripId : String
  service : ServiceIndex
  events : Array StopEvent
deriving Inhabited

namespace Schedule

def arrival (s : Schedule) (position : Nat) : ServiceTime :=
  (s.events.getD position default).arrival

def departure (s : Schedule) (position : Nat) : ServiceTime :=
  (s.events.getD position default).departure

end Schedule

/-- The trips of one stopping pattern made by one kind of vehicle, sorted by first departure. When
the pattern is `fifo` no trip overtakes another one. -/
structure TripPattern where
  id : String
  sourceId : String
  routeId : String
  routeName : String
  mode : Mode
  submode : Option String
  stops : Array StopIndex
  schedules : Array Schedule
  fifo : Bool
deriving Inhabited

namespace TripPattern

def nbOfPositions (p : TripPattern) : Nat :=
  p.stops.size

def stopAt (p : TripPattern) (position : Nat) : StopIndex :=
  p.stops.getD position 0

def schedule (p : TripPattern) (index : Nat) : Schedule :=
  p.schedules.getD index default

def isAccepted (p : TripPattern) (filters : PatternFilters) : Bool :=
  filters.accepts p.routeId p.mode p.submode

end TripPattern

/-- A way to walk to another stop; the distance is in metres. -/
structure Footpath where
  target : StopIndex
  distance : Float
  duration : Option Duration
  cost : Option Cost
deriving Inhabited

/-- A footpath by the stop it leaves and its place among the footpaths that leave it. -/
structure FootpathIndex where
  source : StopIndex
  rank : Nat
deriving DecidableEq, Inhabited

/-- The schedules of a pattern that run on one date, in increasing order. -/
structure RunningPattern where
  pattern : PatternIndex
  schedules : List Nat

structure Layer where
  stops : Array Stop
  patterns : Array TripPattern
  /-- By the stop they leave. -/
  footpaths : Array (Array Footpath)
  serviceIds : Array String
  /-- The days of each service; empty when there is no calendar. -/
  serviceDays : Array DaySetIndex
  daySets : DaySets
  calendar : Option Calendar
  /-- By the day of the calendar. -/
  running : Array (List RunningPattern)

namespace Layer

def nbOfStops (l : Layer) : Nat :=
  l.stops.size

def stopIndex? (l : Layer) (id : String) : Option StopIndex :=
  l.stops.findIdx? (·.id == id)

def stop (l : Layer) (index : StopIndex) : Stop :=
  l.stops.getD index default

def nbOfPatterns (l : Layer) : Nat :=
  l.patterns.size

def pattern (l : Layer) (index : PatternIndex) : TripPattern :=
  l.patterns.getD index default

def footpathsFrom (l : Layer) (stop : StopIndex) : Array Footpath :=
  l.footpaths.getD stop #[]

def footpath (l : Layer) (index : FootpathIndex) : Footpath :=
  (l.footpathsFrom index.source).getD index.rank default

def nbOfFootpaths (l : Layer) : Nat :=
  l.footpaths.foldl (fun count footpaths => count + footpaths.size) 0

def serviceIndex? (l : Layer) (id : String) : Option ServiceIndex :=
  l.serviceIds.findIdx? (· == id)

def isServiceActive (l : Layer) (service : ServiceIndex) (date : Date) : Bool :=
  match l.calendar.bind (·.dayOf? date), l.serviceDays[service]? with
  | some day, some days => l.daySets.contains days day
  | _, _ => false

/-- The patterns with a schedule running on a date, in the order of the patterns. There are none
outside of the calendar. -/
def runningOn (l : Layer) (date : Date) : List RunningPattern :=
  match l.calendar.bind (·.dayOf? date) with
  | some day => l.running.getD day []
  | none => []

end Layer

end JourneyPlanner
