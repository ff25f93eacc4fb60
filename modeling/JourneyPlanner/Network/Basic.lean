import JourneyPlanner.Geometry
import JourneyPlanner.Network.Mode
import JourneyPlanner.Search.Cost
import JourneyPlanner.Time.Date

/-!
A transit network as it is put together, one element after the other: stops, routes, services,
stopping patterns with their trips, and walking connections between stops. Elements refer to each
other by identifiers, which are checked only when a layer is compiled. Identifiers of stops,
routes, services and patterns are unique each in its own kind.
-/

namespace JourneyPlanner

structure Stop where
  id : String
  name : String
  coord : Coord
deriving Inhabited

structure Route where
  id : String
  name : String
  mode : Mode
  submode : Option String

/-- The dates on which the trips of a service run. -/
structure Service where
  id : String
  dates : List Date

/-- Arrival and departure at a stop, in seconds after the start of the service day. -/
structure StopTime where
  arrival : Nat
  departure : Nat

/-- A trip has the mode and the submode of its route where it has none of its own. -/
structure Trip where
  id : String
  serviceId : String
  mode : Option Mode
  submode : Option String
  stopTimes : List StopTime

/-- The stops that the trips of a route serve, in order. -/
structure StopPattern where
  id : String
  routeId : String
  stopIds : List String
  trips : List Trip

/-- A way to walk from one stop to another, in that direction only. The distance is in metres. -/
structure Connection where
  sourceId : String
  targetId : String
  distance : Option Float
  duration : Option Duration
  cost : Option Cost

structure Network where
  stops : Array Stop := #[]
  routes : Array Route := #[]
  services : Array Service := #[]
  patterns : Array StopPattern := #[]
  connections : Array Connection := #[]

inductive NetworkError where
  | identifierAlreadyExists (id : String)
  | unknownPattern (id : String)
deriving DecidableEq

def NetworkError.message : NetworkError → String
  | .identifierAlreadyExists id => "identifier `" ++ id ++ "` already exists"
  | .unknownPattern id => "unknown pattern `" ++ id ++ "`"

namespace Network

def empty : Network := {}

def addStop (n : Network) (stop : Stop) : Except NetworkError Network :=
  if n.stops.any (·.id == stop.id) then .error (.identifierAlreadyExists stop.id)
  else .ok { n with stops := n.stops.push stop }

def addRoute (n : Network) (route : Route) : Except NetworkError Network :=
  if n.routes.any (·.id == route.id) then .error (.identifierAlreadyExists route.id)
  else .ok { n with routes := n.routes.push route }

def addService (n : Network) (service : Service) : Except NetworkError Network :=
  if n.services.any (·.id == service.id) then .error (.identifierAlreadyExists service.id)
  else .ok { n with services := n.services.push service }

/-- The trips that come with the pattern are not compared with each other. -/
def addPattern (n : Network) (pattern : StopPattern) : Except NetworkError Network :=
  if n.patterns.any (·.id == pattern.id) then .error (.identifierAlreadyExists pattern.id)
  else .ok { n with patterns := n.patterns.push pattern }

/-- Adds a trip to a pattern that has no trip of its identifier. -/
def addTrip (n : Network) (patternId : String) (trip : Trip) : Except NetworkError Network :=
  match n.patterns.findIdx? (·.id == patternId) with
  | none => .error (.unknownPattern patternId)
  | some index =>
      if n.patterns[index]?.any (·.trips.any (·.id == trip.id)) then
        .error (.identifierAlreadyExists trip.id)
      else
        .ok { n with patterns := n.patterns.modify index fun pattern =>
          { pattern with trips := pattern.trips ++ [trip] } }

def addConnection (n : Network) (connection : Connection) : Network :=
  { n with connections := n.connections.push connection }

def nbOfTrips (n : Network) : Nat :=
  n.patterns.foldl (fun count pattern => count + pattern.trips.length) 0

/-- The identifiers of each kind are pairwise distinct; every network built by the additions above
is so. -/
def HasUniqueIds (n : Network) : Prop :=
  (n.stops.toList.map Stop.id).Nodup ∧ (n.routes.toList.map Route.id).Nodup ∧
    (n.services.toList.map Service.id).Nodup ∧ (n.patterns.toList.map StopPattern.id).Nodup

end Network

end JourneyPlanner
