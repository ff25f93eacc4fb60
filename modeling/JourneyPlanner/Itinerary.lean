import JourneyPlanner.Journey.Basic
import JourneyPlanner.Street

/-!
Journeys as they are shown to people: stops by name, routes and trips by identifier, times as
date-times, and the line to draw on a map.
-/

namespace JourneyPlanner

structure Place where
  stopId : String
  name : String
  coord : Coord

inductive WalkKind where
  | access
  | transfer
  | egress
deriving DecidableEq

namespace WalkKind

def title : WalkKind → String
  | access => "Access"
  | transfer => "Transfer"
  | egress => "Egress"

end WalkKind

namespace Itinerary

/-- A walk without a place at one end starts at the origin or ends at the destination. The geometry
of a ride has the stops served. -/
inductive Leg where
  | walk (kind : WalkKind) (source target : Option Place) (departure arrival : DateTime)
      (distance : Float) (geometry : List Coord)
  | ride (routeId routeName : String) (mode : Mode) (submode : Option String)
      (patternId tripId : String) (date : Date) (source target : Place)
      (departure arrival : DateTime) (geometry : List Coord)

namespace Leg

def departure : Leg → DateTime
  | walk _ _ _ departure _ _ _ => departure
  | ride _ _ _ _ _ _ _ _ _ departure _ _ => departure

def arrival : Leg → DateTime
  | walk _ _ _ _ arrival _ _ => arrival
  | ride _ _ _ _ _ _ _ _ _ _ arrival _ => arrival

def isRide : Leg → Bool
  | ride .. => true
  | walk .. => false

/-- What the leg adds to the distance walked. -/
def walkingDistance : Leg → Float
  | walk _ _ _ _ _ distance _ => distance
  | ride .. => 0.0

/-- What the leg adds to the distance ridden: the straight way from stop to stop. -/
def ridingDistance : Leg → Float
  | walk .. => 0.0
  | ride _ _ _ _ _ _ _ _ _ _ _ geometry => Coord.lineLength geometry

def stopOr (text : String) (place : Option Place) : String :=
  (place.map Place.stopId).getD text

/-- A line of text about the leg. -/
def render : Leg → String
  | walk kind source target departure arrival _ _ =>
      "  " ++ kind.title ++ " walk from " ++ stopOr "origin" source ++ " at " ++
        departure.timeText ++ " to " ++ stopOr "destination" target ++ " at " ++
        arrival.timeText ++ "\n"
  | ride _ routeName mode _ _ tripId _ source target departure arrival _ =>
      "  " ++ mode.name ++ " " ++ routeName ++ " (" ++ tripId ++ ") from " ++ source.stopId ++
        " at " ++ departure.timeText ++ " to " ++ target.stopId ++ " at " ++ arrival.timeText ++
        "\n"

end Leg

end Itinerary

structure Itinerary where
  departure : DateTime
  arrival : DateTime
  duration : Duration
  nbOfTransfers : Nat
  cost : Cost
  legs : List Itinerary.Leg

namespace Itinerary

def nbOfRides (i : Itinerary) : Nat :=
  i.legs.countP Leg.isRide

/-- The empty sum of distances is the negative zero. -/
def total (distances : List Float) : Float :=
  distances.foldl (· + ·) (-0.0)

def walkingDistance (i : Itinerary) : Float :=
  total (i.legs.map Leg.walkingDistance)

def ridingDistance (i : Itinerary) : Float :=
  total (i.legs.map Leg.ridingDistance)

def render (i : Itinerary) : String :=
  "Departure " ++ i.departure.spaced ++ ", arrival " ++ i.arrival.spaced ++ " (" ++
    i.duration.render ++ "), " ++ Text.decimal i.nbOfTransfers ++ " transfer(s), cost " ++
    Text.decimal i.cost.units ++ "\n" ++ String.join (i.legs.map Leg.render)

def place (layer : Layer) (index : StopIndex) : Place :=
  let stop := layer.stop index
  ⟨stop.id, stop.name, stop.coord⟩

/-- The stops of a pattern from one position to another one, both included. -/
def stopsBetween (pattern : TripPattern) (first last : Nat) : List StopIndex :=
  (pattern.stops.toList.take (last + 1)).drop first

/-- A walk at an end of the journey without a geometry of its own is drawn at its stop. -/
def legOf (layer : Layer) (access egress : StreetLegs) (searchDate : Date) :
    Journey.Leg → Leg
  | .access index stop departure arrival =>
      let walk := access.leg index
      let target := place layer stop
      .walk .access none (some target) (departure.toDateTime searchDate)
        (arrival.toDateTime searchDate) walk.distance (walk.geometry.getD [target.coord])
  | .walk footpath source target departure arrival =>
      let source := place layer source
      let target := place layer target
      .walk .transfer (some source) (some target) (departure.toDateTime searchDate)
        (arrival.toDateTime searchDate) (layer.footpath footpath).distance
        [source.coord, target.coord]
  | .ride pattern schedule date boardPosition debarkPosition boardStop debarkStop boardTime
      debarkTime =>
      let pattern := layer.pattern pattern
      .ride pattern.routeId pattern.routeName pattern.mode pattern.submode pattern.id
        (pattern.schedule schedule).tripId date (place layer boardStop) (place layer debarkStop)
        (boardTime.toDateTime searchDate) (debarkTime.toDateTime searchDate)
        ((stopsBetween pattern boardPosition debarkPosition).map fun stop =>
          (layer.stop stop).coord)
  | .egress index stop departure arrival =>
      let walk := egress.leg index
      let source := place layer stop
      .walk .egress (some source) none (departure.toDateTime searchDate)
        (arrival.toDateTime searchDate) walk.distance (walk.geometry.getD [source.coord])

/-- The itinerary of a journey whose times are counted from the midnight of `searchDate`. -/
def ofJourney (layer : Layer) (access egress : StreetLegs) (searchDate : Date)
    (journey : Journey) : Itinerary where
  departure := journey.departure.toDateTime searchDate
  arrival := journey.arrival.toDateTime searchDate
  duration := journey.arrival.sinceOrZero journey.departure
  nbOfTransfers := journey.nbOfTransfers
  cost := journey.cost
  legs := journey.legs.map (legOf layer access egress searchDate)

end Itinerary

end JourneyPlanner
