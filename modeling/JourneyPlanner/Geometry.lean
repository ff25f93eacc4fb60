/-!
Positions on the earth and the distance between two of them along a great circle, in metres.
-/

namespace JourneyPlanner

/-- Longitude and latitude in degrees. -/
structure Coord where
  lon : Float
  lat : Float
deriving Inhabited

namespace Coord

def zero : Coord := ⟨0, 0⟩

def radiansPerDegree : Float := 0.01745329238

def earthRadius : Float := 6372797.560856

/-- The haversine formula. -/
def distance (source target : Coord) : Float :=
  let longitudeArc := (source.lon - target.lon) * radiansPerDegree
  let latitudeArc := (source.lat - target.lat) * radiansPerDegree
  let latitudeHalf := (latitudeArc * 0.5).sin
  let longitudeHalf := (longitudeArc * 0.5).sin
  let cosines := (source.lat * radiansPerDegree).cos * (target.lat * radiansPerDegree).cos
  let haversine := latitudeHalf * latitudeHalf + cosines * (longitudeHalf * longitudeHalf)
  earthRadius * 2.0 * haversine.sqrt.asin

/-- Length of a line through some points; the empty sum is the negative zero. -/
def lineLength (points : List Coord) : Float :=
  (points.zip points.tail).foldl (fun sum (a, b) => sum + a.distance b) (-0.0)

end Coord

end JourneyPlanner
