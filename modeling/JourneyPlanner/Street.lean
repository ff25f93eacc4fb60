import JourneyPlanner.Layer.Basic

/-!
Walks between a place on the street network and the stops. A street router tells which stops can be
reached from an origin, or from which stops a destination can be reached; of these the legs of a
search keep one walk for each stop that the layer knows, the shortest one.
-/

namespace JourneyPlanner

/-- Whether the walk starts at the origin or ends at the destination. -/
inductive Direction where
  | access
  | egress
deriving DecidableEq

/-- A stop that can be reached on foot. The distance is in metres; the cost, where there is one,
replaces the cost of walking. -/
structure Reach where
  stopId : String
  duration : Duration
  distance : Float
  cost : Option Cost := none
  geometry : Option (List Coord) := none

inductive StreetError where
  | unreachable (place : Coord)
  | failure (reason : String)

namespace StreetError

def message : StreetError → String
  | unreachable place =>
      "the place Coord \x7b lon: " ++ Decimal.marked place.lon ++ ", lat: " ++
        Decimal.marked place.lat ++ " \x7d is not connected to the street network"
  | failure _ => "street router failure"

def causes : StreetError → List String
  | unreachable _ => []
  | failure reason => [reason]

end StreetError

abbrev StreetRouter := Coord → Direction → Except StreetError (List Reach)

structure StreetLeg where
  stop : StopIndex
  duration : Duration
  distance : Float
  cost : Option Cost
  geometry : Option (List Coord)
deriving Inhabited

/-- The legs at one end of a search, with a table of the stops of the layer that holds the index of
the leg of each stop. Each of the two is read from the other, so there is one leg at most for a
stop. -/
structure StreetLegs where
  legs : Array StreetLeg
  legAtStop : Array (Option Nat)
  inverse : ∀ stop index, legAtStop[stop]? = some (some index) ↔
    legs[index]?.map StreetLeg.stop = some stop

namespace StreetLegs

def empty (nbOfStops : Nat) : StreetLegs where
  legs := #[]
  legAtStop := Array.replicate nbOfStops none
  inverse stop index := by simp [Array.getElem?_replicate]

def size (s : StreetLegs) : Nat :=
  s.legs.size

def isEmpty (s : StreetLegs) : Bool :=
  s.legs.isEmpty

def leg (s : StreetLegs) (index : Nat) : StreetLeg :=
  s.legs.getD index default

/-- The index of the leg of a stop. -/
def indexAt? (s : StreetLegs) (stop : StopIndex) : Option Nat :=
  s.legAtStop[stop]?.join

/-- The leg of a stop, with its index. -/
def atStop? (s : StreetLegs) (stop : StopIndex) : Option (Nat × StreetLeg) :=
  (s.indexAt? stop).map fun index => (index, s.leg index)

theorem inverse_push (s : StreetLegs) {leg : StreetLeg}
    (unknown : s.legAtStop[leg.stop]? = some none) (stop : StopIndex) (index : Nat) :
    (s.legAtStop.setIfInBounds leg.stop (some s.legs.size))[stop]? = some (some index) ↔
      (s.legs.push leg)[index]?.map StreetLeg.stop = some stop := by
  have inside : leg.stop < s.legAtStop.size := (Array.getElem?_eq_some_iff.1 unknown).1
  have old := s.inverse stop index
  rw [Array.getElem?_setIfInBounds, Array.getElem?_push]
  by_cases same : leg.stop = stop
  · -- No leg was there, so the index is that of the last one.
    subst same
    have nowhere : s.legs[index]?.map StreetLeg.stop ≠ some leg.stop := by
      rw [ne_eq, ← old, unknown]
      simp
    by_cases last : index = s.legs.size
    · simp [inside, last]
    · simp [inside, last, Ne.symm last, nowhere]
  · rw [if_neg same, old]
    by_cases last : index = s.legs.size
    · simp [last, same]
    · simp [last]

theorem inverse_set (s : StreetLegs) {leg : StreetLeg} {place : Nat}
    (known : s.legAtStop[leg.stop]? = some (some place)) (stop : StopIndex) (index : Nat) :
    s.legAtStop[stop]? = some (some index) ↔
      (s.legs.setIfInBounds place leg)[index]?.map StreetLeg.stop = some stop := by
  have there := (s.inverse leg.stop place).1 known
  rw [s.inverse, Array.getElem?_setIfInBounds]
  by_cases same : place = index
  · subst same
    obtain ⟨current, found, stays⟩ := Option.map_eq_some_iff.1 there
    obtain ⟨inside, -⟩ := Array.getElem?_eq_some_iff.1 found
    rw [if_pos rfl, if_pos inside, found, Option.map_some, Option.map_some, stays]
  · rw [if_neg same]

/-- A leg for a stop that has one already takes its place when it is shorter. -/
def add (s : StreetLegs) (leg : StreetLeg) : StreetLegs :=
  match known : s.legAtStop[leg.stop]? with
  | none => s
  | some none =>
      ⟨s.legs.push leg, s.legAtStop.setIfInBounds leg.stop (some s.legs.size),
        s.inverse_push known⟩
  | some (some index) =>
      if leg.duration < (s.leg index).duration then
        ⟨s.legs.setIfInBounds index leg, s.legAtStop, s.inverse_set known⟩
      else s

def ofLegs (nbOfStops : Nat) (legs : List StreetLeg) : StreetLegs :=
  legs.foldl add (empty nbOfStops)

/-- The leg of a reach; none when the layer does not know the stop. -/
def ofReach? (layer : Layer) (reach : Reach) : Option StreetLeg :=
  (layer.stopIndex? reach.stopId).map fun stop =>
    ⟨stop, reach.duration, reach.distance, reach.cost, reach.geometry⟩

def ofReaches (layer : Layer) (reaches : List Reach) : StreetLegs :=
  ofLegs layer.nbOfStops (reaches.filterMap (ofReach? layer))

end StreetLegs

end JourneyPlanner
