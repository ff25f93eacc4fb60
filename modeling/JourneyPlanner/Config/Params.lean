import JourneyPlanner.Json.Record
import JourneyPlanner.Request

/-!
The parameters of requests as they are configured in JSON, and queries for journeys in the same
form. Every parameter has a default; unknown ones are refused.
-/

namespace JourneyPlanner

namespace Config

open Json

def duration : Reader Duration :=
  Reader.parsed Duration.parse?

def cost : Reader Cost := do
  return Cost.ofUnits (← Reader.natural maxCost)

def coordRecord : Record (Option Float × Option Float) where
  fields := [
    ("lon", fun s => do return (some (← Reader.real), s.2)),
    ("lat", fun s => do return (s.1, some (← Reader.real)))]
  closed := false

def coord : Reader Coord :=
  coordRecord.read (none, none) fun s => do
    let lon ← s.1
    let lat ← s.2
    return ⟨lon, lat⟩

/-- The fields of a reach read so far. -/
structure PartialReach where
  stopId : Option String := none
  duration : Option Duration := none
  distance : Option Float := none
  cost : Option Cost := none
  geometry : Option (List Coord) := none

def reachRecord : Record PartialReach where
  fields := [
    ("stop_id", fun s => do return { s with stopId := some (← Reader.string) }),
    ("duration", fun s => do return { s with duration := some (← Config.duration) }),
    ("distance", fun s => do return { s with distance := some (← Reader.real) }),
    ("cost", fun s => do return { s with cost := ← Reader.optional Config.cost }),
    ("geometry", fun s => do
      let points ← Reader.optional (Reader.listOf coord)
      return { s with geometry := points.map Array.toList })]
  closed := false

def reach : Reader Reach :=
  reachRecord.read {} fun s => do
    let stopId ← s.stopId
    let duration ← s.duration
    let distance ← s.distance
    return ⟨stopId, duration, distance, s.cost, s.geometry⟩

def costsRecord : Record CostParams where
  fields := [
    ("boarding_cost", fun s => do return { s with boarding := ← cost }),
    ("transfer_cost", fun s => do return { s with transfer := ← cost }),
    ("transit_reluctance", fun s => do return { s with transitReluctance := ← Reader.real }),
    ("wait_reluctance", fun s => do return { s with waitReluctance := ← Reader.real }),
    ("walk_reluctance", fun s => do return { s with walkReluctance := ← Reader.real })]
  closed := true

def costs : Reader CostParams :=
  costsRecord.read {} some

def profile : Reader Profile :=
  Reader.choice Profile.ofName?

def mode : Reader Mode :=
  Reader.choice Mode.ofName?

end Config

structure RequestParams where
  maxTransfers : Nat := 10
  window : Duration := .ofHms 1 0 0
  step : Duration := .ofHms 0 1 0
  dayRange : Nat := 3
  walkSpeed : Float := 1.12
  minTransferTime : Duration := .ofHms 0 1 0
  maxDuration : Duration := .ofHms 24 0 0
  costs : CostParams := {}
  profile : Profile := .standard
  /-- Entries of a mode filter; without any, every mode is allowed. -/
  allowedModes : List String := []
  bannedRoutes : List String := []
  timeout : Option Duration := none
deriving BEq

namespace RequestParams

def filters (p : RequestParams) : Except InvalidParameter PatternFilters := do
  let modes ← if p.allowedModes.isEmpty then pure .all else ModeFilter.parse p.allowedModes
  return ⟨modes, Text.orderedSet p.bannedRoutes⟩

/-- A request with these parameters. -/
def toRequest (p : RequestParams) (access egress : List Reach) (departure : DateTime) :
    Except InvalidParameter Request := do
  let filters ← p.filters
  return {
    access := access
    egress := egress
    departure := departure
    window := p.window
    step := p.step
    maxTransfers := p.maxTransfers
    dayRange := p.dayRange
    walkSpeed := p.walkSpeed
    minTransferTime := p.minTransferTime
    maxDuration := p.maxDuration
    costs := p.costs
    profile := p.profile
    filters := filters
    timeout := p.timeout }

open Json in
def record : Record RequestParams where
  fields := [
    ("max_nb_of_transfers", fun s => do return { s with maxTransfers := ← Reader.natural 255 }),
    ("search_window", fun s => do return { s with window := ← Config.duration }),
    ("iteration_step", fun s => do return { s with step := ← Config.duration }),
    ("day_range", fun s => do return { s with dayRange := ← Reader.natural 65535 }),
    ("walk_speed", fun s => do return { s with walkSpeed := ← Reader.real }),
    ("min_transfer_time", fun s => do return { s with minTransferTime := ← Config.duration }),
    ("max_journey_duration", fun s => do return { s with maxDuration := ← Config.duration }),
    ("costs", fun s => do return { s with costs := ← Config.costs }),
    ("search_profile", fun s => do return { s with profile := ← Config.profile }),
    ("allowed_modes", fun s => do
      return { s with allowedModes := (← Reader.listOf Reader.string).toList }),
    ("banned_routes", fun s => do
      return { s with bannedRoutes := (← Reader.listOf Reader.string).toList }),
    ("timeout", fun s => do return { s with timeout := ← Reader.optional Config.duration })]
  closed := true

def reader : Json.Reader RequestParams :=
  record.read {} some

end RequestParams

/-- A query for journeys, with parameters of its own or with the configured ones. -/
structure JourneyQuery where
  access : List Reach
  egress : List Reach
  departure : DateTime
  params : Option RequestParams := none

namespace JourneyQuery

/-- The fields of a query read so far. -/
structure Partial where
  access : Option (List Reach) := none
  egress : Option (List Reach) := none
  departure : Option DateTime := none
  params : Option RequestParams := none

open Json in
def record : Record Partial where
  fields := [
    ("access", fun s => do
      return { s with access := some (← Reader.listOf Config.reach).toList }),
    ("egress", fun s => do
      return { s with egress := some (← Reader.listOf Config.reach).toList }),
    ("departure_datetime", fun s => do
      return { s with departure := some (← Reader.parsed DateTime.parse?) }),
    ("params", fun s => do return { s with params := ← Reader.optional RequestParams.reader })]
  closed := true

def reader : Json.Reader JourneyQuery :=
  record.read {} fun s => do
    let access ← s.access
    let egress ← s.egress
    let departure ← s.departure
    return ⟨access, egress, departure, s.params⟩

end JourneyQuery

end JourneyPlanner
