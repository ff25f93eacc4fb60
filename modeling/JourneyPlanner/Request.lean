import JourneyPlanner.Itinerary
import JourneyPlanner.Journey.Distinct
import JourneyPlanner.Journey.Extract

/-!
The request for journeys and its answer. A request leaves on a date of the calendar, or on the day
after it, when trips of its last day may still be under way. An answer without itineraries is not
an error.
-/

namespace JourneyPlanner

structure Request where
  access : List Reach
  egress : List Reach
  /-- Departures are tried from here to the end of the window. -/
  departure : DateTime
  window : Duration := .ofHms 1 0 0
  step : Duration := .ofHms 0 1 0
  maxTransfers : Nat := 10
  /-- Number of boardings allowed; without it one more than the transfers. -/
  maxRounds : Option Nat := none
  /-- Number of service days scanned, the day before the departure included. -/
  dayRange : Nat := 3
  /-- In metres per second. -/
  walkSpeed : Float := 1.12
  minTransferTime : Duration := .ofHms 0 1 0
  maxDuration : Duration := .ofHms 24 0 0
  costs : CostParams := {}
  profile : Profile := .standard
  filters : PatternFilters := {}
  /-- The time allowed for the search. -/
  timeout : Option Duration := none

namespace Request

/-- There are never more than 255 boardings. -/
def maxBoardings (r : Request) : Nat :=
  r.maxRounds.getD (min (r.maxTransfers + 1) 255)

/-- The longest duration of a request. -/
def longest : Duration :=
  .ofSeconds maxSearchSeconds

def checkDuration (name : String) (value : Duration) : Except InvalidParameter Unit :=
  if longest < value then .error (.durationTooLong name value longest) else .ok ()

def checkReluctance (name : String) (value : Float) : Except InvalidParameter Unit :=
  if !value.isFinite || value < 0 then .error (.reluctance name value) else .ok ()

/-- The number of days is checked when the timetable is made. -/
def validate (r : Request) : Except InvalidParameter Unit := do
  if r.window.isZero then throw .emptySearchWindow
  if r.step.isZero then throw .zeroIterationStep
  checkDuration "search_window" r.window
  checkDuration "max_journey_duration" r.maxDuration
  checkDuration "min_transfer_time" r.minTransferTime
  checkReluctance "transit_reluctance" r.costs.transitReluctance
  checkReluctance "wait_reluctance" r.costs.waitReluctance
  checkReluctance "walk_reluctance" r.costs.walkReluctance
  if !r.walkSpeed.isFinite || r.walkSpeed ≤ 0 then throw (.walkSpeed r.walkSpeed)
  r.filters.modes.validate

end Request

/-- The whole seconds that have passed at each look at the clock since the request was made. -/
abbrev Clock := Nat → Nat → Nat

/-- A search that takes no time. -/
def Clock.stopped : Clock := fun _ _ => 0

/-- Whether the time allowed is over. -/
def Request.isOver (r : Request) (clock : Clock) : Search.Checks := fun iteration round =>
  r.timeout.any fun allowed => allowed.seconds ≤ clock iteration round

structure Response where
  itineraries : List Itinerary
  /-- Whether the time allowed ended before the search; more itineraries may exist. -/
  truncated : Bool
  stats : Search.Stats

inductive RoutingError where
  | invalidParameter (error : InvalidParameter)
  | dateOutOfCalendar (date : Date)
  | street (error : StreetError)

namespace RoutingError

def message : RoutingError → String
  | invalidParameter error => error.message
  | dateOutOfCalendar date =>
      "the departure date " ++ date.render ++ " is outside of the calendar of the transit data"
  | street _ => "could not compute access or egress legs"

def causes : RoutingError → List String
  | street error => error.message :: error.causes
  | _ => []

end RoutingError

/-- Whether a layer has trips that may run on a date: the date is in its calendar or follows its
last day. -/
def Layer.serves (layer : Layer) (date : Date) : Bool :=
  layer.calendar.any fun calendar =>
    calendar.contains date || date.addDays (-1) == calendar.last

namespace Request

/-- The search that a request asks for. -/
def query (r : Request) (layer : Layer) : Query where
  access := .ofReaches layer r.access
  egress := .ofReaches layer r.egress
  earliestDeparture := ⟨r.departure.second⟩
  window := r.window
  step := r.step
  maxBoardings := r.maxBoardings
  maxDuration := r.maxDuration
  minTransferTime := r.minTransferTime
  costs := r.costs
  -- No time at all is over at once; any other time is over when the clock says so.
  isLate := r.timeout.any Duration.isZero

/-- The timetable and the query of a request, once it is checked. -/
def context (r : Request) (layer : Layer) : Except RoutingError Search.Context := do
  r.validate.mapError .invalidParameter
  if !layer.serves r.departure.date then throw (.dateOutOfCalendar r.departure.date)
  let timetable ← (Timetable.build layer r.departure.date r.dayRange r.filters
    r.walkSpeed).mapError .invalidParameter
  return ⟨timetable, r.profile, r.query layer⟩

/-- The journeys that are shown after a search. -/
def journeys (c : Search.Context) (outcome : Search.Outcome) : List Journey :=
  Journey.distinct (Journey.extract c outcome.state (c.query.maxBoardings == 0))

end Request

/-- What is answered when a search has ended. -/
def Request.response (r : Request) (layer : Layer) (c : Search.Context)
    (outcome : Search.Outcome) : Response where
  itineraries := (journeys c outcome).map
    (Itinerary.ofJourney layer c.query.access c.query.egress r.departure.date)
  truncated := outcome.truncated
  stats := outcome.stats

/-- The answer to a request on a layer. The clock only matters to a request that limits the time. -/
def Layer.route (layer : Layer) (request : Request) (clock : Clock := .stopped) :
    Except RoutingError Response := do
  let c ← request.context layer
  return request.response layer c (Search.run c (request.isOver clock))

/-- The answer when a street router finds the ways from an origin and to a destination; they take
the place of those of the request. -/
def Layer.routeBetween (layer : Layer) (router : StreetRouter) (origin destination : Coord)
    (request : Request) (clock : Clock := .stopped) : Except RoutingError Response := do
  let access ← (router origin .access).mapError .street
  let egress ← (router destination .egress).mapError .street
  layer.route { request with access := access, egress := egress } clock

end JourneyPlanner
