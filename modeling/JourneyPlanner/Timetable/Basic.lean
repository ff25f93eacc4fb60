import JourneyPlanner.Layer.Basic
import JourneyPlanner.Parameter

/-!
The part of a layer that one search uses. A line is a trip pattern that passes the filters, with the
days on which it runs among the days scanned: the day before the departure date, for the trips that
are still under way, and the days from the departure date on. A timetable has the lines, the lines
at each stop, and the footpaths with their durations at the walking speed of the search.
-/

namespace JourneyPlanner

/-- A date with the schedules of a line that run on it, and the seconds from the start of the search
day to the start of that date. -/
structure ServiceDay where
  date : Date
  offset : Int
  schedules : Array Nat
deriving Inhabited

/-- A schedule of a line on one of its days. -/
structure TripOnDay where
  day : Nat
  schedule : Nat
deriving DecidableEq, Inhabited

/-- A trip pattern and its days, the earliest first. -/
structure Line where
  patternIndex : PatternIndex
  pattern : TripPattern
  days : Array ServiceDay
deriving Inhabited

/-- The first index of an array from which on a test fails, if it never holds again after failing
once; the index is sought between `low` and `high` by halving. -/
def partitionPoint (a : Array Nat) (holds : Nat → Bool) (low high : Nat) : Nat :=
  if low < high then
    let middle := (low + high) / 2
    if holds (a.getD middle 0) then partitionPoint a holds (middle + 1) high
    else partitionPoint a holds low middle
  else low
termination_by high - low

/-- The first element with the smallest key. -/
def firstMinimum? (key : Nat → Nat) : List Nat → Option Nat
  | [] => none
  | x :: rest => some (rest.foldl (fun best y => if key y < key best then y else best) x)

namespace Line

def nbOfPositions (l : Line) : Nat :=
  l.pattern.nbOfPositions

def stopAt (l : Line) (position : Nat) : StopIndex :=
  l.pattern.stopAt position

def day (l : Line) (index : Nat) : ServiceDay :=
  l.days.getD index default

def nbOfTrips (l : Line) : Nat :=
  l.days.foldl (fun count day => count + day.schedules.size) 0

def schedule (l : Line) (trip : TripOnDay) : Schedule :=
  l.pattern.schedule trip.schedule

def serviceDate (l : Line) (trip : TripOnDay) : Date :=
  (l.day trip.day).date

def boardTime (l : Line) (trip : TripOnDay) (position : Nat) : SearchTime :=
  .ofServiceDay (l.day trip.day).offset ((l.schedule trip).departure position)

def debarkTime (l : Line) (trip : TripOnDay) (position : Nat) : SearchTime :=
  .ofServiceDay (l.day trip.day).offset ((l.schedule trip).arrival position)

/-- When a schedule leaves a position, in seconds of its service day. -/
def departureAt (l : Line) (position schedule : Nat) : Nat :=
  ((l.pattern.schedule schedule).departure position).seconds

/-- The first schedule of a day to leave a position at or after a time of the search. Where no trip
overtakes another one it is found by halving, else by looking at all of them. -/
def earliestOnDay (l : Line) (day : ServiceDay) (waiting : SearchTime) (position : Nat) :
    Option Nat :=
  let target := clampWord (waiting.seconds - day.offset)
  if l.pattern.fifo then
    day.schedules[partitionPoint day.schedules
      (fun schedule => (l.departureAt position schedule : Int) < target) 0 day.schedules.size]?
  else
    firstMinimum? (l.departureAt position)
      (day.schedules.toList.filter fun schedule => target ≤ (l.departureAt position schedule : Int))

/-- The trip to board at a position when waiting from a given time on, with its departure: the
earliest one over all days, on the earliest day in case of a tie. -/
def earliestTrip (l : Line) (waiting : SearchTime) (position : Nat) :
    Option (TripOnDay × SearchTime) :=
  l.days.toList.zipIdx.foldl (fun best (day, index) =>
    match l.earliestOnDay day waiting position with
    | none => best
    | some schedule =>
        let trip : TripOnDay := ⟨index, schedule⟩
        let time := l.boardTime trip position
        match best with
        | none => some (trip, time)
        | some (_, earliest) => if time < earliest then some (trip, time) else best) none

end Line

abbrev LineIndex := Nat

/-- A footpath with its duration at the walking speed of the search. -/
structure Walk where
  footpath : FootpathIndex
  target : StopIndex
  duration : Duration
  cost : Option Cost

structure Timetable where
  layer : Layer
  date : Date
  lines : Array Line
  /-- The lines and positions at each stop. -/
  stopLines : Array (List (LineIndex × Nat))
  /-- The walks from each stop. -/
  stopWalks : Array (List Walk)

namespace Timetable

def nbOfStops (t : Timetable) : Nat :=
  t.layer.nbOfStops

def nbOfLines (t : Timetable) : Nat :=
  t.lines.size

def line (t : Timetable) (index : LineIndex) : Line :=
  t.lines.getD index default

def linesAt (t : Timetable) (stop : StopIndex) : List (LineIndex × Nat) :=
  t.stopLines.getD stop []

def walksFrom (t : Timetable) (stop : StopIndex) : List Walk :=
  t.stopWalks.getD stop []

/-- The time to walk a distance, in whole seconds rounded up. -/
def walkingDuration (distance speed : Float) : Duration :=
  let seconds := (distance / speed).ceil
  if seconds.isFinite && 0 ≤ seconds then .ofSeconds seconds.toUInt32.toNat
  else .ofSeconds 4294967295

/-- The days scanned, counted from the departure date. -/
def dayOffsets (dayRange : Nat) : List Int :=
  (List.range dayRange).map fun (k : Nat) => (k : Int) - 1

/-- The day of a pattern some days after the departure date, if the pattern runs on it. -/
def serviceDay? (layer : Layer) (date : Date) (pattern : PatternIndex) (k : Int) :
    Option ServiceDay :=
  let day := date.addDays k
  ((layer.runningOn day).find? (·.pattern == pattern)).map fun running =>
    ⟨day, k * secondsPerDay, running.schedules.toArray⟩

/-- The line of a pattern; none when the filters refuse it or it does not run. -/
def line? (layer : Layer) (date : Date) (dayRange : Nat) (filters : PatternFilters)
    (pattern : TripPattern) (index : PatternIndex) : Option Line :=
  if pattern.isAccepted filters then
    let days := (dayOffsets dayRange).filterMap (serviceDay? layer date index)
    if days.isEmpty then none else some ⟨index, pattern, days.toArray⟩
  else none

/-- The places where a stop occurs in some lines; a line that visits it twice occurs twice. -/
def linesThrough (lines : List Line) (stop : StopIndex) : List (LineIndex × Nat) :=
  lines.zipIdx.flatMap fun (line, index) =>
    line.pattern.stops.toList.zipIdx.filterMap fun (visited, position) =>
      if visited = stop then some (index, position) else none

def walks (layer : Layer) (speed : Float) (stop : StopIndex) : List Walk :=
  (layer.footpathsFrom stop).toList.zipIdx.map fun (footpath, rank) =>
    ⟨⟨stop, rank⟩, footpath.target,
      footpath.duration.getD (walkingDuration footpath.distance speed), footpath.cost⟩

/-- The timetable of a search. The walking speed, the number of days and the mode filter are checked
in this order. -/
def build (layer : Layer) (date : Date) (dayRange : Nat) (filters : PatternFilters)
    (speed : Float) : Except InvalidParameter Timetable := do
  if !speed.isFinite || speed ≤ 0 then throw (.walkSpeed speed)
  if dayRange < 2 || maxDayRange < dayRange then throw (.dayRange dayRange maxDayRange)
  filters.modes.validate
  let lines := layer.patterns.toList.zipIdx.filterMap fun (pattern, index) =>
    line? layer date dayRange filters pattern index
  let stops := List.range layer.nbOfStops
  return {
    layer := layer
    date := date
    lines := lines.toArray
    stopLines := (stops.map (linesThrough lines)).toArray
    stopWalks := (stops.map (walks layer speed)).toArray }

end Timetable

end JourneyPlanner
