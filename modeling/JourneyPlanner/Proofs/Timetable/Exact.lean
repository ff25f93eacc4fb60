import JourneyPlanner.Proofs.Layer.Services
import JourneyPlanner.Proofs.Layer.Split
import JourneyPlanner.Proofs.Timetable.Reordered
import JourneyPlanner.Proofs.Timetable.Trips
import Mathlib.Data.List.Nodup
import Mathlib.Data.Set.Operations

/-!
A timetable has exactly what runs. Each accepted pattern of the layer with a schedule on one of the
dates scanned has one line, the days of the line are the dates on which a schedule runs, and each day
has the schedules whose service has its date. No trip takes more than two days, so the dates scanned
are enough: no trip that leaves a stop between the midnight that starts the departure date and the
midnight that ends the last date is missing, whatever the date of its service.
-/

namespace JourneyPlanner

/-- The days of a line are those dates, from the day before a date on, on which a schedule of its
pattern runs, the earliest first, each with the schedules that run then. -/
structure Line.IsExact (line : Line) (network : Network) (date : Date) (dayRange : Nat) :
    Prop where
  increasing : line.days.toList.Pairwise fun day later => day.offset < later.offset
  scanned : ∀ day ∈ line.days, ∃ k : Int, -1 ≤ k ∧ k ≤ (dayRange : Int) - 2 ∧
    day.offset = 86400 * k ∧ day.date = date.addDays k
  listed : ∀ k : Int, -1 ≤ k → k ≤ (dayRange : Int) - 2 →
    ((∃ day ∈ line.days, day.date = date.addDays k) ↔
      ∃ s ∈ line.pattern.schedules, network.runsOn (date.addDays k) s = true)
  sorted : ∀ day ∈ line.days, day.schedules.toList.Pairwise (· < ·)
  schedules : ∀ day ∈ line.days, ∀ index, index ∈ day.schedules ↔
    ∃ s, line.pattern.schedules[index]? = some s ∧ network.runsOn day.date s = true

/-- A trip is among those that run on a day of a line. -/
structure Line.Runs (line : Line) (trip : TripOnDay) : Prop where
  day_lt : trip.day < line.days.size
  listed : trip.schedule ∈ (line.day trip.day).schedules

/-- A trip of a network, with its stopping pattern and the route and the service that it names. -/
structure Network.IsTrip (n : Network) (source : StopPattern) (route : Route) (trip : Trip)
    (service : Service) : Prop where
  inNetwork : source ∈ n.patterns
  routeFound : n.routes.find? (·.id == source.routeId) = some route
  inSource : trip ∈ source.trips
  serviceFound : n.services.find? (·.id == trip.serviceId) = some service

namespace Timetable

variable {network : Network} {layer : Layer} {date : Date} {dayRange : Nat}
  {filters : PatternFilters} {speed : Float} {p : TripPattern} {i : PatternIndex} {line : Line}

theorem mem_dayOffsets {k : Int} : k ∈ dayOffsets dayRange ↔ -1 ≤ k ∧ k ≤ (dayRange : Int) - 2 := by
  simp only [dayOffsets, List.mem_map, List.mem_range]
  constructor
  · rintro ⟨n, inside, rfl⟩
    omega
  · rintro ⟨low, high⟩
    exact ⟨(k + 1).toNat, by omega, by omega⟩

theorem pairwise_dayOffsets (dayRange : Nat) : (dayOffsets dayRange).Pairwise (· < ·) := by
  refine List.pairwise_map.2 (List.pairwise_lt_range.imp fun less => ?_)
  omega

/-- What runs some days after a date, if anything does. -/
def dayOn? (network : Network) (date : Date) (p : TripPattern) (k : Int) : Option ServiceDay :=
  if (network.schedulesOn (date.addDays k) p).isEmpty then none
  else some ⟨date.addDays k, k * secondsPerDay, (network.schedulesOn (date.addDays k) p).toArray⟩

theorem dayOn?_eq_some {k : Int} {day : ServiceDay} : dayOn? network date p k = some day ↔
    network.schedulesOn (date.addDays k) p ≠ [] ∧
      day = ⟨date.addDays k, k * secondsPerDay, (network.schedulesOn (date.addDays k) p).toArray⟩ := by
  rw [dayOn?, Option.ite_none_left_eq_some, Option.some.injEq, List.isEmpty_iff, eq_comm (b := day)]

/-- The days of a pattern among those scanned. -/
def daysOf (network : Network) (date : Date) (dayRange : Nat) (p : TripPattern) : List ServiceDay :=
  (dayOffsets dayRange).filterMap (dayOn? network date p)

theorem mem_daysOf {day : ServiceDay} : day ∈ daysOf network date dayRange p ↔
    ∃ k : Int, -1 ≤ k ∧ k ≤ (dayRange : Int) - 2 ∧ dayOn? network date p k = some day := by
  simp only [daysOf, List.mem_filterMap, mem_dayOffsets, and_assoc]

theorem line?_eq_some (built : Layer.build network = .ok layer) (known : layer.patterns[i]? = some p) :
    line? layer date dayRange filters p i = some line ↔ p.isAccepted filters = true ∧
      daysOf network date dayRange p ≠ [] ∧
        line = ⟨i, p, (daysOf network date dayRange p).toArray⟩ := by
  have day (k : Int) : serviceDay? layer date i k = dayOn? network date p k := by
    rw [serviceDay?_eq, Layer.schedulesOn?_eq built _ known, dayOn?]
    split
    · rfl
    · rfl
  have days : (dayOffsets dayRange).filterMap (serviceDay? layer date i) =
      daysOf network date dayRange p :=
    congrArg (List.filterMap · _) (funext day)
  rw [line?, Option.ite_none_right_eq_some]
  simp only [days, Option.ite_none_left_eq_some, Option.some.injEq, List.isEmpty_iff,
    eq_comm (b := line), ne_eq]

theorem daysOf_ne_nil : daysOf network date dayRange p ≠ [] ↔
    ∃ k : Int, -1 ≤ k ∧ k ≤ (dayRange : Int) - 2 ∧
      ∃ s ∈ p.schedules, network.runsOn (date.addDays k) s = true := by
  constructor
  · intro some
    obtain ⟨day, member⟩ := List.exists_mem_of_ne_nil _ some
    obtain ⟨k, low, high, onDay⟩ := mem_daysOf.1 member
    exact ⟨k, low, high, Network.schedulesOn_ne_nil.1 (dayOn?_eq_some.1 onDay).1⟩
  · rintro ⟨k, low, high, runs⟩
    have onDay : dayOn? network date p k = _ :=
      dayOn?_eq_some.2 ⟨Network.schedulesOn_ne_nil.2 runs, rfl⟩
    exact List.ne_nil_of_mem (mem_daysOf.2 ⟨k, low, high, onDay⟩)

theorem isExact_daysOf (network : Network) (date : Date) (dayRange : Nat) (p : TripPattern)
    (i : PatternIndex) :
    Line.IsExact ⟨i, p, (daysOf network date dayRange p).toArray⟩ network date dayRange := by
  have offset (k : Int) : k * secondsPerDay = 86400 * k := by
    rw [secondsPerDay, Int.mul_comm]
    rfl
  refine ⟨?_, fun day member => ?_, fun k low high => ?_, fun day member => ?_,
    fun day member index => ?_⟩
  · refine (pairwise_dayOffsets dayRange).filterMap _ fun k l less day onDay later onLater => ?_
    obtain ⟨-, rfl⟩ := dayOn?_eq_some.1 onDay
    obtain ⟨-, rfl⟩ := dayOn?_eq_some.1 onLater
    simp only [offset]
    omega
  · obtain ⟨k, low, high, onDay⟩ := mem_daysOf.1 (List.mem_toArray.1 member)
    obtain ⟨-, rfl⟩ := dayOn?_eq_some.1 onDay
    exact ⟨k, low, high, offset k, rfl⟩
  · rw [← Network.schedulesOn_ne_nil]
    constructor
    · rintro ⟨day, member, same⟩
      obtain ⟨l, -, -, onDay⟩ := mem_daysOf.1 (List.mem_toArray.1 member)
      obtain ⟨some, rfl⟩ := dayOn?_eq_some.1 onDay
      rw [← same]
      exact some
    · intro some
      have onDay : dayOn? network date p k = _ := dayOn?_eq_some.2 ⟨some, rfl⟩
      exact ⟨_, List.mem_toArray.2 (mem_daysOf.2 ⟨k, low, high, onDay⟩), rfl⟩
  · obtain ⟨k, -, -, onDay⟩ := mem_daysOf.1 (List.mem_toArray.1 member)
    obtain ⟨-, rfl⟩ := dayOn?_eq_some.1 onDay
    exact List.pairwise_lt_range.filter _
  · obtain ⟨k, -, -, onDay⟩ := mem_daysOf.1 (List.mem_toArray.1 member)
    obtain ⟨-, rfl⟩ := dayOn?_eq_some.1 onDay
    rw [List.mem_toArray, Network.mem_schedulesOn]

theorem exists_runs_of_isExact (h : line.IsExact network date dayRange) {k : Int} (low : -1 ≤ k)
    (high : k ≤ (dayRange : Int) - 2) {n : Nat} {s : Schedule}
    (known : line.pattern.schedules[n]? = some s)
    (runs : network.runsOn (date.addDays k) s = true) :
    ∃ m, line.Runs ⟨m, n⟩ ∧ (line.day m).date = date.addDays k ∧
      (line.day m).offset = 86400 * k := by
  obtain ⟨day, among, onDate⟩ := (h.listed k low high).2 ⟨s, Array.mem_of_getElem? known, runs⟩
  obtain ⟨l, -, -, offset, dateToo⟩ := h.scanned day among
  have sameDay : date.day + l = date.day + k := congrArg Date.day (dateToo.symm.trans onDate)
  obtain ⟨m, inDays, atDay⟩ := Array.getElem_of_mem among
  have ofDay : line.day m = day := by
    rw [Line.day, Array.getD_eq_getD_getElem?, Array.getElem?_eq_getElem inDays, atDay,
      Option.getD_some]
  refine ⟨m, ⟨inDays, ?_⟩, by rw [ofDay, onDate], by rw [ofDay, offset]; omega⟩
  rw [ofDay]
  exact (h.schedules day among n).2 ⟨s, known, by rw [onDate]; exact runs⟩

theorem pairwise_linesOf (l : Layer) (date : Date) (dayRange : Nat) (filters : PatternFilters) :
    (linesOf l date dayRange filters).Pairwise fun line later =>
      line.patternIndex < later.patternIndex := by
  have index {entry : TripPattern × Nat} {line : Line}
      (made : line? l date dayRange filters entry.1 entry.2 = some line) :
      line.patternIndex = entry.2 := by
    simp only [line?, Option.ite_none_right_eq_some, Option.ite_none_left_eq_some,
      Option.some.injEq] at made
    rw [← made.2.2]
  refine (pairwise_zipIdx _).filterMap _ fun a b less line made later madeToo => ?_
  rw [index made, index madeToo]
  exact less

theorem exists_line_of_mem (speed : Float) {line : Line}
    (member : line ∈ linesOf layer date dayRange filters) :
    ∃ index < (ofLayer layer date dayRange filters speed).nbOfLines,
      (ofLayer layer date dayRange filters speed).line index = line := by
  obtain ⟨index, inside, rfl⟩ := List.getElem_of_mem member
  exact ⟨index, by simpa using inside, line_ofLayer inside⟩

theorem injOn_patternIndex (layer : Layer) (date : Date) (dayRange : Nat) (filters : PatternFilters)
    (speed : Float) :
    let t := ofLayer layer date dayRange filters speed
    Set.InjOn (fun line => (t.line line).patternIndex) {line | line < t.nbOfLines} := by
  intro t line inside other within same
  simp only [t, Set.mem_ofPred_eq, nbOfLines_ofLayer] at inside within
  simp only [t, line_ofLayer inside, line_ofLayer within] at same
  let indices := (linesOf layer date dayRange filters).map Line.patternIndex
  have distinct : indices.Nodup :=
    List.pairwise_map.2 ((pairwise_linesOf layer date dayRange filters).imp Nat.ne_of_lt)
  have inIndices : line < indices.length := by simpa [indices] using inside
  have withinIndices : other < indices.length := by simpa [indices] using within
  have sameIndex : indices[line] = indices[other] := by
    simp only [indices, List.getElem_map, same]
  exact (List.Nodup.getElem_inj_iff distinct).1 sameIndex

theorem build_eq_ofLayer (finite : speed.isFinite = true) (positive : ¬speed ≤ 0)
    (two : 2 ≤ dayRange) (most : dayRange ≤ maxDayRange) (valid : filters.modes.validate = .ok ()) :
    build layer date dayRange filters speed = .ok (ofLayer layer date dayRange filters speed) := by
  have speedValid : ¬(!speed.isFinite || decide (speed ≤ 0)) = true := by
    simp [finite, positive]
  have inRange : ¬(decide (dayRange < 2) || decide (maxDayRange < dayRange)) = true := by
    simp only [Bool.or_eq_true, decide_eq_true_eq]
    omega
  rw [build, if_neg speedValid, if_neg inRange]
  exact bind_eq_ok.2 ⟨(), valid, rfl⟩

/-- Whether a pattern is accepted and has a schedule that runs on one of the dates scanned. -/
def IsServed (network : Network) (date : Date) (dayRange : Nat) (filters : PatternFilters)
    (p : TripPattern) : Prop :=
  p.isAccepted filters = true ∧ ∃ k : Int, -1 ≤ k ∧ k ≤ (dayRange : Int) - 2 ∧
    ∃ s ∈ p.schedules, network.runsOn (date.addDays k) s = true

theorem lines_of_pattern (built : Layer.build network = .ok layer)
    (known : layer.patterns[i]? = some p) :
    let t := ofLayer layer date dayRange filters speed
    (IsServed network date dayRange filters p →
        ∃! line, line < t.nbOfLines ∧ (t.line line).patternIndex = i) ∧
      (¬IsServed network date dayRange filters p →
        ∀ line < t.nbOfLines, (t.line line).patternIndex ≠ i) := by
  intro t
  refine ⟨fun ⟨accepted, runs⟩ => ?_, fun refused line inside same => ?_⟩
  · have made := (line?_eq_some built known).2 ⟨accepted, daysOf_ne_nil.2 runs, rfl⟩
    obtain ⟨line, inside, equal⟩ := exists_line_of_mem speed
      (mem_linesOf.2 ⟨i, p, known, made⟩)
    have first : (t.line line).patternIndex = i := congrArg Line.patternIndex equal
    exact ⟨line, ⟨inside, first⟩, fun other ⟨within, same⟩ =>
      injOn_patternIndex layer date dayRange filters speed within inside (same.trans first.symm)⟩
  · rw [nbOfLines_ofLayer] at inside
    rw [line_ofLayer inside] at same
    obtain ⟨j, q, knownToo, made⟩ := mem_linesOf.1 (List.getElem_mem inside)
    obtain ⟨accepted, runs, equal⟩ := (line?_eq_some built knownToo).1 made
    obtain rfl : j = i := by
      rw [← same, equal]
    obtain rfl : p = q := Option.some.inj (known.symm.trans knownToo)
    exact refused ⟨accepted, daysOf_ne_nil.1 runs⟩

theorem schedule_of_isTrip {source : StopPattern} {route : Route} {made : Trip} {service : Service}
    {nbOfPositions : Nat} {s : Schedule} (isTrip : network.IsTrip source route made service)
    (compiled : Layer.Build.schedule network nbOfPositions made = .ok s) {position : Nat}
    {time : StopTime} (atStop : made.stopTimes[position]? = some time) :
    network.services[s.service]? = some service ∧
      (s.departure position).seconds = time.departure := by
  obtain ⟨-, named, size, times, -⟩ := Layer.Build.schedule_spec compiled
  constructor
  · have found := isTrip.serviceFound
    rw [Array.find?_eq_bind_findIdx?_getElem?, named, Option.bind_some] at found
    exact found
  · have inside : position < nbOfPositions := by
      have inTimes := (List.getElem?_eq_some_iff.1 atStop).1
      rw [times.length_eq] at inTimes
      simpa [size] using inTimes
    obtain ⟨other, atStopToo, -, departs⟩ := Layer.Build.schedule_at compiled inside
    obtain rfl : time = other := Option.some.inj (atStop.symm.trans atStopToo)
    exact departs

theorem exists_runs_of_trip (built : Layer.build network = .ok layer) {source : StopPattern}
    {route : Route} {made : Trip} {service : Service}
    (isTrip : network.IsTrip source route made service)
    (accepted : filters.acceptsTrip route made = true)
    {d : Date} (dated : d ∈ service.dates) {position : Nat} {time : StopTime}
    (atStop : made.stopTimes[position]? = some time)
    (after : 0 < 86400 * d.daysSince date + time.departure)
    (before : 86400 * d.daysSince date + time.departure < 86400 * ((dayRange : Int) - 1))
    (most : dayRange ≤ maxDayRange) :
    ∃ line ∈ linesOf layer date dayRange filters, ∃ onDay, line.Runs onDay ∧
      line.IsTripOf network filters onDay source route made service ∧ line.serviceDate onDay = d ∧
        (line.boardTime onDay position).seconds = 86400 * d.daysSince date + time.departure := by
  obtain ⟨i, p, s, known, isPart, inPattern, compiled, kind⟩ :=
    Layer.exists_pattern_of_trip built isTrip.inNetwork isTrip.routeFound isTrip.inSource
  obtain ⟨serves, departs⟩ := schedule_of_isTrip isTrip compiled atStop
  have runs : network.runsOn d s = true := Network.runsOn_iff.2 ⟨service, serves, dated⟩
  -- No service day is longer than two days, so the trip is of a date that is scanned.
  have short := (s.departure position).seconds_le
  simp only [maxServiceSeconds, departs] at short
  have sameDate := Date.addDays_daysSince date d
  generalize d.daysSince date = k at after before sameDate ⊢
  have low : -1 ≤ k := by omega
  have high : k ≤ (dayRange : Int) - 2 := by omega
  have passes : p.isAccepted filters = true := (isPart.isAccepted_eq kind filters).trans accepted
  rw [← sameDate] at runs
  obtain ⟨n, atSchedule⟩ := Array.mem_iff_getElem?.1 inPattern
  let line : Line := ⟨i, p, (daysOf network date dayRange p).toArray⟩
  have exactly : line.IsExact network date dayRange := isExact_daysOf network date dayRange p i
  obtain ⟨m, onDay, serviceDate, offset⟩ :=
    exists_runs_of_isExact exactly low high atSchedule runs
  have ofSchedule : line.schedule ⟨m, n⟩ = s := by
    simp only [Line.schedule, TripPattern.schedule, line, Array.getD_eq_getD_getElem?, atSchedule,
      Option.getD_some]
  have serviceDate : line.serviceDate ⟨m, n⟩ = d := serviceDate.trans sameDate
  refine ⟨line, mem_linesOf.2 ⟨i, p, known, (line?_eq_some built known).2
    ⟨passes, daysOf_ne_nil.2 ⟨k, low, high, s, inPattern, runs⟩, rfl⟩⟩, ⟨m, n⟩, onDay, ?_,
    serviceDate, ?_⟩
  · refine ⟨isTrip.inNetwork, isTrip.routeFound, isPart, isTrip.inSource, ?_, kind, passes,
      isTrip.serviceFound, serviceDate ▸ dated⟩
    rw [ofSchedule]
    exact compiled
  · simp only [maxDayRange] at most
    rw [Line.boardTime, ofSchedule, offset, SearchTime.ofServiceDay, departs]
    exact clampWord_of_bounds (by omega) (by omega)

/-- For valid parameters there is a timetable. Each accepted pattern of the layer with a schedule on
one of the dates scanned has one line in it, and no other pattern has any; each line has its days and
their schedules exactly; and each accepted trip, on each date of its service, is there for each stop
that it leaves strictly after the midnight that starts the departure date and before the midnight
that ends the last date scanned. -/
theorem build_exact (built : Layer.build network = .ok layer) (date : Date) (dayRange : Nat)
    (filters : PatternFilters) (speed : Float) (finite : speed.isFinite = true)
    (positive : ¬speed ≤ 0) (two : 2 ≤ dayRange) (most : dayRange ≤ maxDayRange)
    (valid : filters.modes.validate = .ok ()) :
    ∃ t, build layer date dayRange filters speed = .ok t ∧
      (∀ (i : PatternIndex) (p : TripPattern), layer.patterns[i]? = some p →
        (IsServed network date dayRange filters p →
            ∃! line, line < t.nbOfLines ∧ (t.line line).patternIndex = i) ∧
          (¬IsServed network date dayRange filters p →
            ∀ line < t.nbOfLines, (t.line line).patternIndex ≠ i)) ∧
      (∀ line < t.nbOfLines,
        layer.patterns[(t.line line).patternIndex]? = some (t.line line).pattern ∧
          (t.line line).IsExact network date dayRange) ∧
      ∀ source route made service, network.IsTrip source route made service →
        filters.acceptsTrip route made = true →
          ∀ d ∈ service.dates, ∀ (position : Nat) (time : StopTime),
            made.stopTimes[position]? = some time →
              0 < 86400 * d.daysSince date + time.departure →
              86400 * d.daysSince date + time.departure < 86400 * ((dayRange : Int) - 1) →
                ∃ line < t.nbOfLines, ∃ onDay, (t.line line).Runs onDay ∧
                  (t.line line).IsTripOf network filters onDay source route made service ∧
                    (t.line line).serviceDate onDay = d ∧
                      ((t.line line).boardTime onDay position).seconds =
                        86400 * d.daysSince date + time.departure := by
  refine ⟨_, build_eq_ofLayer finite positive two most valid,
    fun i p known => lines_of_pattern built known, fun line inside => ?_, ?_⟩
  · rw [nbOfLines_ofLayer] at inside
    rw [line_ofLayer inside]
    obtain ⟨i, p, known, made⟩ := mem_linesOf.1 (List.getElem_mem inside)
    obtain ⟨-, -, equal⟩ := (line?_eq_some built known).1 made
    rw [equal]
    exact ⟨known, isExact_daysOf network date dayRange p i⟩
  · intro source route made service isTrip accepted d dated position time atStop after before
    obtain ⟨line, member, onDay, runs, ofTrip, serviceDate, boards⟩ :=
      exists_runs_of_trip built isTrip accepted dated atStop after before most
    obtain ⟨index, inside, rfl⟩ := exists_line_of_mem speed member
    exact ⟨index, inside, onDay, runs, ofTrip, serviceDate, boards⟩

theorem build_exact_relay : ∃ layer t line onDay, Layer.build .relay = .ok layer ∧
    build layer ⟨100⟩ 3 {} 1 = .ok t ∧ t.nbOfLines = 3 ∧ line < t.nbOfLines ∧
      (t.line line).IsExact .relay ⟨100⟩ 3 ∧ (t.line line).Runs onDay ∧
        (t.line line).serviceDate onDay = ⟨100⟩ ∧
          ((t.line line).boardTime onDay 0).seconds = 31500 := by
  have found : (Layer.build .relay).toOption.any (fun layer =>
      (build layer ⟨100⟩ 3 {} 1).toOption.any fun t => t.nbOfLines == 3) = true := by
    decide +kernel
  obtain ⟨layer, built, found⟩ := exists_ok_of_any found
  obtain ⟨t, made, lines⟩ := exists_ok_of_any found
  obtain ⟨same, madeToo, -, exactly, trips⟩ := build_exact built ⟨100⟩ 3 {} 1 (by decide +kernel)
    (by decide +kernel) (by decide) (by decide) rfl
  obtain rfl : t = same := Except.ok.inj (made.symm.trans madeToo)
  let route : Route := ⟨"r", "R", .bus, none⟩
  let trip : Trip := ⟨"u", "s", none, none, [⟨31500, 31500⟩, ⟨32100, 32100⟩]⟩
  have isTrip : Network.relay.IsTrip ⟨"q", "r", ["c", "d"], [trip]⟩ route trip ⟨"s", [⟨100⟩]⟩ :=
    ⟨by simp [Network.relay, trip], by simp [Network.relay, route], List.mem_cons_self,
      by simp [Network.relay, trip]⟩
  obtain ⟨line, inside, onDay, runs, -, serviceDate, boards⟩ := trips _ route trip _ isTrip
    (by decide +kernel) ⟨100⟩ List.mem_cons_self 0 ⟨31500, 31500⟩ rfl (by decide) (by decide)
  exact ⟨layer, t, line, onDay, built, made, eq_of_beq lines, inside, (exactly line inside).2, runs,
    serviceDate, boards⟩

end Timetable

end JourneyPlanner
