import JourneyPlanner.Proofs.Layer.Days
import Mathlib.Data.List.Chain

/-!
Which networks compile: those in which every reference names something, every time of a trip is in
its service day and none goes back, every footpath has a length, and the dates of the services are
not too far apart. A computation with several checks gives a result just when each check passes, so
there is one statement for each part, and the theorem about `Layer.build` puts them together.
-/

namespace JourneyPlanner

/-- A computation that gives a result. -/
def Succeeds {ε α : Type} (x : Except ε α) : Prop :=
  ∃ a, x = .ok a

section

variable {ε α β : Type}

theorem succeeds_ok (a : α) : Succeeds (.ok a : Except ε α) :=
  ⟨a, rfl⟩

theorem not_succeeds_error (e : ε) : ¬Succeeds (.error e : Except ε α) := by
  rintro ⟨a, equal⟩
  cases equal

theorem succeeds_bind {x : Except ε α} {f : α → Except ε β} :
    Succeeds (x >>= f) ↔ ∃ a, x = .ok a ∧ Succeeds (f a) := by
  constructor
  · rintro ⟨b, h⟩
    obtain ⟨a, first, then'⟩ := bind_eq_ok.1 h
    exact ⟨a, first, b, then'⟩
  · rintro ⟨a, first, b, then'⟩
    exact ⟨b, bind_eq_ok.2 ⟨a, first, then'⟩⟩

theorem succeeds_bind_ok {x : Except ε α} {f : α → β} :
    Succeeds (x >>= fun a => .ok (f a)) ↔ Succeeds x := by
  rw [succeeds_bind]
  constructor
  · rintro ⟨a, first, -⟩
    exact ⟨a, first⟩
  · rintro ⟨a, first⟩
    exact ⟨a, first, succeeds_ok _⟩

theorem succeeds_mapM {f : α → Except ε β} {l : List α} :
    Succeeds (l.mapM f) ↔ ∀ a ∈ l, Succeeds (f a) := by
  constructor
  · rintro ⟨results, h⟩ a member
    obtain ⟨b, -, made⟩ := exists_mem_of_mapM h member
    exact ⟨b, made⟩
  · intro each
    induction l with
    | nil => exact succeeds_ok []
    | cons a rest ih =>
        obtain ⟨⟨b, made⟩, others⟩ := List.forall_mem_cons.1 each
        obtain ⟨results, madeToo⟩ := ih others
        refine ⟨b :: results, ?_⟩
        rw [List.mapM_cons, made, madeToo]
        rfl

end

/-- The times of a trip are in its service day, and never go back. -/
structure Trip.IsTimed (trip : Trip) : Prop where
  inDay : ∀ time ∈ trip.stopTimes,
    time.arrival ≤ maxServiceSeconds ∧ time.departure ≤ maxServiceSeconds
  stays : ∀ time ∈ trip.stopTimes, time.arrival ≤ time.departure
  forward : trip.stopTimes.IsChain fun time next => time.departure ≤ next.arrival

structure Trip.IsConsistent (trip : Trip) (network : Network) (nbOfStops : Nat) : Prop where
  length_eq : trip.stopTimes.length = nbOfStops
  serviceKnown : ∃ service ∈ network.services, service.id = trip.serviceId
  timed : trip.IsTimed

/-- This also holds a pattern without trips to its route and its stops. -/
structure StopPattern.IsConsistent (pattern : StopPattern) (network : Network) : Prop where
  routeKnown : ∃ route ∈ network.routes, route.id = pattern.routeId
  long : 2 ≤ pattern.stopIds.length
  stopsKnown : ∀ id ∈ pattern.stopIds, ∃ stop ∈ network.stops, stop.id = id
  trips : ∀ trip ∈ pattern.trips, trip.IsConsistent network pattern.stopIds.length

/-- Both stops are known, and the distance, given or along the straight way, is finite and not
negative. -/
def Connection.IsConsistent (connection : Connection) (network : Network) : Prop :=
  ∃ source target, network.stops.find? (·.id == connection.sourceId) = some source ∧
    network.stops.find? (·.id == connection.targetId) = some target ∧
      let distance := connection.distance.getD (source.coord.distance target.coord)
      distance.isFinite = true ∧ ¬distance < 0

namespace Network

/-- The dates of all the services. -/
def dates (n : Network) : List Date :=
  n.services.toList.flatMap Service.dates

/-- There are no dates, or a calendar from the first to the last one. -/
def FitsCalendar (n : Network) : Prop :=
  n.dates = [] ∨ ∃ first ∈ n.dates, ∃ last ∈ n.dates, (∀ d ∈ n.dates, first ≤ d ∧ d ≤ last) ∧
    (Calendar.ofDates? first last).isSome = true

structure IsConsistent (n : Network) : Prop where
  fitsCalendar : n.FitsCalendar
  patterns : ∀ pattern ∈ n.patterns, pattern.IsConsistent n
  connections : ∀ connection ∈ n.connections, connection.IsConsistent n

end Network

theorem ServiceTime.exists_ofSeconds?_iff (n : Nat) :
    (∃ t, ofSeconds? n = some t) ↔ n ≤ maxServiceSeconds := by
  simp [ofSeconds?]

theorem exists_findIdx?_iff {α : Type} {a : Array α} {p : α → Bool} :
    (∃ i, a.findIdx? p = some i) ↔ ∃ x ∈ a, p x = true := by
  rw [← Option.isSome_iff_exists, Array.findIdx?_isSome, Array.any_eq_true']

namespace Layer.Build

variable {network : Network}

theorem foldl_pick_mem {pick : Date → Date → Date} (one : ∀ a b, pick a b = a ∨ pick a b = b)
    (dates : List Date) (start : Date) : dates.foldl pick start ∈ start :: dates := by
  refine List.foldlRecOn (motive := (· ∈ start :: dates)) dates pick List.mem_cons_self ?_
  intro best member date among
  rcases one best date with same | same
  · rwa [same]
  · rw [same]
    exact List.mem_cons_of_mem _ among

theorem dateRange?_mem {dates : List Date} {first last : Date}
    (h : dateRange? dates = some (first, last)) : first ∈ dates ∧ last ∈ dates := by
  cases dates with
  | nil => cases h
  | cons start rest =>
      cases h
      refine ⟨foldl_pick_mem (fun a b => ?_) rest start, foldl_pick_mem (fun a b => ?_) rest start⟩
      · rw [earlierDate]
        split
        · exact .inr rfl
        · exact .inl rfl
      · rw [laterDate]
        split
        · exact .inr rfl
        · exact .inl rfl

theorem date_le_antisymm {d e : Date} (le : d ≤ e) (ge : e ≤ d) : d = e :=
  Date.ext (Int.le_antisymm le ge)

theorem dateRange?_eq_some_iff {dates : List Date} {first last : Date} :
    dateRange? dates = some (first, last) ↔
      first ∈ dates ∧ last ∈ dates ∧ ∀ d ∈ dates, first ≤ d ∧ d ≤ last := by
  constructor
  · intro h
    obtain ⟨firstIn, lastIn⟩ := dateRange?_mem h
    exact ⟨firstIn, lastIn, dateRange?_spec h⟩
  · rintro ⟨firstIn, lastIn, around⟩
    cases range : dateRange? dates with
    | none =>
        cases dates with
        | nil => cases firstIn
        | cons => cases range
    | some found =>
        obtain ⟨start, stop⟩ := found
        obtain ⟨startIn, stopIn⟩ := dateRange?_mem range
        have within := dateRange?_spec range
        rw [date_le_antisymm (within first firstIn).1 (around start startIn).1,
          date_le_antisymm (around stop stopIn).2 (within last lastIn).2]

theorem succeeds_services :
    Succeeds (services network.services.toList) ↔ network.FitsCalendar := by
  have dates : network.services.toList.flatMap Service.dates = network.dates := rfl
  rw [Network.FitsCalendar, services, dates]
  cases range : dateRange? network.dates with
  | none =>
      have none : network.dates = [] := by
        cases dates : network.dates with
        | nil => rfl
        | cons => rw [dates] at range; cases range
      exact iff_of_true (succeeds_ok _) (.inl none)
  | some found =>
      obtain ⟨first, last⟩ := found
      obtain ⟨firstIn, lastIn, around⟩ := dateRange?_eq_some_iff.1 range
      have some : network.dates ≠ [] := List.ne_nil_of_mem firstIn
      have same : (Calendar.ofDates? first last).isSome = true ↔
          (network.dates = [] ∨ ∃ first ∈ network.dates, ∃ last ∈ network.dates,
            (∀ d ∈ network.dates, first ≤ d ∧ d ≤ last) ∧
              (Calendar.ofDates? first last).isSome = true) := by
        constructor
        · exact fun accepted => .inr ⟨first, firstIn, last, lastIn, around, accepted⟩
        · rintro (none | ⟨start, startIn, stop, stopIn, aroundToo, accepted⟩)
          · exact absurd none some
          · have rangeToo := dateRange?_eq_some_iff.2 ⟨startIn, stopIn, aroundToo⟩
            obtain ⟨rfl, rfl⟩ := Prod.mk.inj (Option.some.inj (range.symm.trans rangeToo))
            exact accepted
      rw [← same]
      simp only
      cases Calendar.ofDates? first last with
      | none => exact iff_of_false (not_succeeds_error _) Bool.false_ne_true
      | some calendar => exact iff_of_true (succeeds_ok _) rfl

theorem succeeds_events {times : List StopTime} {position : Nat} {previous : Option ServiceTime} :
    Succeeds (events position previous times) ↔
      (∀ time ∈ times, time.arrival ≤ maxServiceSeconds ∧ time.departure ≤ maxServiceSeconds) ∧
        (∀ time ∈ times, time.arrival ≤ time.departure) ∧
          times.IsChain (fun time next => time.departure ≤ next.arrival) ∧
            ∀ p ∈ previous, ∀ first ∈ times.head?, p.seconds ≤ first.arrival := by
  induction times generalizing position previous with
  | nil => simp [events, succeeds_ok]
  | cons time rest ih =>
      constructor
      · rintro ⟨result, made⟩
        obtain ⟨event, others, rfl, tail, arrives, departs, forward, after⟩ :=
          events_cons_eq_ok made
        obtain ⟨inDay, stays, chain, next⟩ := ih.1 ⟨others, tail⟩
        have arrivalInDay := event.arrival.seconds_le
        have departureInDay := event.departure.seconds_le
        rw [arrives] at arrivalInDay forward after
        rw [departs] at departureInDay forward
        refine ⟨List.forall_mem_cons.2 ⟨⟨arrivalInDay, departureInDay⟩, inDay⟩,
          List.forall_mem_cons.2 ⟨forward, stays⟩, List.isChain_cons.2 ⟨?_, chain⟩, ?_⟩
        · intro first isFirst
          rw [← departs]
          exact next _ rfl first isFirst
        · rintro p given first ⟨⟩
          exact after p given
      · rintro ⟨inDay, stays, chain, after⟩
        obtain ⟨⟨arrivalInDay, departureInDay⟩, inDay⟩ := List.forall_mem_cons.1 inDay
        obtain ⟨forward, stays⟩ := List.forall_mem_cons.1 stays
        obtain ⟨next, chain⟩ := List.isChain_cons.1 chain
        obtain ⟨arrival, arrives⟩ := (ServiceTime.exists_ofSeconds?_iff _).2 arrivalInDay
        obtain ⟨departure, departs⟩ := (ServiceTime.exists_ofSeconds?_iff _).2 departureInDay
        have arrivalEq := ServiceTime.seconds_of_ofSeconds? arrives
        have departureEq := ServiceTime.seconds_of_ofSeconds? departs
        obtain ⟨others, tail⟩ : Succeeds (events (position + 1) (some departure) rest) := by
          refine ih.2 ⟨inDay, stays, chain, ?_⟩
          rintro _ ⟨⟩ first isFirst
          have := next first isFirst
          omega
        have notBack : ¬departure.seconds < arrival.seconds := by omega
        have notEarly : ¬previous.any (fun p => arrival.seconds < p.seconds) = true := by
          rw [Option.any_eq_true]
          rintro ⟨p, given, early⟩
          have := after p given time rfl
          have := of_decide_eq_true early
          omega
        simp only [events, arrives, departs, if_neg notBack, if_neg notEarly, tail]
        exact succeeds_ok _

theorem succeeds_schedule {nbOfPositions : Nat} {trip : Trip} :
    Succeeds (schedule network nbOfPositions trip) ↔ trip.IsConsistent network nbOfPositions := by
  have timed : Succeeds (events 0 none trip.stopTimes) ↔ trip.IsTimed := by
    rw [succeeds_events]
    constructor
    · rintro ⟨inDay, stays, forward, -⟩
      exact ⟨inDay, stays, forward⟩
    · rintro ⟨inDay, stays, forward⟩
      exact ⟨inDay, stays, forward, fun _ none => absurd none (by simp)⟩
  have known : (∃ i, network.services.findIdx? (·.id == trip.serviceId) = some i) ↔
      ∃ service ∈ network.services, service.id = trip.serviceId := by
    simp only [exists_findIdx?_iff, beq_iff_eq]
  constructor
  · rintro ⟨made, ok⟩
    obtain ⟨-, found, size, times, -⟩ := schedule_spec ok
    refine ⟨?_, known.1 ⟨_, found⟩, ?_⟩
    · rw [times.length_eq, Array.length_toList, size]
    · rw [schedule] at ok
      split at ok
      · cases ok
      · rw [found] at ok
        simp only at ok
        split at ok
        · cases ok
        · next events accepted => exact timed.1 ⟨events, accepted⟩
  · rintro ⟨length, serviceKnown, inOrder⟩
    obtain ⟨service, found⟩ := known.2 serviceKnown
    obtain ⟨events, accepted⟩ := timed.2 inOrder
    rw [schedule, if_neg (not_not_intro length), found, accepted]
    exact succeeds_ok _

theorem stopIndex_eq_ok_iff {referencedBy stopId : String} {stop : StopIndex} :
    stopIndex network referencedBy stopId = .ok stop ↔
      network.stops.findIdx? (·.id == stopId) = some stop := by
  refine ⟨stopIndex_eq_ok, fun found => ?_⟩
  rw [stopIndex, found]

theorem succeeds_stopIndex {referencedBy stopId : String} :
    Succeeds (stopIndex network referencedBy stopId) ↔
      ∃ stop ∈ network.stops, stop.id = stopId := by
  simp only [Succeeds, stopIndex_eq_ok_iff, exists_findIdx?_iff, beq_iff_eq]

theorem succeeds_pattern {source : StopPattern} :
    Succeeds (pattern network source) ↔ source.IsConsistent network := by
  have routeKnown : (network.routes.find? (·.id == source.routeId)).isSome = true ↔
      ∃ route ∈ network.routes, route.id = source.routeId := by
    simp [Array.find?_isSome]
  have trips (route : Route) (nbOfStops : Nat) :
      Succeeds (source.trips.mapM fun trip => do
          let schedule ← schedule network nbOfStops trip
          return (VehicleKind.ofTrip route trip, schedule)) ↔
        ∀ trip ∈ source.trips, trip.IsConsistent network nbOfStops := by
    rw [succeeds_mapM]
    exact forall₂_congr fun trip _ => succeeds_bind_ok.trans succeeds_schedule
  cases found : network.routes.find? (·.id == source.routeId) with
  | none =>
      have unknown : ¬∃ route ∈ network.routes, route.id = source.routeId := by
        rw [← routeKnown, found]
        exact Bool.false_ne_true
      rw [pattern, found]
      exact iff_of_false (not_succeeds_error _) fun consistent => unknown consistent.routeKnown
  | some route =>
      have known := routeKnown.1 (by rw [found]; rfl)
      rw [pattern, found]
      simp only
      split
      · next short =>
          refine iff_of_false (not_succeeds_error _) fun consistent => ?_
          exact Nat.not_lt.2 consistent.long short
      · next long =>
          rw [succeeds_bind]
          constructor
          · rintro ⟨stops, found, scheduled⟩
            have length := (forall₂_of_mapM found).length_eq
            refine ⟨known, Nat.not_lt.1 long, fun id member => ?_, ?_⟩
            · exact succeeds_stopIndex.1 (succeeds_mapM.1 ⟨stops, found⟩ id member)
            · rw [length]
              exact (trips route _).1 (succeeds_bind_ok.1 scheduled)
          · intro consistent
            obtain ⟨stops, found⟩ := succeeds_mapM.2 fun id member =>
              succeeds_stopIndex.2 (consistent.stopsKnown id member)
            have length := (forall₂_of_mapM found).length_eq
            refine ⟨stops, found, succeeds_bind_ok.2 ((trips route _).2 ?_)⟩
            rw [← length]
            exact consistent.trips

theorem getD_of_findIdx? {stopId : String} {stop : StopIndex}
    (found : network.stops.findIdx? (·.id == stopId) = some stop) :
    network.stops.find? (·.id == stopId) = some (network.stops.getD stop default) := by
  obtain ⟨inside, -, -⟩ := Array.findIdx?_eq_some_iff_getElem.1 found
  rw [Array.find?_eq_bind_findIdx?_getElem?, found, Option.bind_some,
    Array.getD_eq_getD_getElem?, Array.getElem?_eq_getElem inside, Option.getD_some]

theorem exists_stopIndex_of_find? (referencedBy : String) {stopId : String} {stop : Stop}
    (found : network.stops.find? (·.id == stopId) = some stop) :
    ∃ index, stopIndex network referencedBy stopId = .ok index ∧
      network.stops.getD index default = stop := by
  rw [Array.find?_eq_bind_findIdx?_getElem?, Option.bind_eq_some_iff] at found
  obtain ⟨index, known, atIndex⟩ := found
  refine ⟨index, stopIndex_eq_ok_iff.2 known, ?_⟩
  rw [Array.getD_eq_getD_getElem?, atIndex, Option.getD_some]

theorem succeeds_footpath {connection : Connection} :
    Succeeds (footpath network connection) ↔ connection.IsConsistent network := by
  have measured (distance : Float) : (!distance.isFinite || decide (distance < 0)) = true ↔
      ¬(distance.isFinite = true ∧ ¬distance < 0) := by
    cases distance.isFinite <;> simp
  constructor
  · rintro ⟨made, ok⟩
    obtain ⟨source, start, ok⟩ := bind_eq_ok.1 ok
    obtain ⟨target, end', ok⟩ := bind_eq_ok.1 ok
    refine ⟨_, _, getD_of_findIdx? (stopIndex_eq_ok start),
      getD_of_findIdx? (stopIndex_eq_ok end'), ?_⟩
    simp only [measured] at ok
    split at ok
    · cases ok
    · next inRange => exact not_not.1 inRange
  · rintro ⟨source, target, start, end', inRange⟩
    obtain ⟨i, startAt, rfl⟩ := exists_stopIndex_of_find? "a transfer" start
    obtain ⟨j, endAt, rfl⟩ := exists_stopIndex_of_find? "a transfer" end'
    rw [footpath, succeeds_bind]
    refine ⟨i, startAt, succeeds_bind.2 ⟨j, endAt, ?_⟩⟩
    simp only [measured, if_neg (not_not_intro inRange)]
    exact succeeds_ok _

theorem succeeds_patterns :
    Succeeds (patterns network) ↔ ∀ pattern ∈ network.patterns, pattern.IsConsistent network := by
  rw [patterns]
  refine (succeeds_bind_ok.trans succeeds_mapM).trans ?_
  simp only [Array.mem_toList_iff, succeeds_pattern]

theorem succeeds_footpaths :
    Succeeds (footpaths network) ↔
      ∀ connection ∈ network.connections, connection.IsConsistent network := by
  rw [footpaths]
  refine (succeeds_bind_ok.trans succeeds_mapM).trans ?_
  simp only [Array.mem_toList_iff, succeeds_footpath]

end Layer.Build

/-- Just the consistent networks compile. -/
theorem Layer.exists_build_iff (network : Network) :
    (∃ layer, Layer.build network = .ok layer) ↔ network.IsConsistent := by
  constructor
  · rintro ⟨layer, built⟩
    obtain ⟨services, patterns, footpaths, served, compiled, connected, -⟩ := build_eq_ok.1 built
    exact ⟨Build.succeeds_services.1 ⟨_, served⟩, Build.succeeds_patterns.1 ⟨_, compiled⟩,
      Build.succeeds_footpaths.1 ⟨_, connected⟩⟩
  · rintro ⟨fitsCalendar, patterns, connections⟩
    obtain ⟨services, served⟩ := Build.succeeds_services.2 fitsCalendar
    obtain ⟨compiled, made⟩ := Build.succeeds_patterns.2 patterns
    obtain ⟨footpaths, connected⟩ := Build.succeeds_footpaths.2 connections
    exact ⟨_, build_eq_ok.2 ⟨services, compiled, footpaths, served, made, connected, rfl⟩⟩

end JourneyPlanner
