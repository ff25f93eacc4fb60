import JourneyPlanner.Layer.Build
import Mathlib.Data.List.Forall2

/-!
Where the trip patterns of a compiled layer come from. Each one belongs to a stopping pattern of the
network and to its route; its stops are those of the stopping pattern, and each of its schedules has
the times of a trip of the same kind of vehicle, which never go back.
-/

namespace JourneyPlanner

theorem bind_eq_ok {ε α β : Type} {x : Except ε α} {f : α → Except ε β} {b : β} :
    (x >>= f) = .ok b ↔ ∃ a, x = .ok a ∧ f a = .ok b := by
  cases x with
  | error e =>
      refine ⟨fun h => (by cases h), ?_⟩
      rintro ⟨_, h, -⟩
      cases h
  | ok a =>
      refine ⟨fun h => ⟨a, rfl, h⟩, ?_⟩
      rintro ⟨_, h, next⟩
      cases h
      exact next

theorem forall₂_of_mapM {ε α β : Type} {f : α → Except ε β} {l : List α} {results : List β}
    (h : l.mapM f = .ok results) : List.Forall₂ (fun a b => f a = .ok b) l results := by
  induction l generalizing results with
  | nil =>
      cases h
      exact .nil
  | cons a l ih =>
      rw [List.mapM_cons] at h
      obtain ⟨b, first, h⟩ := bind_eq_ok.1 h
      obtain ⟨rest, others, h⟩ := bind_eq_ok.1 h
      cases h
      exact .cons first (ih others)

theorem exists_of_mem_of_forall₂ {α β : Type} {R : α → β → Prop} {l : List α} {m : List β}
    (h : List.Forall₂ R l m) {b : β} (member : b ∈ m) : ∃ a ∈ l, R a b := by
  induction h with
  | nil => cases member
  | cons first _ ih =>
      rcases List.mem_cons.1 member with rfl | later
      · exact ⟨_, List.mem_cons_self, first⟩
      · obtain ⟨a, among, related⟩ := ih later
        exact ⟨a, List.mem_cons_of_mem _ among, related⟩

theorem exists_of_mem_mapM {ε α β : Type} {f : α → Except ε β} {l : List α} {results : List β}
    (h : l.mapM f = .ok results) {b : β} (member : b ∈ results) : ∃ a ∈ l, f a = .ok b :=
  exists_of_mem_of_forall₂ (forall₂_of_mapM h) member

theorem exists_mem_of_mapM {ε α β : Type} {f : α → Except ε β} {l : List α} {results : List β}
    (h : l.mapM f = .ok results) {a : α} (member : a ∈ l) : ∃ b ∈ results, f a = .ok b :=
  exists_of_mem_of_forall₂ (forall₂_of_mapM h).flip member

namespace Layer.Build

/-- Times that never go back: nobody leaves a position before arriving there, or arrives before
leaving an earlier one. -/
def InOrder (events : List StopEvent) : Prop :=
  (∀ event ∈ events, event.arrival.seconds ≤ event.departure.seconds) ∧
    events.Pairwise fun earlier later => earlier.departure.seconds ≤ later.arrival.seconds

theorem events_cons_eq_ok {position : Nat} {previous : Option ServiceTime} {time : StopTime}
    {rest : List StopTime} {result : List StopEvent}
    (h : events position previous (time :: rest) = .ok result) :
    ∃ event others, result = event :: others ∧
      events (position + 1) (some event.departure) rest = .ok others ∧
        event.arrival.seconds = time.arrival ∧ event.departure.seconds = time.departure ∧
          event.arrival.seconds ≤ event.departure.seconds ∧
            ∀ p ∈ previous, p.seconds ≤ event.arrival.seconds := by
  simp only [events] at h
  split at h
  · next arrival departure arrives departs =>
      split at h
      · cases h
      · next forward =>
          split at h
          · cases h
          · next after =>
              cases tail : events (position + 1) (some departure) rest with
              | error e =>
                  rw [tail] at h
                  cases h
              | ok others =>
                  rw [tail] at h
                  cases h
                  refine ⟨⟨arrival, departure⟩, others, rfl, tail, ?_, ?_, Nat.not_lt.1 forward, ?_⟩
                  · have := ServiceTime.seconds_of_ofSeconds? arrives
                    simp only
                    omega
                  · have := ServiceTime.seconds_of_ofSeconds? departs
                    simp only
                    omega
                  · rintro p rfl
                    exact Nat.not_lt.1 fun less => after (by simpa using less)
  · cases h

theorem events_spec {position : Nat} {previous : Option ServiceTime} {times : List StopTime}
    {result : List StopEvent} (h : events position previous times = .ok result) :
    List.Forall₂ (fun time event =>
        event.arrival.seconds = time.arrival ∧ event.departure.seconds = time.departure)
      times result ∧ InOrder result ∧
        ∀ p ∈ previous, ∀ event ∈ result, p.seconds ≤ event.arrival.seconds := by
  induction times generalizing position previous result with
  | nil =>
      cases h
      refine ⟨.nil, ⟨?_, .nil⟩, ?_⟩
      · intro event none
        cases none
      · intro p _ event none
        cases none
  | cons time rest ih =>
      obtain ⟨event, others, rfl, tail, arrival, departure, forward, reached⟩ := events_cons_eq_ok h
      obtain ⟨times, ⟨stays, ordered⟩, later⟩ := ih tail
      have beyond := later event.departure rfl
      refine ⟨.cons ⟨arrival, departure⟩ times, ⟨?_, List.pairwise_cons.2 ⟨beyond, ordered⟩⟩, ?_⟩
      · intro other member
        rcases List.mem_cons.1 member with rfl | among
        · exact forward
        · exact stays other among
      · intro p given other member
        have start := reached p given
        rcases List.mem_cons.1 member with rfl | among
        · exact start
        · exact Nat.le_trans start (Nat.le_trans forward (beyond other among))

theorem schedule_spec {network : Network} {nbOfPositions : Nat} {trip : Trip} {result : Schedule}
    (h : schedule network nbOfPositions trip = .ok result) :
    result.tripId = trip.id ∧
      network.services.findIdx? (·.id == trip.serviceId) = some result.service ∧
      result.events.size = nbOfPositions ∧
      List.Forall₂ (fun time event =>
          event.arrival.seconds = time.arrival ∧ event.departure.seconds = time.departure)
        trip.stopTimes result.events.toList ∧ InOrder result.events.toList := by
  simp only [schedule] at h
  split at h
  · cases h
  · next sameLength =>
      split at h
      · cases h
      · next service known =>
          split at h
          · cases h
          · next accepted =>
              cases h
              obtain ⟨times, ordered, -⟩ := events_spec accepted
              have length := times.length_eq
              refine ⟨rfl, known, ?_, times, ordered⟩
              rw [List.size_toArray]
              omega

theorem schedule_at {network : Network} {nbOfPositions : Nat} {trip : Trip} {made : Schedule}
    (h : schedule network nbOfPositions trip = .ok made) {position : Nat}
    (inside : position < nbOfPositions) :
    ∃ time, trip.stopTimes[position]? = some time ∧
      (made.arrival position).seconds = time.arrival ∧
        (made.departure position).seconds = time.departure := by
  obtain ⟨-, -, size, times, -⟩ := schedule_spec h
  have inEvents : position < made.events.size := by omega
  have inTimes : position < trip.stopTimes.length := by
    rw [times.length_eq]
    exact inEvents
  refine ⟨trip.stopTimes[position], List.getElem?_eq_getElem inTimes, ?_⟩
  have event := times.get inTimes (by simpa using inEvents)
  simpa [Schedule.arrival, Schedule.departure, inEvents] using event

/-- A trip pattern that holds the trips of one kind of vehicle of a stopping pattern. -/
structure IsPartOf (network : Network) (source : StopPattern) (route : Route) (p : TripPattern) :
    Prop where
  routeId : p.routeId = route.id
  routeName : p.routeName = route.name
  stops : List.Forall₂ (fun id stop => network.stops.findIdx? (·.id == id) = some stop)
    source.stopIds p.stops.toList
  schedules : ∀ s ∈ p.schedules, ∃ trip ∈ source.trips,
    schedule network p.nbOfPositions trip = .ok s ∧
      VehicleKind.ofTrip route trip = ⟨p.mode, p.submode⟩

theorem stopIndex_eq_ok {network : Network} {referencedBy stopId : String} {stop : StopIndex}
    (h : stopIndex network referencedBy stopId = .ok stop) :
    network.stops.findIdx? (·.id == stopId) = some stop := by
  simp only [stopIndex] at h
  split at h
  · next known =>
      cases h
      exact known
  · cases h

theorem split_spec {network : Network} {source : StopPattern} {route : Route}
    {stops : List StopIndex} {schedules : List (VehicleKind × Schedule)}
    (known : List.Forall₂ (fun id stop => network.stops.findIdx? (·.id == id) = some stop)
      source.stopIds stops)
    (made : ∀ entry ∈ schedules, ∃ trip ∈ source.trips,
      schedule network stops.length trip = .ok entry.2 ∧ VehicleKind.ofTrip route trip = entry.1) :
    ∀ p ∈ split source route stops schedules, IsPartOf network source route p := by
  intro p member
  obtain ⟨kind, -, rfl⟩ := List.mem_map.1 member
  refine ⟨rfl, rfl, known, fun s among => ?_⟩
  have own : s ∈ (schedules.filter (·.1 = kind)).map (·.2) := by
    simpa using among
  obtain ⟨entry, filtered, rfl⟩ := List.mem_map.1 own
  obtain ⟨inAll, sameKind⟩ := List.mem_filter.1 filtered
  obtain ⟨trip, ofSource, compiled, kindEq⟩ := made entry inAll
  refine ⟨trip, ofSource, ?_, ?_⟩
  · simpa [TripPattern.nbOfPositions] using compiled
  · rw [kindEq, of_decide_eq_true sameKind]

theorem kinds_of_one {kind : VehicleKind} {schedules : List Schedule} (some : schedules ≠ []) :
    kinds (schedules.map fun schedule => (kind, schedule)) = [kind] := by
  cases schedules with
  | nil => exact absurd rfl some
  | cons first rest =>
      have same : ((rest.map fun _ => kind).filter fun other => !other == kind) = [] :=
        List.filter_eq_nil_iff.2 (by simp)
      simp only [kinds, List.map_map, Function.comp_def, List.map_cons, List.eraseDups_cons, same,
        List.eraseDups_nil, List.mergeSort_singleton]

theorem split_of_sorted {source : StopPattern} {route : Route} {stops : List StopIndex}
    {kind : VehicleKind} {schedules : List Schedule} (some : schedules ≠ [])
    (sorted : schedules.Pairwise fun a b => scheduleLe a b = true) :
    split source route stops (schedules.map fun schedule => (kind, schedule)) =
      [{ id := source.id
         sourceId := source.id
         routeId := route.id
         routeName := route.name
         mode := kind.mode
         submode := kind.submode
         stops := stops.toArray
         schedules := schedules.toArray
         fifo := isFifo stops.length schedules }] := by
  have own : ((schedules.map fun schedule => (kind, schedule)).filter (·.1 = kind)).map (·.2) =
      schedules := by
    simp [List.filter_map, Function.comp_def]
  rw [split, kinds_of_one some, List.map_singleton, own, List.mergeSort_of_pairwise sorted]
  rfl

theorem pattern_spec {network : Network} {source : StopPattern} {result : List TripPattern}
    (h : pattern network source = .ok result) :
    ∃ route, network.routes.find? (·.id == source.routeId) = some route ∧
      ∀ p ∈ result, IsPartOf network source route p := by
  simp only [pattern] at h
  split at h
  · cases h
  · next route known =>
      split at h
      · cases h
      · obtain ⟨stops, found, h⟩ := bind_eq_ok.1 h
        obtain ⟨schedules, made, h⟩ := bind_eq_ok.1 h
        cases h
        refine ⟨route, known, split_spec ?_ fun entry member => ?_⟩
        · exact (forall₂_of_mapM found).imp fun _ _ => stopIndex_eq_ok
        · obtain ⟨trip, among, compiled⟩ := exists_of_mem_mapM made member
          obtain ⟨schedule, ok, compiled⟩ := bind_eq_ok.1 compiled
          cases compiled
          exact ⟨trip, among, ok, rfl⟩

theorem patterns_eq_ok {network : Network} {result : List TripPattern} :
    patterns network = .ok result ↔
      ∃ parts, network.patterns.toList.mapM (pattern network) = .ok parts ∧
        result = parts.flatten := by
  rw [patterns, bind_eq_ok]
  refine exists_congr fun parts => and_congr_right fun _ => ?_
  exact ⟨fun h => (Except.ok.inj h).symm, fun h => congrArg Except.ok h.symm⟩

theorem patterns_spec {network : Network} {result : List TripPattern}
    (h : patterns network = .ok result) {p : TripPattern} (member : p ∈ result) :
    ∃ source ∈ network.patterns, ∃ route,
      network.routes.find? (·.id == source.routeId) = some route ∧
        IsPartOf network source route p := by
  obtain ⟨parts, compiled, rfl⟩ := patterns_eq_ok.1 h
  obtain ⟨part, among, inside⟩ := List.mem_flatten.1 member
  obtain ⟨source, ofNetwork, made⟩ := exists_of_mem_mapM compiled among
  obtain ⟨route, known, spec⟩ := pattern_spec made
  exact ⟨source, by simpa using ofNetwork, route, known, spec p inside⟩

theorem IsPartOf.stopAt_lt {network : Network} {source : StopPattern} {route : Route}
    {p : TripPattern} (h : IsPartOf network source route p) {position : Nat}
    (inside : position < p.nbOfPositions) : p.stopAt position < network.stops.size := by
  have member : p.stopAt position ∈ p.stops.toList := by
    have inStops : position < p.stops.size := inside
    simp [TripPattern.stopAt, inStops]
  obtain ⟨id, -, found⟩ := exists_of_mem_of_forall₂ h.stops member
  exact (Array.findIdx?_eq_some_iff_getElem.1 found).1

theorem IsPartOf.departure_le_arrival {network : Network} {source : StopPattern} {route : Route}
    {p : TripPattern} (h : IsPartOf network source route p) {s : Schedule} (member : s ∈ p.schedules)
    {earlier later : Nat} (less : earlier < later) (inside : later < p.nbOfPositions) :
    (s.departure earlier).seconds ≤ (s.arrival later).seconds := by
  obtain ⟨trip, -, compiled, -⟩ := h.schedules s member
  obtain ⟨-, -, size, -, -, ordered⟩ := schedule_spec compiled
  have laterIn : later < s.events.size := by omega
  have earlierIn : earlier < s.events.size := by omega
  have pair := List.pairwise_iff_getElem.1 ordered earlier later (by simpa using earlierIn)
    (by simpa using laterIn) less
  simpa [Schedule.departure, Schedule.arrival, earlierIn, laterIn] using pair

end Layer.Build

theorem Layer.build_eq_ok {network : Network} {layer : Layer} :
    Layer.build network = .ok layer ↔ ∃ services patterns footpaths,
      Build.services network.services.toList = .ok services ∧
      Build.patterns network = .ok patterns ∧ Build.footpaths network = .ok footpaths ∧
      layer = {
        stops := network.stops
        patterns := patterns.toArray
        footpaths := footpaths
        serviceIds := network.services.map Service.id
        serviceDays := services.serviceDays
        daySets := services.daySets
        calendar := services.calendar
        running := (((services.calendar.map Calendar.days).getD []).map
          (Build.runningOnDay patterns services)).toArray } := by
  constructor
  · intro built
    obtain ⟨services, served, built⟩ := bind_eq_ok.1 built
    obtain ⟨patterns, compiled, built⟩ := bind_eq_ok.1 built
    obtain ⟨footpaths, connected, built⟩ := bind_eq_ok.1 built
    exact ⟨services, patterns, footpaths, served, compiled, connected, (Except.ok.inj built).symm⟩
  · rintro ⟨services, patterns, footpaths, served, compiled, connected, rfl⟩
    exact bind_eq_ok.2 ⟨services, served, bind_eq_ok.2 ⟨patterns, compiled,
      bind_eq_ok.2 ⟨footpaths, connected, rfl⟩⟩⟩

end JourneyPlanner
