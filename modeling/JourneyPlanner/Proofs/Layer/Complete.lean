import JourneyPlanner.Proofs.Layer.Consistent
import JourneyPlanner.Proofs.Layer.Refused
import Mathlib

/-!
No trip is lost and none is made up when a network is compiled. The schedules of a layer are those
of the trips of the network, one for each, and the trip pattern of a schedule is the only one of its
stopping pattern with the kind of vehicle of the trip. The schedules of a trip pattern are in order;
each is compared with the next one only, which is enough to know that no trip overtakes any other.
-/

namespace JourneyPlanner

namespace Schedule

/-- A schedule has the identifier, the service and the times of a trip. -/
structure IsOf (s : Schedule) (layer : Layer) (trip : Trip) : Prop where
  tripId : s.tripId = trip.id
  service : layer.serviceIndex? trip.serviceId = some s.service
  times : List.Forall₂ (fun time event =>
      event.arrival.seconds = time.arrival ∧ event.departure.seconds = time.departure)
    trip.stopTimes s.events.toList

/-- The order in which schedules are listed. -/
def IsListedBefore (s t : Schedule) : Prop :=
  (s.departure 0).seconds < (t.departure 0).seconds ∨
    (s.departure 0).seconds = (t.departure 0).seconds ∧ s.tripId ≤ t.tripId

/-- One schedule is at or before another one at each of some positions. -/
def StaysAhead (nbOfPositions : Nat) (s t : Schedule) : Prop :=
  ∀ position < nbOfPositions, (s.arrival position).seconds ≤ (t.arrival position).seconds ∧
    (s.departure position).seconds ≤ (t.departure position).seconds

end Schedule

namespace TripPattern

/-- A trip pattern is called after a stopping pattern, belongs to its route and serves its stops. -/
structure IsOf (p : TripPattern) (layer : Layer) (source : StopPattern) (route : Route) : Prop where
  sourceId : p.sourceId = source.id
  routeId : p.routeId = route.id
  routeName : p.routeName = route.name
  stops : List.Forall₂ (fun id stop => layer.stopIndex? id = some stop) source.stopIds p.stops.toList

/-- What a search relies on in the schedules of a trip pattern. -/
structure IsOrdered (p : TripPattern) : Prop where
  nonempty : 0 < p.schedules.size
  long : 2 ≤ p.nbOfPositions
  complete : ∀ s ∈ p.schedules, s.events.size = p.nbOfPositions
  inDay : ∀ s ∈ p.schedules, ∀ event ∈ s.events,
    event.arrival.seconds ≤ maxServiceSeconds ∧ event.departure.seconds ≤ maxServiceSeconds
  stays : ∀ s ∈ p.schedules, ∀ event ∈ s.events, event.arrival.seconds ≤ event.departure.seconds
  forward : ∀ s ∈ p.schedules, s.events.toList.IsChain fun event next =>
    event.departure.seconds ≤ next.arrival.seconds
  sorted : p.schedules.toList.Pairwise Schedule.IsListedBefore
  fifo : p.fifo = true ↔ p.schedules.toList.Pairwise (Schedule.StaysAhead p.nbOfPositions)

/-- What tells a trip pattern from the others of a layer. -/
def key (p : TripPattern) : String × Mode × Option String :=
  (p.sourceId, p.mode, p.submode)

/-- The trip pattern with each of its schedules. -/
def entries (p : TripPattern) : List (TripPattern × Schedule) :=
  p.schedules.toList.map fun s => (p, s)

end TripPattern

/-- The stopping pattern with each of its trips. -/
def StopPattern.entries (p : StopPattern) : List (StopPattern × Trip) :=
  p.trips.map fun trip => (p, trip)

/-- A schedule of a trip pattern is that of a trip of a stopping pattern, with the vehicle that the
trip, or else its route, tells. -/
def Layer.Represents (layer : Layer) (network : Network) (made : TripPattern × Schedule)
    (origin : StopPattern × Trip) : Prop :=
  ∃ route, network.routes.find? (·.id == origin.1.routeId) = some route ∧
    made.1.IsOf layer origin.1 route ∧ made.2.IsOf layer origin.2 ∧
      made.1.mode = origin.2.mode.getD route.mode ∧
        made.1.submode = origin.2.submode.or route.submode

theorem exists_perm_flatMap {α β γ δ : Type} {R : γ → δ → Prop} {f : β → List γ} {g : α → List δ}
    {l : List α} {m : List β} (h : List.Forall₂ (fun a b => ∃ ys, List.Forall₂ R (f b) ys ∧
      ys.Perm (g a)) l m) :
    ∃ ys, List.Forall₂ R (m.flatMap f) ys ∧ ys.Perm (l.flatMap g) := by
  induction h with
  | nil => exact ⟨[], .nil, .refl _⟩
  | cons first _ ih =>
      obtain ⟨xs, related, same⟩ := first
      obtain ⟨ys, relatedToo, sameToo⟩ := ih
      simp only [List.flatMap_cons]
      exact ⟨xs ++ ys, List.rel_append related relatedToo, same.append sameToo⟩

theorem all_zip_tail_iff {α : Type} {r : α → α → Bool} (l : List α) :
    (l.zip l.tail).all (fun (a, b) => r a b) = true ↔ l.IsChain fun a b => r a b = true := by
  induction l with
  | nil => simp
  | cons a rest ih =>
      cases rest with
      | nil => simp
      | cons b rest => simpa [List.isChain_cons_cons] using fun _ => ih

namespace Layer.Build

variable {network : Network} {source : StopPattern} {route : Route} {stops : List StopIndex}
  {schedules : List (VehicleKind × Schedule)} {kind : VehicleKind}

theorem scheduleLe_iff (s t : Schedule) : scheduleLe s t = true ↔ Schedule.IsListedBefore s t := by
  simp only [scheduleLe, Schedule.IsListedBefore, Bool.or_eq_true, Bool.and_eq_true,
    decide_eq_true_eq, beq_iff_eq, Bool.not_eq_true', decide_eq_false_iff_not, String.not_lt]

theorem scheduleLe_trans (s t u : Schedule) (first : scheduleLe s t = true)
    (second : scheduleLe t u = true) : scheduleLe s u = true := by
  rw [scheduleLe_iff] at *
  rcases first with less | ⟨same, le⟩
  · rcases second with lessToo | ⟨sameToo, -⟩
    · exact .inl (Nat.lt_trans less lessToo)
    · exact .inl (sameToo ▸ less)
  · rcases second with less | ⟨sameToo, leToo⟩
    · exact .inl (same ▸ less)
    · exact .inr ⟨same.trans sameToo, String.le_trans le leToo⟩

theorem scheduleLe_total (s t : Schedule) : (scheduleLe s t || scheduleLe t s) = true := by
  rw [Bool.or_eq_true, scheduleLe_iff, scheduleLe_iff]
  rcases Nat.lt_trichotomy (s.departure 0).seconds (t.departure 0).seconds with less | same | more
  · exact .inl (.inl less)
  · rcases String.le_total s.tripId t.tripId with le | le
    · exact .inl (.inr ⟨same, le⟩)
    · exact .inr (.inr ⟨same.symm, le⟩)
  · exact .inr (.inl more)

theorem pairwise_ownSchedules (schedules : List (VehicleKind × Schedule)) (kind : VehicleKind) :
    (ownSchedules schedules kind).Pairwise Schedule.IsListedBefore :=
  (List.pairwise_mergeSort scheduleLe_trans scheduleLe_total _).imp fun le =>
    (scheduleLe_iff _ _).1 le

theorem precedes_iff (nbOfPositions : Nat) (s t : Schedule) :
    precedes nbOfPositions s t = true ↔ Schedule.StaysAhead nbOfPositions s t := by
  simp only [precedes, Schedule.StaysAhead, List.all_eq_true, List.mem_range,
    Bool.and_eq_true, decide_eq_true_eq, and_comm]

theorem isFifo_iff (nbOfPositions : Nat) (schedules : List Schedule) :
    isFifo nbOfPositions schedules = true ↔
      schedules.Pairwise (Schedule.StaysAhead nbOfPositions) := by
  have trans {s t u : Schedule} (first : Schedule.StaysAhead nbOfPositions s t)
      (second : Schedule.StaysAhead nbOfPositions t u) :
      Schedule.StaysAhead nbOfPositions s u := fun position inside =>
    ⟨Nat.le_trans (first position inside).1 (second position inside).1,
      Nat.le_trans (first position inside).2 (second position inside).2⟩
  have : Trans (Schedule.StaysAhead nbOfPositions)
      (Schedule.StaysAhead nbOfPositions) (Schedule.StaysAhead nbOfPositions) :=
    ⟨trans⟩
  rw [isFifo, all_zip_tail_iff, ← List.isChain_iff_pairwise]
  simp only [precedes_iff]

theorem nodup_kinds (schedules : List (VehicleKind × Schedule)) : (kinds schedules).Nodup :=
  (List.mergeSort_perm _ _).nodup_iff.2 (nodup_eraseDups _)

theorem exists_perm_ownSchedules {make : Trip → Except BuildError Schedule}
    (made : List.Forall₂ (fun trip entry => make trip = .ok entry.2 ∧
      VehicleKind.ofTrip route trip = entry.1) source.trips schedules) (kind : VehicleKind) :
    ∃ trips, List.Forall₂ (fun s trip => make trip = .ok s ∧ VehicleKind.ofTrip route trip = kind)
        (ownSchedules schedules kind) trips ∧
      trips.Perm (source.trips.filter fun trip => VehicleKind.ofTrip route trip = kind) := by
  let own := source.trips.filter fun trip => VehicleKind.ofTrip route trip = kind
  have chosen : List.Forall₂ (fun trip entry => make trip = .ok entry.2 ∧
      VehicleKind.ofTrip route trip = entry.1) own (schedules.filter (·.1 = kind)) := by
    refine List.rel_filter (fun trip entry h => ?_) made
    simp only [h.2]
  have ofKind : ∀ trip ∈ own, VehicleKind.ofTrip route trip = kind := fun trip member =>
    of_decide_eq_true (List.mem_filter.1 member).2
  have listed : List.Forall₂ (fun s trip => make trip = .ok s ∧ VehicleKind.ofTrip route trip = kind)
      ((schedules.filter (·.1 = kind)).map (·.2)) own := by
    refine List.forall₂_map_left_iff.2 (List.Forall₂.flip ?_)
    exact ((List.forall₂_and_left _ _).2 ⟨ofKind, chosen⟩).imp fun _ _ h => ⟨h.2.1, h.1⟩
  exact List.perm_comp_forall₂ (List.mergeSort_perm _ _) listed

theorem isOf_of_schedule {layer : Layer} (ids : layer.serviceIds = network.services.map Service.id)
    {nbOfPositions : Nat} {trip : Trip} {s : Schedule}
    (made : schedule network nbOfPositions trip = .ok s) : s.IsOf layer trip := by
  obtain ⟨tripId, service, -, times, -⟩ := schedule_spec made
  refine ⟨tripId, ?_, times⟩
  rw [Layer.serviceIndex?, ids, Array.findIdx?_map]
  exact service

theorem isOf_part {layer : Layer} (stopsEq : layer.stops = network.stops) {referencedBy : String}
    (known : source.stopIds.mapM (stopIndex network referencedBy) = .ok stops) (id : String)
    (kind : VehicleKind) :
    (part source route stops schedules id kind).IsOf layer source route := by
  refine ⟨rfl, rfl, rfl, ?_⟩
  simp only [Layer.stopIndex?, stopsEq]
  exact (forall₂_of_mapM known).imp fun _ _ => stopIndex_eq_ok

theorem exists_perm_pattern {layer : Layer} (stopsEq : layer.stops = network.stops)
    (ids : layer.serviceIds = network.services.map Service.id) {parts : List TripPattern}
    (accepted : pattern network source = .ok parts) :
    ∃ entries, List.Forall₂ (layer.Represents network) (parts.flatMap TripPattern.entries) entries ∧
      entries.Perm source.entries := by
  obtain ⟨route, stops, schedules, found, known, made, rfl⟩ := pattern_eq_ok accepted
  have made : List.Forall₂ (fun trip entry => schedule network stops.length trip = .ok entry.2 ∧
      VehicleKind.ofTrip route trip = entry.1) source.trips schedules := by
    refine (forall₂_of_mapM made).imp fun trip entry h => ?_
    obtain ⟨s, ok, h⟩ := bind_eq_ok.1 h
    cases h
    exact ⟨ok, rfl⟩
  have each (id : String) (kind : VehicleKind) : ∃ entries,
      List.Forall₂ (layer.Represents network)
        (part source route stops schedules id kind).entries entries ∧
      entries.Perm (source.entries.filter fun entry => VehicleKind.ofTrip route entry.2 = kind) := by
    obtain ⟨trips, related, same⟩ := exists_perm_ownSchedules made kind
    refine ⟨trips.map fun trip => (source, trip), ?_, ?_⟩
    · refine List.forall₂_map_left_iff.2 (List.forall₂_map_right_iff.2 (related.imp ?_))
      rintro s trip ⟨ok, rfl⟩
      exact ⟨route, found, isOf_part stopsEq known id _, isOf_of_schedule ids ok, rfl, rfl⟩
    · rw [StopPattern.entries, List.filter_map]
      exact same.map _
  obtain ⟨entries, related, same⟩ := exists_perm_flatMap (f := TripPattern.entries)
    (List.forall₂_map_right_iff.2 (List.forall₂_same.2 fun kind (_ : kind ∈ kinds schedules) =>
      each (if (kinds schedules).length = 1 then source.id else source.id ++ kind.suffix) kind))
  refine ⟨entries, related, same.trans ?_⟩
  have all : (source.entries.filter fun entry =>
      VehicleKind.ofTrip route entry.2 ∈ kinds schedules) = source.entries := by
    refine List.filter_eq_self.2 fun entry member => decide_eq_true ?_
    obtain ⟨trip, inSource, rfl⟩ := List.mem_map.1 member
    obtain ⟨entry, listed, -, ofKind⟩ := exists_of_mem_of_forall₂ made.flip inSource
    exact mem_kinds.2 ⟨entry, listed, ofKind.symm⟩
  rw [← all]
  simpa only [all] using flatMap_filter_perm (fun entry : StopPattern × Trip =>
    VehicleKind.ofTrip route entry.2) source.entries (nodup_kinds schedules)

theorem isOrdered_of_mem {parts : List TripPattern} (accepted : pattern network source = .ok parts)
    {p : TripPattern} (member : p ∈ parts) : p.IsOrdered := by
  have long := (succeeds_pattern.1 ⟨parts, accepted⟩).long
  obtain ⟨route, stops, schedules, found, known, made, rfl⟩ := pattern_eq_ok accepted
  obtain ⟨kind, isKind, rfl⟩ := List.mem_map.1 member
  have sameLength : source.stopIds.length = stops.length := (forall₂_of_mapM known).length_eq
  have isMade : ∀ s ∈ ownSchedules schedules kind, s.events.size = stops.length ∧
      InOrder s.events.toList := by
    intro s member
    obtain ⟨trip, -, ok⟩ := exists_of_mem_mapM made (mem_ownSchedules.1 member)
    obtain ⟨other, ok, same⟩ := bind_eq_ok.1 ok
    cases same
    obtain ⟨-, -, size, -, ordered⟩ := schedule_spec ok
    exact ⟨size, ordered⟩
  have own {s : Schedule} (member : s ∈ (ownSchedules schedules kind).toArray) :
      s ∈ ownSchedules schedules kind := List.mem_toArray.1 member
  refine ⟨?_, ?_, fun s member => (isMade s (own member)).1, ?_, fun s member event among => ?_,
    fun s member => ?_, pairwise_ownSchedules schedules kind, isFifo_iff _ _⟩
  · obtain ⟨⟨_, s⟩, listed, rfl⟩ := mem_kinds.1 isKind
    exact List.length_pos_of_mem (mem_ownSchedules.2 listed)
  · rw [sameLength] at long
    exact long
  · exact fun _ _ event _ => ⟨event.arrival.seconds_le, event.departure.seconds_le⟩
  · exact (isMade s (own member)).2.1 event (Array.mem_toList_iff.2 among)
  · exact (isMade s (own member)).2.2.isChain

theorem exists_isOf_of_mem {layer : Layer} (stopsEq : layer.stops = network.stops)
    {parts : List TripPattern} (accepted : pattern network source = .ok parts) {p : TripPattern}
    (member : p ∈ parts) : ∃ route, network.routes.find? (·.id == source.routeId) = some route ∧
      p.IsOf layer source route := by
  obtain ⟨route, stops, schedules, found, known, -, rfl⟩ := pattern_eq_ok accepted
  obtain ⟨kind, -, rfl⟩ := List.mem_map.1 member
  exact ⟨route, found, isOf_part stopsEq known _ kind⟩

theorem sourceId_of_mem {parts : List TripPattern} (accepted : pattern network source = .ok parts)
    {p : TripPattern} (member : p ∈ parts) : p.sourceId = source.id := by
  obtain ⟨route, stops, schedules, -, -, -, rfl⟩ := pattern_eq_ok accepted
  obtain ⟨kind, -, rfl⟩ := List.mem_map.1 member
  rfl

theorem nodup_keys_pattern {parts : List TripPattern} (accepted : pattern network source = .ok parts) :
    (parts.map TripPattern.key).Nodup := by
  obtain ⟨route, stops, schedules, -, -, -, rfl⟩ := pattern_eq_ok accepted
  have keys : (split source route stops schedules).map TripPattern.key =
      (kinds schedules).map fun kind => (source.id, kind.mode, kind.submode) := by
    rw [split_eq, List.map_map]
    rfl
  rw [keys]
  refine (nodup_kinds schedules).map fun kind other same => ?_
  cases kind
  cases other
  simpa using same

theorem nodup_keys {sources : List StopPattern} {parts : List (List TripPattern)}
    (accepted : List.Forall₂ (fun source part => pattern network source = .ok part) sources parts)
    (distinct : (sources.map StopPattern.id).Nodup) : (parts.flatten.map TripPattern.key).Nodup := by
  induction accepted with
  | nil => exact List.nodup_nil
  | cons first others ih =>
      obtain ⟨new, distinct⟩ := List.nodup_cons.1 distinct
      rw [List.flatten_cons, List.map_append, List.nodup_append]
      refine ⟨nodup_keys_pattern first, ih distinct, ?_⟩
      rintro _ member _ later rfl
      obtain ⟨p, inFirst, ofFirst⟩ := List.mem_map.1 member
      obtain ⟨q, inOthers, ofOther⟩ := List.mem_map.1 later
      obtain ⟨part, among, inPart⟩ := List.mem_flatten.1 inOthers
      obtain ⟨other, listed, made⟩ := exists_of_mem_of_forall₂ others among
      have sameId : p.sourceId = q.sourceId := congrArg Prod.fst (ofFirst.trans ofOther.symm)
      rw [sourceId_of_mem first inFirst, sourceId_of_mem made inPart] at sameId
      exact new (List.mem_map.2 ⟨other, listed, sameId.symm⟩)

end Layer.Build

open Layer.Build

theorem Layer.exists_parts {network : Network} {layer : Layer}
    (built : Layer.build network = .ok layer) :
    layer.stops = network.stops ∧ layer.serviceIds = network.services.map Service.id ∧
      ∃ parts, List.Forall₂ (fun source part => Build.pattern network source = .ok part)
        network.patterns.toList parts ∧ layer.patterns.toList = parts.flatten := by
  obtain ⟨services, patterns, footpaths, -, compiled, -, rfl⟩ := build_eq_ok.1 built
  obtain ⟨parts, each, rfl⟩ := Build.patterns_eq_ok.1 compiled
  exact ⟨rfl, rfl, parts, forall₂_of_mapM each, rfl⟩

/-- The schedules of a layer are those of the trips of a network, one for each. The schedule of a
trip is in the only trip pattern that is called after the stopping pattern of the trip and has its
kind of vehicle. Each trip pattern has the stops and the route of its stopping pattern. -/
structure Layer.IsComplete (layer : Layer) (network : Network) : Prop where
  trips : ∃ entries,
    List.Forall₂ (layer.Represents network) (layer.patterns.toList.flatMap TripPattern.entries)
      entries ∧
    entries.Perm (network.patterns.toList.flatMap StopPattern.entries)
  distinct : (layer.patterns.toList.map TripPattern.key).Nodup
  sources : ∀ p ∈ layer.patterns, ∃ source ∈ network.patterns, ∃ route,
    network.routes.find? (·.id == source.routeId) = some route ∧ p.IsOf layer source route
  ordered : ∀ p ∈ layer.patterns, p.IsOrdered

theorem Layer.exists_source_of_mem {network : Network} {layer : Layer}
    (built : Layer.build network = .ok layer) {p : TripPattern} (member : p ∈ layer.patterns) :
    ∃ source ∈ network.patterns, ∃ part, Build.pattern network source = .ok part ∧ p ∈ part := by
  obtain ⟨-, -, parts, accepted, listed⟩ := Layer.exists_parts built
  rw [← Array.mem_toList_iff, listed] at member
  obtain ⟨part, among, inPart⟩ := List.mem_flatten.1 member
  obtain ⟨source, inNetwork, ok⟩ := exists_of_mem_of_forall₂ accepted among
  exact ⟨source, Array.mem_toList_iff.1 inNetwork, part, ok, inPart⟩

theorem Layer.isOrdered_of_mem {network : Network} {layer : Layer}
    (built : Layer.build network = .ok layer) {p : TripPattern} (member : p ∈ layer.patterns) :
    p.IsOrdered := by
  obtain ⟨source, -, part, ok, inPart⟩ := Layer.exists_source_of_mem built member
  exact Build.isOrdered_of_mem ok inPart

/-- Compiling a network keeps every trip. -/
theorem Layer.isComplete_build {network : Network} {layer : Layer} (unique : network.HasUniqueIds)
    (built : Layer.build network = .ok layer) : layer.IsComplete network := by
  obtain ⟨stopsEq, ids, parts, accepted, listed⟩ := Layer.exists_parts built
  refine ⟨?_, ?_, fun p member => ?_, fun p => Layer.isOrdered_of_mem built⟩
  · rw [listed, ← List.flatMap_id, List.flatMap_assoc]
    exact exists_perm_flatMap (accepted.imp fun source part ok => exists_perm_pattern stopsEq ids ok)
  · rw [listed]
    exact nodup_keys accepted unique.2.2.2
  · obtain ⟨source, inNetwork, part, ok, inPart⟩ := Layer.exists_source_of_mem built member
    exact ⟨source, inNetwork, exists_isOf_of_mem stopsEq ok inPart⟩

/-- A stopping pattern with trips by bus and by tram, the later one listed first. -/
def Network.twoKinds : Network where
  stops := #[⟨"a", "A", ⟨0, 0⟩⟩, ⟨"b", "B", ⟨0, 0⟩⟩]
  routes := #[⟨"r", "R", .bus, none⟩]
  services := #[⟨"s", [⟨100⟩]⟩]
  patterns := #[⟨"p", "r", ["a", "b"],
    [⟨"t", "s", none, none, [⟨60, 60⟩, ⟨90, 90⟩]⟩, ⟨"u", "s", some .tram, none, [⟨70, 70⟩, ⟨95, 95⟩]⟩,
      ⟨"v", "s", none, none, [⟨20, 20⟩, ⟨50, 50⟩]⟩]⟩]

theorem Layer.isComplete_build_twoKinds : ∃ layer, Network.twoKinds.HasUniqueIds ∧
    Layer.build .twoKinds = .ok layer ∧ layer.patterns.size = 2 ∧ layer.IsComplete .twoKinds := by
  have found : (Layer.build .twoKinds).toOption.any (fun layer => layer.patterns.size == 2) = true := by
    cbv
  obtain ⟨layer, built, size⟩ := exists_ok_of_any found
  have unique : Network.twoKinds.HasUniqueIds := by
    simp [Network.HasUniqueIds, Network.twoKinds]
  exact ⟨layer, unique, built, eq_of_beq size, Layer.isComplete_build unique built⟩

end JourneyPlanner
