import JourneyPlanner.Proofs.Filtering
import JourneyPlanner.Proofs.Layer.Split
import Mathlib.Data.String.Basic

/-!
Two networks that differ in trips which the filters of a search refuse. A kind of vehicle is refused
as a whole, so the refused trips change which trip patterns there are besides the accepted ones, and
the names and the numbers of those, but nothing of what the accepted ones are nor their order.
-/

namespace JourneyPlanner

namespace Network

/-- The trips of a stopping pattern that filters accept. -/
def acceptedTrips (n : Network) (filters : PatternFilters) (p : StopPattern) : List Trip :=
  p.trips.filter fun trip =>
    (n.routes.find? (·.id == p.routeId)).any fun route => filters.acceptsTrip route trip

/-- The networks have the same stops, routes, services, connections and stopping patterns, and these
have the same trips in the same order, those aside that filters refuse. -/
structure DiffersByRefused (n m : Network) (filters : PatternFilters) : Prop where
  parts : m = { n with patterns := m.patterns }
  patterns : List.Forall₂ (fun p q => q = { p with trips := q.trips } ∧
    n.acceptedTrips filters q = n.acceptedTrips filters p) n.patterns.toList m.patterns.toList

end Network

namespace Layer

namespace Build

namespace VehicleKind

/-- One submode is at or before another one; a missing one comes first. -/
def submodeLe (s t : Option String) : Prop :=
  ∀ x ∈ s, ∃ y ∈ t, x ≤ y

theorem le_iff (a b : VehicleKind) : a.le b = true ↔
    a.mode.rank < b.mode.rank ∨ a.mode = b.mode ∧ submodeLe a.submode b.submode := by
  obtain ⟨mode, submode⟩ := a
  obtain ⟨other, otherSubmode⟩ := b
  simp only [le]
  split
  · next same =>
      subst same
      cases submode with
      | none => simp [submodeLe]
      | some s =>
          cases otherSubmode with
          | none => simp [submodeLe]
          | some t =>
              have le : (!decide (t < s)) = true ↔ s ≤ t := by
                rw [Bool.not_eq_true', decide_eq_false_iff_not, String.not_lt]
              rw [le]
              simp [submodeLe]
  · next differs => simp [differs]

theorem le_trans (a b c : VehicleKind) (first : a.le b = true) (second : b.le c = true) :
    a.le c = true := by
  rw [le_iff] at *
  rcases first with less | ⟨same, before⟩
  · rcases second with lessToo | ⟨sameToo, -⟩
    · exact .inl (Nat.lt_trans less lessToo)
    · exact .inl (sameToo ▸ less)
  · rcases second with less | ⟨sameToo, beforeToo⟩
    · exact .inl (same ▸ less)
    · refine .inr ⟨same.trans sameToo, fun x member => ?_⟩
      obtain ⟨y, among, le⟩ := before x member
      obtain ⟨z, amongToo, leToo⟩ := beforeToo y among
      exact ⟨z, amongToo, String.le_trans le leToo⟩

theorem le_total (a b : VehicleKind) : (a.le b || b.le a) = true := by
  rw [Bool.or_eq_true, le_iff, le_iff]
  rcases Nat.lt_trichotomy a.mode.rank b.mode.rank with less | same | more
  · exact .inl (.inl less)
  · have same := Mode.rank_inj same
    cases first : a.submode with
    | none => exact .inl (.inr ⟨same, by simp [submodeLe]⟩)
    | some s =>
        cases second : b.submode with
        | none => exact .inr (.inr ⟨same.symm, by simp [submodeLe]⟩)
        | some t =>
            rcases String.le_total s t with le | le
            · exact .inl (.inr ⟨same, by simpa [submodeLe] using le⟩)
            · exact .inr (.inr ⟨same.symm, by simpa [submodeLe] using le⟩)
  · exact .inr (.inl more)

end VehicleKind

variable {source : StopPattern} {route : Route} {stops : List StopIndex}
  {schedules : List (VehicleKind × Schedule)} {filters : PatternFilters}

theorem kinds_filter (p : VehicleKind → Bool) (schedules : List (VehicleKind × Schedule)) :
    kinds (schedules.filter fun entry => p entry.1) = (kinds schedules).filter p := by
  rw [kinds, kinds, filter_mergeSort VehicleKind.le_trans VehicleKind.le_total, filter_eraseDups,
    List.filter_map]
  rfl

theorem ownSchedules_filter {p : VehicleKind → Bool} {kind : VehicleKind} (kept : p kind = true)
    (schedules : List (VehicleKind × Schedule)) :
    ownSchedules (schedules.filter fun entry => p entry.1) kind = ownSchedules schedules kind := by
  have same : (schedules.filter fun entry => p entry.1).filter (·.1 = kind) =
      schedules.filter (·.1 = kind) := by
    rw [List.filter_filter]
    refine List.filter_congr fun entry _ => ?_
    by_cases own : entry.1 = kind
    · simp [own, kept]
    · simp [own]
  rw [ownSchedules, ownSchedules, same]

/-- Whether filters accept the trips of a kind of vehicle on a route. -/
def acceptsKind (filters : PatternFilters) (route : Route) (kind : VehicleKind) : Bool :=
  filters.accepts route.id kind.mode kind.submode

theorem accepted_split (source : StopPattern) (route : Route) (stops : List StopIndex)
    (schedules : List (VehicleKind × Schedule)) (filters : PatternFilters) :
    let accepted := schedules.filter fun entry => acceptsKind filters route entry.1
    ((split source route stops schedules).filter (·.isAccepted filters)).map TripPattern.unnamed =
      (kinds accepted).map (part source route stops accepted "") := by
  intro accepted
  have kindsEq : (kinds schedules).filter (acceptsKind filters route) = kinds accepted :=
    (kinds_filter _ _).symm
  rw [split_eq, List.filter_map, List.map_map]
  change List.map _ ((kinds schedules).filter (acceptsKind filters route)) = _
  rw [kindsEq]
  refine List.map_congr_left fun kind member => ?_
  obtain ⟨entry, among, rfl⟩ := mem_kinds.1 member
  have kept := (List.mem_filter.1 among).2
  have own := ownSchedules_filter (p := acceptsKind filters route) kept schedules
  change part source route stops schedules "" entry.1 = part source route stops accepted "" entry.1
  rw [part, part, own]

theorem mapM_filter {ε α β : Type} {f : α → Except ε β} {p : α → Bool} {q : β → Bool}
    (agree : ∀ a b, f a = .ok b → q b = p a) {l : List α} {results : List β}
    (h : l.mapM f = .ok results) : (l.filter p).mapM f = .ok (results.filter q) := by
  induction l generalizing results with
  | nil =>
      cases h
      rfl
  | cons a l ih =>
      rw [List.mapM_cons] at h
      obtain ⟨b, made, h⟩ := bind_eq_ok.1 h
      obtain ⟨rest, others, h⟩ := bind_eq_ok.1 h
      cases h
      rw [List.filter_cons, List.filter_cons, agree a b made]
      split
      · rw [List.mapM_cons, made, ih others]
        rfl
      · exact ih others

theorem map_eq_of_mapM {ε α β γ : Type} {R : α → α → Prop} {f : α → Except ε β} {k : β → γ}
    (agree : ∀ {a b x y}, R a b → f a = .ok x → f b = .ok y → k y = k x) {l m : List α}
    (related : List.Forall₂ R l m) {results others : List β} (made : l.mapM f = .ok results)
    (madeToo : m.mapM f = .ok others) : others.map k = results.map k := by
  induction related generalizing results others with
  | nil =>
      cases made
      cases madeToo
      rfl
  | cons first _ ih =>
      rw [List.mapM_cons] at made madeToo
      obtain ⟨x, here, made⟩ := bind_eq_ok.1 made
      obtain ⟨xs, later, made⟩ := bind_eq_ok.1 made
      obtain ⟨y, hereToo, madeToo⟩ := bind_eq_ok.1 madeToo
      obtain ⟨ys, laterToo, madeToo⟩ := bind_eq_ok.1 madeToo
      cases made
      cases madeToo
      rw [List.map_cons, List.map_cons, agree first here hereToo, ih later laterToo]

theorem pattern_eq_ok {network : Network} {result : List TripPattern}
    (h : pattern network source = .ok result) :
    ∃ route stops schedules, network.routes.find? (·.id == source.routeId) = some route ∧
      source.stopIds.mapM (stopIndex network ("pattern `" ++ source.id ++ "`")) = .ok stops ∧
        (source.trips.mapM fun trip => do
          let schedule ← schedule network stops.length trip
          return (VehicleKind.ofTrip route trip, schedule)) = .ok schedules ∧
          result = split source route stops schedules := by
  simp only [pattern] at h
  split at h
  · cases h
  · next route known =>
      split at h
      · cases h
      · obtain ⟨stops, found, h⟩ := bind_eq_ok.1 h
        obtain ⟨schedules, made, h⟩ := bind_eq_ok.1 h
        cases h
        exact ⟨route, stops, schedules, known, found, made, rfl⟩

/-- The accepted trip patterns of a list, names aside. -/
def acceptedUnnamed (filters : PatternFilters) (patterns : List TripPattern) : List TripPattern :=
  (patterns.filter (·.isAccepted filters)).map TripPattern.unnamed

theorem acceptedUnnamed_pattern {network : Network} {p q : StopPattern}
    (same : q = { p with trips := q.trips })
    (trips : network.acceptedTrips filters q = network.acceptedTrips filters p)
    {result other : List TripPattern} (made : pattern network p = .ok result)
    (madeToo : pattern network q = .ok other) :
    acceptedUnnamed filters other = acceptedUnnamed filters result := by
  obtain ⟨others, rfl⟩ : ∃ others, q = { p with trips := others } := ⟨_, same⟩
  obtain ⟨route, stops, schedules, known, found, timed, rfl⟩ := pattern_eq_ok made
  obtain ⟨routeToo, stopsToo, schedulesToo, knownToo, foundToo, timedToo, rfl⟩ :=
    pattern_eq_ok madeToo
  obtain rfl : route = routeToo := Option.some.inj (known.symm.trans knownToo)
  obtain rfl : stops = stopsToo := Except.ok.inj (found.symm.trans foundToo)
  simp only [Network.acceptedTrips, known, Option.any_some] at trips
  have ofTrip (trip : Trip) (entry : VehicleKind × Schedule)
      (made : (do
        let schedule ← schedule network stops.length trip
        return (VehicleKind.ofTrip route trip, schedule)) = Except.ok entry) :
      acceptsKind filters route entry.1 = filters.acceptsTrip route trip := by
    obtain ⟨schedule, -, made⟩ := bind_eq_ok.1 made
    cases made
    rfl
  have kept := mapM_filter ofTrip timed
  have keptToo := mapM_filter ofTrip timedToo
  rw [trips, kept, Except.ok.injEq] at keptToo
  rw [acceptedUnnamed, acceptedUnnamed, accepted_split, accepted_split, keptToo]
  rfl

theorem acceptedUnnamed_flatten (filters : PatternFilters) (parts : List (List TripPattern)) :
    acceptedUnnamed filters parts.flatten = (parts.map (acceptedUnnamed filters)).flatten := by
  rw [acceptedUnnamed, List.filter_flatten, List.map_flatten, List.map_map]
  rfl

end Build

open Build

/-- The layers of networks that differ in refused trips have the same stops, footpaths and calendar
and, names aside, the same accepted trip patterns in the same order. -/
theorem acceptedUnnamed_eq {n m : Network} {layer other : Layer} {filters : PatternFilters}
    (differs : n.DiffersByRefused m filters) (built : Layer.build n = .ok layer)
    (builtToo : Layer.build m = .ok other) :
    other.stops = layer.stops ∧ other.footpaths = layer.footpaths ∧
      other.calendar = layer.calendar ∧
        acceptedUnnamed filters other.patterns.toList =
          acceptedUnnamed filters layer.patterns.toList := by
  obtain ⟨sources, rfl⟩ : ∃ sources, m = { n with patterns := sources } := ⟨_, differs.parts⟩
  obtain ⟨services, patterns, footpaths, served, compiled, connected, rfl⟩ := build_eq_ok.1 built
  obtain ⟨servicesToo, patternsToo, footpathsToo, servedToo, compiledToo, connectedToo, rfl⟩ :=
    build_eq_ok.1 builtToo
  obtain rfl : services = servicesToo := Except.ok.inj (served.symm.trans servedToo)
  obtain rfl : footpaths = footpathsToo := Except.ok.inj (connected.symm.trans connectedToo)
  obtain ⟨parts, each, rfl⟩ := Build.patterns_eq_ok.1 compiled
  obtain ⟨partsToo, eachToo, rfl⟩ := Build.patterns_eq_ok.1 compiledToo
  have same := map_eq_of_mapM (fun related made madeToo =>
    acceptedUnnamed_pattern related.1 related.2 made madeToo) differs.patterns each eachToo
  refine ⟨rfl, rfl, rfl, ?_⟩
  simp only [acceptedUnnamed_flatten, same]

end Layer

end JourneyPlanner
