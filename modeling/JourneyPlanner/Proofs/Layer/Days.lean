import JourneyPlanner.Proofs.Layer.Patterns
import JourneyPlanner.Proofs.Time.DaySets

/-!
What a compiled layer runs on a date. The calendar has all the dates of the services, and the sets of
days are stored service by service; so a schedule runs on a day just when its service has the date of
that day. The theorem about `Layer.build` says all that a search relies on.
-/

namespace JourneyPlanner

namespace Layer.Build

theorem foldl_insertDays (calendar : Calendar) (services : List Service)
    (indices : Array DaySetIndex) (sets : DaySets) :
    services.foldl (fun result service =>
      let next := result.2.insert service.dates calendar
      (result.1.push next.1, next.2)) (indices, sets) =
      (indices ++ (DaySets.insertAll calendar sets (services.map Service.dates)).1.toArray,
        (DaySets.insertAll calendar sets (services.map Service.dates)).2) := by
  induction services generalizing indices sets with
  | nil => simp [DaySets.insertAll]
  | cons service rest ih =>
      rw [List.foldl_cons, ih]
      simp [DaySets.insertAll]

theorem insertDays_eq (calendar : Calendar) (start : DaySets) (services : List Service) :
    insertDays calendar start services =
      ((DaySets.insertAll calendar start (services.map Service.dates)).1.toArray,
        (DaySets.insertAll calendar start (services.map Service.dates)).2) := by
  have stored := foldl_insertDays calendar services #[] start
  rw [Array.empty_append] at stored
  exact stored

theorem foldl_pick {R : Date → Date → Prop} (refl : ∀ d, R d d)
    (trans : ∀ {a b c}, R a b → R b c → R a c) {pick : Date → Date → Date}
    (left : ∀ a b, R (pick a b) a) (right : ∀ a b, R (pick a b) b) (dates : List Date)
    (start : Date) : ∀ d ∈ start :: dates, R (dates.foldl pick start) d := by
  induction dates generalizing start with
  | nil =>
      intro d member
      rw [List.mem_singleton.1 member]
      exact refl start
  | cons date rest ih =>
      have picked := ih (pick start date)
      have best := picked _ List.mem_cons_self
      rw [List.foldl_cons]
      intro d member
      rcases List.mem_cons.1 member with rfl | member
      · exact trans best (left d date)
      · rcases List.mem_cons.1 member with rfl | among
        · exact trans best (right start d)
        · exact picked d (List.mem_cons_of_mem _ among)

theorem earlierDate_le (a b : Date) : earlierDate a b ≤ a ∧ earlierDate a b ≤ b := by
  rw [earlierDate]
  split
  · next before => exact ⟨Int.le_of_lt before, Int.le_refl _⟩
  · next after => exact ⟨Int.le_refl _, Int.not_lt.1 after⟩

theorem le_laterDate (a b : Date) : a ≤ laterDate a b ∧ b ≤ laterDate a b := by
  rw [laterDate]
  split
  · next after => exact ⟨Int.le_of_lt after, Int.le_refl _⟩
  · next before => exact ⟨Int.le_refl _, Int.not_lt.1 before⟩

theorem dateRange?_spec {dates : List Date} {first last : Date}
    (h : dateRange? dates = some (first, last)) : ∀ d ∈ dates, first ≤ d ∧ d ≤ last := by
  cases dates with
  | nil => cases h
  | cons start rest =>
      cases h
      have earliest := foldl_pick (R := fun a b => a ≤ b) (fun _ => Int.le_refl _) Int.le_trans
        (fun a b => (earlierDate_le a b).1) (fun a b => (earlierDate_le a b).2) rest start
      have latest := foldl_pick (R := fun a b => b ≤ a) (fun _ => Int.le_refl _)
        (fun ab bc => Int.le_trans bc ab) (fun a b => (le_laterDate a b).1)
        (fun a b => (le_laterDate a b).2) rest start
      exact fun d member => ⟨earliest d member, latest d member⟩

theorem services_spec {list : List Service} {result : Services} (h : services list = .ok result) :
    (result.calendar = none → result.serviceDays = #[] ∧ ∀ service ∈ list, service.dates = []) ∧
      ∀ calendar, result.calendar = some calendar →
        DaySets.Stores calendar calendar.nbOfDays (list.map Service.dates)
            result.serviceDays.toList result.daySets ∧
          ∀ service ∈ list, ∀ date ∈ service.dates, calendar.contains date = true := by
  simp only [services] at h
  split at h
  · next nothing =>
      cases h
      refine ⟨fun _ => ⟨rfl, fun service member => ?_⟩, fun _ none => by cases none⟩
      have all : list.flatMap Service.dates = [] := by
        cases dates : list.flatMap Service.dates with
        | nil => rfl
        | cons date rest => simp [dates, dateRange?] at nothing
      exact List.flatMap_eq_nil_iff.1 all service member
  · next first last bounds =>
      split at h
      · cases h
      · next calendar made =>
          cases h
          refine ⟨fun none => (by cases none), ?_⟩
          rintro _ ⟨⟩
          have stores := (DaySets.Stores.empty calendar calendar.nbOfDays).insertAll
            (list.map Service.dates)
          rw [List.nil_append, List.nil_append] at stores
          refine ⟨by simpa only [insertDays_eq] using stores, fun service member date dated => ?_⟩
          have within := dateRange?_spec bounds date (List.mem_flatMap_of_mem member dated)
          simp only [Calendar.ofDates?, Option.dite_none_right_eq_some, Option.some.injEq] at made
          obtain ⟨-, rfl⟩ := made
          exact (Calendar.contains_iff _ _).2 within

theorem runs_iff {list : List Service} {result : Services} (h : services list = .ok result)
    {day : Nat} {schedule : Schedule} :
    runs result day schedule = true ↔
      ∃ calendar service date, result.calendar = some calendar ∧
        list[schedule.service]? = some service ∧ date ∈ service.dates ∧
          calendar.dayOf? date = some day := by
  obtain ⟨none, some⟩ := services_spec h
  rw [Build.runs]
  cases has : result.calendar with
  | none =>
      rw [(none has).1]
      simp
  | some calendar =>
      rw [← Array.getElem?_toList, (some calendar has).1.any_contains_iff, List.getElem?_map]
      constructor
      · rintro ⟨dates, known, date, member, onDay⟩
        obtain ⟨service, listed, rfl⟩ := Option.map_eq_some_iff.1 known
        exact ⟨calendar, service, date, rfl, listed, member, onDay⟩
      · rintro ⟨_, service, date, ⟨⟩, known, member, onDay⟩
        exact ⟨service.dates, Option.map_eq_some_iff.2 ⟨service, known, rfl⟩, date, member, onDay⟩

theorem exists_dayOf? {list : List Service} {result : Services} (h : services list = .ok result)
    {service : Service} (member : service ∈ list) {date : Date} (dated : date ∈ service.dates) :
    ∃ calendar day, result.calendar = some calendar ∧ calendar.dayOf? date = some day := by
  obtain ⟨none, some⟩ := services_spec h
  cases has : result.calendar with
  | none =>
      rw [(none has).2 service member] at dated
      cases dated
  | some calendar =>
      have within := (some calendar has).2 service member date dated
      exact ⟨calendar, _, rfl, if_pos within⟩

theorem mem_runningOnDay {patterns : List TripPattern} {services : Services} {day : Nat}
    {running : RunningPattern} (h : running ∈ runningOnDay patterns services day) :
    ∃ pattern, patterns[running.pattern]? = some pattern ∧ ∀ index ∈ running.schedules,
      index < pattern.schedules.size ∧ runs services day (pattern.schedule index) = true := by
  obtain ⟨⟨pattern, position⟩, member, made⟩ := List.mem_filterMap.1 h
  have at' : patterns[position]? = some pattern := List.mem_zipIdx_iff_getElem?.1 member
  simp only at made
  split at made
  · cases made
  · cases made
    refine ⟨pattern, at', fun index among => ?_⟩
    simpa using among

theorem target_lt {network : Network} {connection : Connection} {source : StopIndex}
    {made : Footpath} (h : footpath network connection = .ok (source, made)) :
    made.target < network.stops.size := by
  obtain ⟨start, -, h⟩ := bind_eq_ok.1 h
  obtain ⟨target, known, h⟩ := bind_eq_ok.1 h
  simp only at h
  split at h
  · cases h
  · cases h
    exact (Array.findIdx?_eq_some_iff_getElem.1 (stopIndex_eq_ok known)).1

theorem footpaths_target_lt {network : Network} {result : Array (Array Footpath)}
    (h : footpaths network = .ok result) (stop : StopIndex) {made : Footpath}
    (member : made ∈ result.getD stop #[]) : made.target < network.stops.size := by
  obtain ⟨all, compiled, h⟩ := bind_eq_ok.1 h
  cases h
  by_cases inside : stop < network.stops.size
  · simp [inside] at member
    obtain ⟨connection, -, ok⟩ := exists_of_mem_mapM compiled member
    exact target_lt ok
  · simp [inside] at member

end Layer.Build

/-- What a search relies on in a layer that is compiled from a network. -/
structure Layer.IsCompiled (network : Network) (layer : Layer) : Prop where
  stops : layer.stops = network.stops
  patterns : ∀ p ∈ layer.patterns, ∃ source ∈ network.patterns, ∃ route,
    network.routes.find? (·.id == source.routeId) = some route ∧
      Layer.Build.IsPartOf network source route p
  running : ∀ (date : Date), ∀ running ∈ layer.runningOn date, ∀ index ∈ running.schedules,
    index < (layer.pattern running.pattern).schedules.size ∧
      ∃ service,
        network.services[((layer.pattern running.pattern).schedule index).service]? = some service ∧
          date ∈ service.dates
  targets : ∀ (stop : StopIndex), ∀ footpath ∈ layer.footpathsFrom stop,
    footpath.target < layer.nbOfStops

theorem Layer.isCompiled_build {network : Network} {layer : Layer}
    (h : Layer.build network = .ok layer) : layer.IsCompiled network := by
  obtain ⟨services, patterns, footpaths, served, compiled, connected, rfl⟩ := build_eq_ok.1 h
  refine ⟨rfl, ?_, ?_, ?_⟩
  · intro p member
    exact Build.patterns_spec compiled (by simpa using member)
  · intro date running member index listed
    simp only [Layer.runningOn] at member
    split at member
    · next day onDay =>
        obtain ⟨calendar, hasCalendar, onDay⟩ := Option.bind_eq_some_iff.1 onDay
        have onDay' : running ∈ Build.runningOnDay patterns services day := by
          rw [hasCalendar, Option.map_some, Option.getD_some, Calendar.days] at member
          by_cases inside : day < calendar.nbOfDays
          · simpa [inside] using member
          · simp [inside] at member
        obtain ⟨pattern, known, runs⟩ := Build.mem_runningOnDay onDay'
        obtain ⟨inside, runs⟩ := runs index listed
        obtain ⟨other, service, found, hasOther, service_eq, dated, foundDay⟩ :=
          (Build.runs_iff served).1 runs
        have sameCalendar : other = calendar := by
          rw [hasCalendar, Option.some.injEq] at hasOther
          exact hasOther.symm
        subst sameCalendar
        have sameDate := Calendar.eq_of_dayOf? onDay foundDay
        simp only [Layer.pattern, Array.getD_eq_getD_getElem?, List.getElem?_toArray, known,
          Option.getD_some]
        refine ⟨inside, service, ?_, sameDate ▸ dated⟩
        rw [← Array.getElem?_toList]
        exact service_eq
    · cases member
  · intro stop made member
    exact Build.footpaths_target_lt connected stop member

theorem exists_ok_of_any {ε α : Type} {x : Except ε α} {p : α → Bool}
    (h : x.toOption.any p = true) : ∃ a, x = .ok a ∧ p a = true := by
  cases x with
  | error e => cases h
  | ok a => exact ⟨a, rfl, h⟩

/-- A line between two stops with one trip, and a footpath on from its end. -/
def Network.shuttle : Network where
  stops := #[⟨"a", "A", ⟨0, 0⟩⟩, ⟨"b", "B", ⟨0, 0⟩⟩, ⟨"c", "C", ⟨0, 0⟩⟩]
  routes := #[⟨"r", "R", .bus, none⟩]
  services := #[⟨"s", [⟨100⟩]⟩]
  patterns := #[⟨"p", "r", ["a", "b"],
    [⟨"t", "s", none, none, [⟨36000, 36000⟩, ⟨36600, 36600⟩]⟩]⟩]
  connections := #[⟨"b", "c", some 10, some (.ofSeconds 60), some .zero⟩]

/-- A line to the second stop, one from the third stop, which is next to it, to the last stop, and
one that goes all the way. -/
def Network.relay : Network where
  stops := #[⟨"a", "A", ⟨0, 0⟩⟩, ⟨"b", "B", ⟨0, 0⟩⟩, ⟨"c", "C", ⟨0, 0⟩⟩, ⟨"d", "D", ⟨0, 0⟩⟩]
  routes := #[⟨"r", "R", .bus, none⟩]
  services := #[⟨"s", [⟨100⟩]⟩]
  patterns := #[⟨"p", "r", ["a", "b"],
      [⟨"t", "s", none, none, [⟨30900, 30900⟩, ⟨31200, 31200⟩]⟩]⟩,
    ⟨"q", "r", ["c", "d"], [⟨"u", "s", none, none, [⟨31500, 31500⟩, ⟨32100, 32100⟩]⟩]⟩,
    ⟨"o", "r", ["a", "d"], [⟨"v", "s", none, none, [⟨30330, 30330⟩, ⟨31800, 31800⟩]⟩]⟩]
  connections := #[⟨"b", "c", some 60, some (.ofSeconds 60), some .zero⟩]

end JourneyPlanner
