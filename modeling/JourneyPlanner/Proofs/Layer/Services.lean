import JourneyPlanner.Proofs.Layer.Reordered

/-!
The schedules that a compiled layer lists for a date, told by the services of the network: those
whose service has the date among its dates, in order, and no others. This holds of every date, inside
and outside of the calendar.
-/

namespace JourneyPlanner

theorem pairwise_zipIdx {α : Type} (l : List α) : l.zipIdx.Pairwise fun a b => a.2 < b.2 := by
  refine List.pairwise_map.1 ?_
  rw [List.zipIdx_map_snd]
  exact List.pairwise_lt_range'

namespace Network

/-- Whether the service of a schedule has a date among its dates. -/
def runsOn (n : Network) (date : Date) (s : Schedule) : Bool :=
  (n.services[s.service]?).any fun service => service.dates.contains date

/-- The schedules of a trip pattern whose service has a date among its dates. -/
def schedulesOn (n : Network) (date : Date) (p : TripPattern) : List Nat :=
  (List.range p.schedules.size).filter fun index => n.runsOn date (p.schedule index)

theorem runsOn_iff {n : Network} {date : Date} {s : Schedule} : n.runsOn date s = true ↔
    ∃ service, n.services[s.service]? = some service ∧ date ∈ service.dates := by
  simp [runsOn, Option.any_eq_true]

theorem mem_schedulesOn {n : Network} {date : Date} {p : TripPattern} {index : Nat} :
    index ∈ n.schedulesOn date p ↔
      ∃ s, p.schedules[index]? = some s ∧ n.runsOn date s = true := by
  rw [schedulesOn, List.mem_filter, List.mem_range]
  constructor
  · rintro ⟨inside, runs⟩
    refine ⟨p.schedule index, ?_, runs⟩
    rw [TripPattern.schedule, Array.getD_eq_getD_getElem?, Array.getElem?_eq_getElem inside,
      Option.getD_some]
  · rintro ⟨s, known, runs⟩
    refine ⟨(Array.getElem?_eq_some_iff.1 known).1, ?_⟩
    rw [TripPattern.schedule, Array.getD_eq_getD_getElem?, known, Option.getD_some]
    exact runs

theorem schedulesOn_ne_nil {n : Network} {date : Date} {p : TripPattern} :
    n.schedulesOn date p ≠ [] ↔ ∃ s ∈ p.schedules, n.runsOn date s = true := by
  constructor
  · intro some
    obtain ⟨index, member⟩ := List.exists_mem_of_ne_nil _ some
    obtain ⟨s, known, runs⟩ := mem_schedulesOn.1 member
    exact ⟨s, Array.mem_of_getElem? known, runs⟩
  · rintro ⟨s, member, runs⟩
    obtain ⟨index, known⟩ := Array.mem_iff_getElem?.1 member
    exact List.ne_nil_of_mem (mem_schedulesOn.2 ⟨s, known, runs⟩)

end Network

namespace Layer

variable {network : Network} {layer : Layer}

namespace Build

theorem runs_eq_runsOn {services : Services}
    (served : Build.services network.services.toList = .ok services) {calendar : Calendar}
    (has : services.calendar = some calendar) {date : Date} {day : Nat}
    (onDay : calendar.dayOf? date = some day) (s : Schedule) :
    runs services day s = network.runsOn date s := by
  rw [Bool.eq_iff_iff, runs_iff served, Network.runsOn_iff]
  constructor
  · rintro ⟨other, service, dated, hasToo, known, member, onSame⟩
    obtain rfl : calendar = other := Option.some.inj (has.symm.trans hasToo)
    obtain rfl := Calendar.eq_of_dayOf? onDay onSame
    exact ⟨service, by simpa using known, member⟩
  · rintro ⟨service, known, member⟩
    exact ⟨calendar, service, date, has, by simpa using known, member, onDay⟩

theorem runsOn_ne_true {services : Services}
    (served : Build.services network.services.toList = .ok services) {date : Date}
    (outside : services.calendar.bind (·.dayOf? date) = none) (s : Schedule) :
    network.runsOn date s ≠ true := by
  rw [ne_eq, Network.runsOn_iff]
  rintro ⟨service, known, dated⟩
  obtain ⟨calendar, day, has, onDay⟩ := exists_dayOf? served
    (Array.mem_toList_iff.2 (Array.mem_of_getElem? known)) dated
  rw [has, Option.bind_some, onDay] at outside
  cases outside

end Build

theorem runningOn_eq (built : Layer.build network = .ok layer) (date : Date) :
    layer.runningOn date = Build.listing (network.schedulesOn date) layer.patterns.toList := by
  obtain ⟨services, patterns, footpaths, served, -, -, rfl⟩ := build_eq_ok.1 built
  rw [runningOn]
  split
  · next day onDay =>
      obtain ⟨calendar, (has : services.calendar = some calendar), onDay⟩ :=
        Option.bind_eq_some_iff.1 onDay
      have today : ((services.calendar.map Calendar.days).getD [])[day]? = some day := by
        rw [has, Option.map_some, Option.getD_some, Calendar.days,
          List.getElem?_range (Calendar.dayOf?_lt onDay)]
      have own : Build.runningSchedules services day = network.schedulesOn date := by
        funext p
        simp only [Build.runningSchedules, Build.runs_eq_runsOn served has onDay]
        rfl
      simp only [Array.getD_eq_getD_getElem?, List.getElem?_toArray, List.getElem?_map, today,
        Option.map_some, Option.getD_some, Build.runningOnDay_eq, own]
  · next outside =>
      refine (List.filterMap_eq_nil_iff.2 fun entry _ => ?_).symm
      have nothing : network.schedulesOn date entry.1 = [] := by
        by_contra some
        obtain ⟨s, -, runs⟩ := Network.schedulesOn_ne_nil.1 some
        exact Build.runsOn_ne_true served outside s runs
      simp only [nothing, List.isEmpty_nil, if_true]

theorem schedulesOn?_eq (built : Layer.build network = .ok layer) (date : Date) {i : PatternIndex}
    {p : TripPattern} (known : layer.patterns[i]? = some p) :
    layer.schedulesOn? date i =
      if (network.schedulesOn date p).isEmpty then none else some (network.schedulesOn date p) := by
  rw [schedulesOn?, runningOn_eq built]
  exact Build.find?_listing (by simpa using known)

end Layer

end JourneyPlanner
