import JourneyPlanner.Proofs.Layer.Services
import Mathlib.Data.List.Nodup

/-!
Compiling the calendar loses nothing. Whatever date is asked for, a service of the layer is active
when the service of the network has the date, and what is listed for the date are the trip patterns
with a schedule of such a service, in their order, each with these schedules and no others. The
calendar, the numbers of its days, the shared sets of days and the lists made for each day do not
show.
-/

namespace JourneyPlanner

namespace Layer

/-- The service of a schedule has a date among its dates. -/
def RunsOn (layer : Layer) (network : Network) (date : Date) (s : Schedule) : Prop :=
  ∃ service ∈ network.services, layer.serviceIndex? service.id = some s.service ∧
    date ∈ service.dates

/-- What a layer says about a date is what the services of a network say. -/
structure IsActiveAs (layer : Layer) (network : Network) (date : Date) : Prop where
  services : ∀ service ∈ network.services, ∃ code, layer.serviceIndex? service.id = some code ∧
    (layer.isServiceActive code date = true ↔ date ∈ service.dates)
  inOrder : (layer.runningOn date).Pairwise fun running later => running.pattern < later.pattern
  patterns : ∀ i : PatternIndex, (∃ running ∈ layer.runningOn date, running.pattern = i) ↔
    ∃ p, layer.patterns[i]? = some p ∧ ∃ s ∈ p.schedules, layer.RunsOn network date s
  schedules : ∀ running ∈ layer.runningOn date, running.schedules.Pairwise (· < ·) ∧
    ∀ p, layer.patterns[running.pattern]? = some p → ∀ index, index ∈ running.schedules ↔
      ∃ s, p.schedules[index]? = some s ∧ layer.RunsOn network date s

variable {network : Network} {layer : Layer}

theorem serviceIndex?_eq (built : Layer.build network = .ok layer) (id : String) :
    layer.serviceIndex? id = network.services.findIdx? (·.id == id) := by
  obtain ⟨services, patterns, footpaths, -, -, -, rfl⟩ := build_eq_ok.1 built
  exact Array.findIdx?_map

theorem getElem?_services_iff (unique : network.HasUniqueIds) {k : Nat} {service : Service} :
    network.services[k]? = some service ↔
      service ∈ network.services ∧ network.services.findIdx? (·.id == service.id) = some k := by
  have distinct : (network.services.toList.map Service.id).Nodup := unique.2.2.1
  constructor
  · intro known
    obtain ⟨inside, atIndex⟩ := Array.getElem?_eq_some_iff.1 known
    refine ⟨Array.mem_of_getElem? known, Array.findIdx?_eq_some_iff_getElem.2 ⟨inside, ?_, ?_⟩⟩
    · rw [atIndex, beq_self_eq_true]
    · intro j before same
      have inIds : k < (network.services.toList.map Service.id).length := by simpa using inside
      have sameId : (network.services.toList.map Service.id)[j] =
          (network.services.toList.map Service.id)[k] := by
        simpa [atIndex] using same
      exact Nat.ne_of_lt before ((List.Nodup.getElem_inj_iff distinct).1 sameId)
  · rintro ⟨member, found⟩
    obtain ⟨inside, same, -⟩ := Array.findIdx?_eq_some_iff_getElem.1 found
    have equal := List.inj_on_of_nodup_map distinct
      (Array.mem_toList_iff.2 (Array.getElem_mem inside)) (Array.mem_toList_iff.2 member)
      (eq_of_beq same)
    rw [Array.getElem?_eq_getElem inside, equal]

theorem runsOn_iff (unique : network.HasUniqueIds) (built : Layer.build network = .ok layer)
    {date : Date} {s : Schedule} :
    layer.RunsOn network date s ↔ network.runsOn date s = true := by
  rw [Network.runsOn_iff, RunsOn]
  constructor
  · rintro ⟨service, member, named, dated⟩
    rw [serviceIndex?_eq built] at named
    exact ⟨service, (getElem?_services_iff unique).2 ⟨member, named⟩, dated⟩
  · rintro ⟨service, known, dated⟩
    obtain ⟨member, named⟩ := (getElem?_services_iff unique).1 known
    exact ⟨service, member, (serviceIndex?_eq built _).trans named, dated⟩

theorem isServiceActive_eq (built : Layer.build network = .ok layer) (date : Date) (s : Schedule) :
    layer.isServiceActive s.service date = network.runsOn date s := by
  obtain ⟨services, patterns, footpaths, served, -, -, rfl⟩ := build_eq_ok.1 built
  simp only [isServiceActive]
  cases onDay : services.calendar.bind (·.dayOf? date) with
  | none =>
      exact (eq_false_of_ne_true (Build.runsOn_ne_true served onDay s)).symm
  | some day =>
      obtain ⟨calendar, has, onDay⟩ := Option.bind_eq_some_iff.1 onDay
      rw [← Build.runs_eq_runsOn served has onDay, Build.runs]
      cases services.serviceDays[s.service]? with
      | none => rfl
      | some days => rfl

theorem mem_runningOn (built : Layer.build network = .ok layer) {date : Date}
    {running : RunningPattern} : running ∈ layer.runningOn date ↔
      ∃ p, layer.patterns[running.pattern]? = some p ∧ network.schedulesOn date p ≠ [] ∧
        running.schedules = network.schedulesOn date p := by
  simp only [runningOn_eq built, Build.listing, List.mem_filterMap, Prod.exists,
    List.mem_zipIdx_iff_getElem?, Array.getElem?_toList, Option.ite_none_left_eq_some,
    Option.some.injEq, List.isEmpty_iff]
  constructor
  · rintro ⟨p, i, known, some, rfl⟩
    exact ⟨p, known, some, rfl⟩
  · rintro ⟨p, known, some, listed⟩
    exact ⟨p, running.pattern, known, some, by rw [← listed]⟩

/-- Of every date, inside and outside of the calendar, a compiled layer says what the services of
its network say. -/
theorem isActiveAs_build (unique : network.HasUniqueIds) (built : Layer.build network = .ok layer)
    (date : Date) : layer.IsActiveAs network date := by
  have runs {s : Schedule} : layer.RunsOn network date s ↔ network.runsOn date s = true :=
    runsOn_iff unique built
  refine ⟨fun service member => ?_, ?_, fun i => ?_, fun running member => ?_⟩
  · obtain ⟨code, known⟩ := Array.mem_iff_getElem?.1 member
    obtain ⟨-, named⟩ := (getElem?_services_iff unique).1 known
    refine ⟨code, (serviceIndex?_eq built _).trans named, ?_⟩
    have active := isServiceActive_eq built date ⟨"", code, #[]⟩
    rw [active, Network.runsOn_iff]
    simp only [known, Option.some.injEq, exists_eq_left']
  · rw [runningOn_eq built]
    refine (pairwise_zipIdx _).filterMap _ fun entry later less running made next madeNext => ?_
    simp only [Option.ite_none_left_eq_some, Option.some.injEq] at made madeNext
    rw [← made.2, ← madeNext.2]
    exact less
  · simp only [runs, ← Network.schedulesOn_ne_nil, mem_runningOn built]
    constructor
    · rintro ⟨running, ⟨p, known, some, -⟩, rfl⟩
      exact ⟨p, known, some⟩
    · rintro ⟨p, known, some⟩
      exact ⟨⟨i, _⟩, ⟨p, known, some, rfl⟩, rfl⟩
  · obtain ⟨p, known, -, listed⟩ := (mem_runningOn built).1 member
    rw [listed]
    refine ⟨List.pairwise_lt_range.filter _, fun q knownToo index => ?_⟩
    obtain rfl : p = q := Option.some.inj (known.symm.trans knownToo)
    simp only [runs, Network.mem_schedulesOn]

theorem isActiveAs_build_shuttle : ∃ layer, Network.shuttle.HasUniqueIds ∧
    Layer.build .shuttle = .ok layer ∧ layer.IsActiveAs .shuttle ⟨100⟩ ∧
      layer.IsActiveAs .shuttle ⟨101⟩ := by
  have found : (Layer.build .shuttle).toOption.any (fun _ => true) = true := by decide +kernel
  obtain ⟨layer, built, -⟩ := exists_ok_of_any found
  have unique : Network.shuttle.HasUniqueIds := by
    simp [Network.HasUniqueIds, Network.shuttle]
  exact ⟨layer, unique, built, isActiveAs_build unique built _, isActiveAs_build unique built _⟩

end Layer

end JourneyPlanner
