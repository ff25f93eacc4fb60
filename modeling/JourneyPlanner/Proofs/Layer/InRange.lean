import JourneyPlanner.Proofs.Layer.Activation
import JourneyPlanner.Proofs.Layer.Days

/-!
The indices that a compiled layer stores. Each stop of a trip pattern and each end of a footpath is
a stop of the layer, each schedule has an event at each position of its trip pattern, and what is
listed for a date are trip patterns of the layer and schedules of theirs.
-/

namespace JourneyPlanner

/-- Whatever a layer refers to by an index is there. -/
structure Layer.InRange (l : Layer) : Prop where
  stops : ∀ p ∈ l.patterns, ∀ stop ∈ p.stops, stop < l.nbOfStops
  events : ∀ p ∈ l.patterns, ∀ s ∈ p.schedules, s.events.size = p.nbOfPositions
  footpaths : l.footpaths.size = l.nbOfStops
  targets : ∀ leaving ∈ l.footpaths, ∀ footpath ∈ leaving, footpath.target < l.nbOfStops
  running : ∀ (date : Date), ∀ running ∈ l.runningOn date, ∃ p,
    l.patterns[running.pattern]? = some p ∧ ∀ index ∈ running.schedules, index < p.schedules.size

theorem Layer.size_footpaths {network : Network} {layer : Layer}
    (built : Layer.build network = .ok layer) : layer.footpaths.size = layer.nbOfStops := by
  obtain ⟨services, patterns, footpaths, -, -, connected, rfl⟩ := Layer.build_eq_ok.1 built
  obtain ⟨all, -, made⟩ := bind_eq_ok.1 connected
  cases made
  simp [Layer.nbOfStops]

theorem Layer.inRange_build {network : Network} {layer : Layer}
    (built : Layer.build network = .ok layer) : layer.InRange := by
  have compiled := Layer.isCompiled_build built
  refine ⟨fun p member stop among => ?_, fun p member s among => ?_, Layer.size_footpaths built,
    fun leaving member footpath among => ?_, fun date running member => ?_⟩
  · obtain ⟨_, -, _, -, isPart⟩ := compiled.patterns p member
    obtain ⟨position, inside, rfl⟩ := Array.getElem_of_mem among
    have known := isPart.stopAt_lt inside
    rw [Layer.nbOfStops, compiled.stops]
    simpa [TripPattern.stopAt, inside] using known
  · obtain ⟨_, -, _, -, isPart⟩ := compiled.patterns p member
    obtain ⟨_, -, scheduled, -⟩ := isPart.schedules s among
    exact (Build.schedule_spec scheduled).2.2.1
  · obtain ⟨stop, inside, rfl⟩ := Array.getElem_of_mem member
    refine compiled.targets stop footpath ?_
    simpa [Layer.footpathsFrom, inside] using among
  · obtain ⟨p, known, -, listed⟩ := (Layer.mem_runningOn built).1 member
    refine ⟨p, known, fun index among => ?_⟩
    rw [listed] at among
    obtain ⟨s, at', -⟩ := Network.mem_schedulesOn.1 among
    exact (Array.getElem?_eq_some_iff.1 at').1

end JourneyPlanner
