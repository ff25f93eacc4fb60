import JourneyPlanner.Itinerary
import JourneyPlanner.Proofs.Journey.Rides
import JourneyPlanner.Proofs.Search.InRange

/-!
The indices in the legs of the journeys that a search has found. They are those of legs from the
origin and to the destination, of footpaths, of trip patterns with their schedules and of stops that
are there, and a ride serves a range of the stops of its trip pattern.
-/

namespace JourneyPlanner

open Search

/-- Whatever a leg refers to by an index is there, and a vehicle is left after it is boarded. -/
def Journey.Leg.InRange (layer : Layer) (origin destination : StreetLegs) : Leg → Prop
  | access leg stop _ _ => leg < origin.size ∧ stop < layer.nbOfStops
  | ride pattern schedule _ boardPosition debarkPosition boardStop debarkStop _ _ =>
      boardStop < layer.nbOfStops ∧ debarkStop < layer.nbOfStops ∧
        ∃ p, layer.patterns[pattern]? = some p ∧ schedule < p.schedules.size ∧
          boardPosition < debarkPosition ∧ debarkPosition < p.stops.size
  | walk footpath source target _ _ =>
      source < layer.nbOfStops ∧ target < layer.nbOfStops ∧
        ∃ leaving, layer.footpaths[footpath.source]? = some leaving ∧ footpath.rank < leaving.size
  | egress leg stop _ _ => leg < destination.size ∧ stop < layer.nbOfStops

namespace SearchState.InRange

variable {c : Context} {s : SearchState} {index : NodeIndex}

theorem node (h : s.InRange c) (inside : index < s.tree.size) :
    s.tree.nodes[index]? = some (s.tree.node index) ∧
      (s.tree.node index).stop < c.timetable.nbOfStops ∧
        (s.tree.node index).step.InRange c index := by
  have known : s.tree.nodes[index]? = some (s.tree.node index) := JourneyTree.getElem?_nodes inside
  obtain ⟨stop, -, step⟩ := h.nodes index _ known
  exact ⟨known, stop, step⟩

theorem legOf (h : s.InRange c) (inRange : c.InRange) (inside : index < s.tree.size)
    (time : SearchTime) : (Journey.legOf c s.tree time index).InRange c.timetable.layer
      c.query.access c.query.egress := by
  obtain ⟨-, stop, step⟩ := h.node inside
  rw [Journey.legOf]
  cases made : (s.tree.node index).step with
  | access leg =>
      rw [made] at step
      exact ⟨step, stop⟩
  | walk parent footpath duration =>
      rw [made] at step
      obtain ⟨older, known⟩ := step
      exact ⟨(h.node (Nat.lt_trans older inside)).2.1, stop, known⟩
  | ride parent line trip boardPosition boardTime debarkPosition =>
      rw [made] at step
      obtain ⟨-, l, known, -, schedule, ahead, within⟩ := step
      have same := Timetable.line_of_getElem? known
      subst same
      exact ⟨inRange.stopAt_lt (Nat.lt_trans ahead within), stop, _,
        (inRange.line within).2.pattern, schedule, ahead, within⟩

theorem leg_of_mem_arrived (h : s.InRange c) (inRange : c.InRange)
    {arrived : Arrived × ArrivalCriteria} (member : arrived ∈ s.arrived) {leg : Journey.Leg}
    (among : leg ∈ (Journey.ofArrived c s.tree arrived).legs) :
    leg.InRange c.timetable.layer c.query.access c.query.egress := by
  obtain ⟨node, egress⟩ := h.arrived arrived member
  rw [Journey.ofArrived, Journey.legsFrom_eq] at among
  rcases List.mem_append.1 among with inside | last
  · obtain ⟨index, inLineage, start, rfl⟩ := Journey.exists_of_mem_legsOf inside
    exact h.legOf inRange (Nat.lt_of_le_of_lt (JourneyTree.le_of_mem_lineage inLineage) node) start
  · rw [List.mem_singleton.1 last]
    exact ⟨egress, inRange.egress _ (Array.mem_of_getElem? (StreetLegs.getElem?_legs egress))⟩

end SearchState.InRange

end JourneyPlanner
