import JourneyPlanner.Proofs.Journey.Extraction

/-!
Where the rides of a journey come from: each one is the leg of a node that was made by getting off a
vehicle.
-/

namespace JourneyPlanner

namespace Journey

open Search

theorem exists_of_mem_legsOf {c : Context} {tree : JourneyTree} {time : SearchTime}
    {nodes : List NodeIndex} {leg : Leg} (h : leg ∈ legsOf c tree time nodes) :
    ∃ index ∈ nodes, ∃ start, leg = legOf c tree start index := by
  induction nodes generalizing time with
  | nil => cases h
  | cons index rest ih =>
      rcases List.mem_cons.1 h with rfl | later
      · exact ⟨index, List.mem_cons_self, time, rfl⟩
      · obtain ⟨other, among, start, equal⟩ := ih later
        exact ⟨other, List.mem_cons_of_mem _ among, start, equal⟩

/-- A ride of a journey on a line: somebody boards at a position and gets off at a later one. -/
structure IsRideOn (c : Context) (line : LineIndex) (o : Onboard) (position : Nat) (leg : Leg) :
    Prop where
  boards : ∃ waiting, (c.timetable.line line).Boards waiting o.boardPosition o.trip
  boardTime : o.boardTime = (c.timetable.line line).boardTime o.trip o.boardPosition
  ahead : o.boardPosition < position
  inside : position < (c.timetable.line line).nbOfPositions
  leg_eq : leg = .ride (c.timetable.line line).patternIndex o.trip.schedule
    ((c.timetable.line line).serviceDate o.trip) o.boardPosition position
    ((c.timetable.line line).stopAt o.boardPosition) ((c.timetable.line line).stopAt position)
    o.boardTime ((c.timetable.line line).debarkTime o.trip position)

theorem exists_isRideOn {c : Context} {tree : JourneyTree} {bound i : NodeIndex}
    (follows : Follows c tree bound (tree.node i)) {start : SearchTime}
    (ride : (legOf c tree start i).isRide = true) :
    ∃ line o position, IsRideOn c line o position (legOf c tree start i) := by
  rw [isRide_legOf] at ride
  generalize equal : tree.node i = node at follows
  cases follows with
  | access =>
      rw [equal] at ride
      cases ride
  | walk =>
      rw [equal] at ride
      cases ride
  | @ride line o position older boarded atStop ahead inside inTime =>
      obtain ⟨trip, time, earliest, boarding⟩ := board_eq_some boarded
      obtain ⟨boards, timeEq⟩ := Line.earliestTrip_spec earliest
      have sameTrip : o.trip = trip := by rw [boarding]
      have sameTime : o.boardTime = time := by rw [boarding]
      refine ⟨line, o, position, ⟨_, sameTrip ▸ boards⟩, ?_, ahead, inside, ?_⟩
      · rw [sameTime, timeEq, sameTrip]
      · simp only [legOf, equal, rideNode]

theorem exists_isRideOn_of_mem {c : Context} {s : SearchState} (h : Consistent c s)
    {walkOnly : Bool} {j : Journey} (member : j ∈ extract c s walkOnly) {leg : Leg}
    (among : leg ∈ j.legs) (ride : leg.isRide = true) :
    ∃ line o position, IsRideOn c line o position leg := by
  obtain ⟨arrived, inFront, rfl⟩ := List.mem_map.1 (List.mem_filter.1 member).1
  obtain ⟨_, arrival⟩ := h.arrived arrived inFront
  rw [ofArrived, legsFrom_eq] at among
  rcases List.mem_append.1 among with inside | last
  · obtain ⟨index, inLineage, start, rfl⟩ := exists_of_mem_legsOf inside
    have older := Nat.lt_of_le_of_lt (JourneyTree.le_of_mem_lineage inLineage) arrival.older
    exact exists_isRideOn (h.follows index older) ride
  · rw [List.mem_singleton.1 last] at ride
    cases ride

end Journey

end JourneyPlanner
