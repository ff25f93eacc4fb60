import JourneyPlanner.Proofs.Checked.Timetable
import JourneyPlanner.Proofs.Journey.InRange

/-!
The journeys of a search and their itineraries with each lookup checked: of the nodes and their
parents, of a line, its days, its schedules and its positions, of the legs from the origin and to the
destination, and of what a leg refers to in the layer. The stops that a ride serves are a range of
those of its trip pattern with one stop at least, or there is no itinerary.
-/

namespace JourneyPlanner.Checked

open Search

variable {c : Context} {s : SearchState}

/-- A parent that is not older than its node ends it, too. -/
def lineage (tree : JourneyTree) (index : NodeIndex) : Option (List NodeIndex) := do
  match (← tree.nodes[index]?).step.parent? with
  | some parent => if parent < index then return (← lineage tree parent) ++ [index] else none
  | none => return [index]
termination_by index

theorem lineage_eq (h : s.InRange c) {index : NodeIndex} (inside : index < s.tree.size) :
    lineage s.tree index = some (s.tree.lineage index) := by
  induction index using Nat.strongRecOn with
  | ind index ih =>
      obtain ⟨known, -, step⟩ := h.node inside
      rw [lineage, known]
      simp only [Option.bind_eq_bind, Option.bind_some]
      cases isParent : (s.tree.node index).step.parent? with
      | none =>
          rw [JourneyTree.lineage_of_first isParent]
          rfl
      | some parent =>
          have older : parent < index := step.parent_lt isParent
          rw [JourneyTree.lineage_of_parent isParent older]
          simp only [if_pos older, ih parent older (Nat.lt_trans older inside), Option.bind_some]
          rfl

def legOf (c : Context) (tree : JourneyTree) (time : SearchTime) (index : NodeIndex) :
    Option Journey.Leg := do
  let node ← tree.nodes[index]?
  match node.step with
  | .access leg =>
      return .access leg node.stop time (time + (← c.query.access.legs[leg]?).duration)
  | .walk parent footpath duration =>
      return .walk footpath (← tree.nodes[parent]?).stop node.stop time (time + duration)
  | .ride _ lineIndex trip boardPosition boardTime debarkPosition => do
      let line ← c.timetable.lines[lineIndex]?
      return .ride line.patternIndex trip.schedule (← line.days[trip.day]?).date boardPosition
        debarkPosition (← line.pattern.stops[boardPosition]?) node.stop boardTime
        (← debarkTime line trip debarkPosition)

theorem legOf_eq (inRange : c.InRange) (h : s.InRange c) {index : NodeIndex}
    (inside : index < s.tree.size) (time : SearchTime) :
    legOf c s.tree time index = some (Journey.legOf c s.tree time index) := by
  obtain ⟨known, -, step⟩ := h.node inside
  rw [legOf, known, Journey.legOf]
  simp only [Option.bind_eq_bind, Option.bind_some]
  cases made : (s.tree.node index).step with
  | access leg =>
      rw [made] at step
      simp only [StreetLegs.getElem?_legs step, Option.bind_some]
      rfl
  | walk parent footpath duration =>
      rw [made] at step
      simp only [JourneyTree.getElem?_nodes (Nat.lt_trans step.1 inside), Option.bind_some]
      rfl
  | ride parent line trip boardPosition boardTime debarkPosition =>
      rw [made] at step
      obtain ⟨-, l, there, day, schedule, ahead, within⟩ := step
      have same := Timetable.line_of_getElem? there
      subst same
      simp only [there, Line.getElem?_days day, Line.getElem?_stops (Nat.lt_trans ahead within),
        debarkTime_eq (inRange.line within).2 day schedule within, Option.bind_some]
      rfl

def legsFrom (c : Context) (tree : JourneyTree) (egress : Nat) :
    SearchTime → List NodeIndex → Option (List Journey.Leg)
  | time, [] => do
      let leg ← c.query.egress.legs[egress]?
      return [.egress egress leg.stop time (time + leg.duration)]
  | time, index :: rest => do
      let leg ← legOf c tree time index
      return leg :: (← legsFrom c tree egress leg.arrival rest)

theorem legsFrom_eq (inRange : c.InRange) (h : s.InRange c) {egress : Nat}
    (known : egress < c.query.egress.size) {nodes : List NodeIndex}
    (inside : ∀ index ∈ nodes, index < s.tree.size) (time : SearchTime) :
    legsFrom c s.tree egress time nodes = some (Journey.legsFrom c s.tree egress time nodes) := by
  induction nodes generalizing time with
  | nil =>
      rw [legsFrom, StreetLegs.getElem?_legs known]
      rfl
  | cons index rest ih =>
      obtain ⟨first, others⟩ := List.forall_mem_cons.1 inside
      rw [legsFrom, legOf_eq inRange h first]
      simp only [Option.bind_eq_bind, Option.bind_some, ih others]
      rfl

def ofArrived (c : Context) (tree : JourneyTree) (arrived : Arrived × ArrivalCriteria) :
    Option Journey := do
  let nodes ← lineage tree arrived.1.node
  return {
    legs := ← legsFrom c tree arrived.1.egress arrived.2.departure nodes
    departure := arrived.2.departure
    arrival := arrived.2.arrival
    nbOfTransfers := arrived.2.nbOfTransfers
    cost := arrived.2.cost }

theorem ofArrived_eq (inRange : c.InRange) (h : s.InRange c) {arrived : Arrived × ArrivalCriteria}
    (member : arrived ∈ s.arrived) :
    ofArrived c s.tree arrived = some (Journey.ofArrived c s.tree arrived) := by
  obtain ⟨node, egress⟩ := h.arrived arrived member
  have inside : ∀ index ∈ s.tree.lineage arrived.1.node, index < s.tree.size :=
    fun index among => Nat.lt_of_le_of_lt (JourneyTree.le_of_mem_lineage among) node
  rw [ofArrived, lineage_eq h node]
  simp only [Option.bind_eq_bind, Option.bind_some, legsFrom_eq inRange h egress inside]
  rfl

def extract (c : Context) (s : SearchState) (walkOnly : Bool) : Option (List Journey) := do
  return (← s.arrived.mapM (ofArrived c s.tree)).filter (Journey.isSound walkOnly)

theorem extract_eq (inRange : c.InRange) (h : s.InRange c) (walkOnly : Bool) :
    extract c s walkOnly = some (Journey.extract c s walkOnly) := by
  rw [extract, mapM_eq fun arrived member => ofArrived_eq inRange h member]
  rfl

def place (layer : Layer) (index : StopIndex) : Option Place := do
  let stop ← layer.stops[index]?
  return ⟨stop.id, stop.name, stop.coord⟩

theorem place_eq {layer : Layer} {stop : StopIndex} (known : stop < layer.nbOfStops) :
    place layer stop = some (Itinerary.place layer stop) := by
  have inside : stop < layer.stops.size := known
  rw [place, Array.getElem?_eq_getElem inside]
  simp [Itinerary.place, Layer.stop, inside]

/-- A range of the stops of a pattern that ends before it starts is none, and neither is one that
goes beyond the last stop. -/
def stopsBetween (pattern : TripPattern) (first last : Nat) : Option (List StopIndex) :=
  if first ≤ last ∧ last < pattern.stops.size then
    some (Itinerary.stopsBetween pattern first last)
  else none

theorem mem_of_mem_stopsBetween {pattern : TripPattern} {first last : Nat} {stop : StopIndex}
    (h : stop ∈ Itinerary.stopsBetween pattern first last) : stop ∈ pattern.stops :=
  Array.mem_toList_iff.1 (List.mem_of_mem_take (List.mem_of_mem_drop h))

def coords (layer : Layer) (stops : List StopIndex) : Option (List Coord) :=
  stops.mapM fun stop => do return (← layer.stops[stop]?).coord

theorem coords_eq {layer : Layer} {stops : List StopIndex}
    (known : ∀ stop ∈ stops, stop < layer.nbOfStops) :
    coords layer stops = some (stops.map fun stop => (layer.stop stop).coord) := by
  refine mapM_eq fun stop member => ?_
  have inside : stop < layer.stops.size := known stop member
  simp [Layer.stop, inside]

def itineraryLegOf (layer : Layer) (access egress : StreetLegs) (searchDate : Date) :
    Journey.Leg → Option Itinerary.Leg
  | .access index stop departure arrival => do
      let walk ← access.legs[index]?
      let target ← place layer stop
      return .walk .access none (some target) (departure.toDateTime searchDate)
        (arrival.toDateTime searchDate) walk.distance (walk.geometry.getD [target.coord])
  | .walk footpath source target departure arrival => do
      let source ← place layer source
      let target ← place layer target
      let leaving ← layer.footpaths[footpath.source]?
      return .walk .transfer (some source) (some target) (departure.toDateTime searchDate)
        (arrival.toDateTime searchDate) (← leaving[footpath.rank]?).distance
        [source.coord, target.coord]
  | .ride pattern schedule date boardPosition debarkPosition boardStop debarkStop boardTime
      debarkTime => do
      let pattern ← layer.patterns[pattern]?
      let served ← stopsBetween pattern boardPosition debarkPosition
      return .ride pattern.routeId pattern.routeName pattern.mode pattern.submode pattern.id
        (← pattern.schedules[schedule]?).tripId date (← place layer boardStop)
        (← place layer debarkStop) (boardTime.toDateTime searchDate)
        (debarkTime.toDateTime searchDate) (← coords layer served)
  | .egress index stop departure arrival => do
      let walk ← egress.legs[index]?
      let source ← place layer stop
      return .walk .egress (some source) none (departure.toDateTime searchDate)
        (arrival.toDateTime searchDate) walk.distance (walk.geometry.getD [source.coord])

theorem itineraryLegOf_eq {layer : Layer} (inRange : layer.InRange) {access egress : StreetLegs}
    (searchDate : Date) {leg : Journey.Leg} (h : leg.InRange layer access egress) :
    itineraryLegOf layer access egress searchDate leg =
      some (Itinerary.legOf layer access egress searchDate leg) := by
  cases leg with
  | access index stop departure arrival =>
      obtain ⟨known, there⟩ := h
      rw [itineraryLegOf, StreetLegs.getElem?_legs known, place_eq there]
      rfl
  | walk footpath source target departure arrival =>
      obtain ⟨start, stop, leaving, from', known⟩ := h
      have footpathEq : layer.footpath footpath = leaving[footpath.rank] := by
        simp [Layer.footpath, Layer.footpathsFrom, from', known]
      rw [itineraryLegOf, place_eq start, place_eq stop, from']
      simp only [Option.bind_eq_bind, Option.bind_some, Array.getElem?_eq_getElem known,
        Itinerary.legOf, footpathEq]
      rfl
  | ride pattern schedule date boardPosition debarkPosition boardStop debarkStop boardTime
      debarkTime =>
      obtain ⟨boards, debarks, p, there, scheduled, ahead, inside⟩ := h
      have patternEq : layer.pattern pattern = p := by
        simp [Layer.pattern, there]
      have served : stopsBetween p boardPosition debarkPosition =
          some (Itinerary.stopsBetween p boardPosition debarkPosition) :=
        if_pos ⟨Nat.le_of_lt ahead, inside⟩
      have known (stop) (member : stop ∈ Itinerary.stopsBetween p boardPosition debarkPosition) :
          stop < layer.nbOfStops :=
        inRange.stops p (Array.mem_of_getElem? there) stop (mem_of_mem_stopsBetween member)
      have scheduleEq : p.schedules[schedule]? = some (p.schedule schedule) := by
        simp [TripPattern.schedule, scheduled]
      rw [itineraryLegOf, there]
      simp only [Option.bind_eq_bind, Option.bind_some, served, coords_eq known, scheduleEq,
        place_eq boards, place_eq debarks, Itinerary.legOf, patternEq]
      rfl
  | egress index stop departure arrival =>
      obtain ⟨known, there⟩ := h
      rw [itineraryLegOf, StreetLegs.getElem?_legs known, place_eq there]
      rfl

def itineraryOf (layer : Layer) (access egress : StreetLegs) (searchDate : Date)
    (journey : Journey) : Option Itinerary := do
  return {
    departure := journey.departure.toDateTime searchDate
    arrival := journey.arrival.toDateTime searchDate
    duration := journey.arrival.sinceOrZero journey.departure
    nbOfTransfers := journey.nbOfTransfers
    cost := journey.cost
    legs := ← journey.legs.mapM (itineraryLegOf layer access egress searchDate) }

theorem itineraryOf_eq {layer : Layer} (inRange : layer.InRange) {access egress : StreetLegs}
    (searchDate : Date) {journey : Journey}
    (h : ∀ leg ∈ journey.legs, leg.InRange layer access egress) :
    itineraryOf layer access egress searchDate journey =
      some (Itinerary.ofJourney layer access egress searchDate journey) := by
  rw [itineraryOf, mapM_eq fun leg member => itineraryLegOf_eq inRange searchDate (h leg member)]
  rfl

end JourneyPlanner.Checked
