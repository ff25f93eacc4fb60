import JourneyPlanner.Proofs.Exact.Rounds
import JourneyPlanner.Proofs.Request.Walks
import JourneyPlanner.Proofs.Search.Stages

/-!
An answer whose times are summed in the integers. Reading the journeys off the tree of the search
adds durations to times that lie between the departure and the arrival of the journey, so nothing is
cut off there either. An accepted request scans two weeks of service days at most and leaves on the
first day of the search, so each time that comes up on the way to its answer is near that day.
-/

namespace JourneyPlanner

open Search

namespace Exact

def legOf (c : Context) (tree : JourneyTree) (time : SearchTime) (index : NodeIndex) :
    Option Journey.Leg :=
  let node := tree.node index
  match node.step with
  | .access leg => do
      return .access leg node.stop time (← add time (c.query.access.leg leg).duration)
  | .walk parent footpath duration => do
      return .walk footpath (tree.node parent).stop node.stop time (← add time duration)
  | .ride _ lineIndex trip boardPosition boardTime debarkPosition => do
      let line := c.timetable.line lineIndex
      return .ride line.patternIndex trip.schedule (line.serviceDate trip) boardPosition
        debarkPosition (line.stopAt boardPosition) node.stop boardTime
        (← debarkTime line trip debarkPosition)

def legsFrom (c : Context) (tree : JourneyTree) (egress : Nat) :
    SearchTime → List NodeIndex → Option (List Journey.Leg)
  | time, [] => do
      let leg := c.query.egress.leg egress
      return [.egress egress leg.stop time (← add time leg.duration)]
  | time, index :: rest => do
      let leg ← legOf c tree time index
      return leg :: (← legsFrom c tree egress leg.arrival rest)

def ofArrived (c : Context) (tree : JourneyTree) (arrived : Arrived × ArrivalCriteria) :
    Option Journey := do
  return {
    legs := ← legsFrom c tree arrived.1.egress arrived.2.departure (tree.lineage arrived.1.node)
    departure := arrived.2.departure
    arrival := arrived.2.arrival
    nbOfTransfers := arrived.2.nbOfTransfers
    cost := arrived.2.cost }

def extract (c : Context) (s : SearchState) (walkOnly : Bool) : Option (List Journey) := do
  return (← s.arrived.mapM (ofArrived c s.tree)).filter (Journey.isSound walkOnly)

def itineraryOf (layer : Layer) (access egress : StreetLegs) (searchDate : Date)
    (journey : Journey) : Option Itinerary := do
  return {
    departure := journey.departure.toDateTime searchDate
    arrival := journey.arrival.toDateTime searchDate
    duration := ← since journey.arrival journey.departure
    nbOfTransfers := journey.nbOfTransfers
    cost := journey.cost
    legs := journey.legs.map (Itinerary.legOf layer access egress searchDate) }

/-- The answer to a request, once it is accepted. -/
def answer (r : Request) (layer : Layer) (c : Context) (isOver : Checks) : Option Response := do
  let outcome ← run c isOver
  let journeys ← extract c outcome.state (c.query.maxBoardings == 0)
  return {
    itineraries := ← (Journey.distinct journeys).mapM
      (itineraryOf layer c.query.access c.query.egress r.departure.date)
    truncated := outcome.truncated
    stats := outcome.stats }

variable {c : Context} {s : SearchState}

theorem legOf_eq (near : c.IsNear) {tree : JourneyTree} {time : SearchTime} {index : NodeIndex}
    (nearStart : (Journey.legOf c tree time index).departure.IsNear) :
    legOf c tree time index = some (Journey.legOf c tree time index) := by
  rw [legOf]
  simp only [Journey.legOf] at nearStart ⊢
  cases step : (tree.node index).step with
  | access leg =>
      rw [step] at nearStart
      have nearStart : time.IsNear := nearStart
      simp only [add_eq nearStart, Option.bind_eq_bind, Option.bind_some]
      rfl
  | walk parent footpath duration =>
      rw [step] at nearStart
      have nearStart : time.IsNear := nearStart
      simp only [add_eq nearStart, Option.bind_eq_bind, Option.bind_some]
      rfl
  | ride parent line trip boardPosition boardTime debarkPosition =>
      simp only [debarkTime_eq (near.scanned line), Option.bind_eq_bind, Option.bind_some]
      rfl

theorem legsFrom_eq (near : c.IsNear) {tree : JourneyTree} {egress : Nat} {nodes : List NodeIndex}
    {time : SearchTime}
    (nearStarts : ∀ leg ∈ Journey.legsFrom c tree egress time nodes, leg.departure.IsNear) :
    legsFrom c tree egress time nodes = some (Journey.legsFrom c tree egress time nodes) := by
  induction nodes generalizing time with
  | nil =>
      have nearStart : time.IsNear := nearStarts _ List.mem_cons_self
      rw [legsFrom, add_eq nearStart]
      rfl
  | cons index rest ih =>
      obtain ⟨first, others⟩ := List.forall_mem_cons.1 nearStarts
      rw [legsFrom, legOf_eq near first]
      simp only [Option.bind_eq_bind, Option.bind_some, ih others]
      rfl

theorem isNear_arrived (near : c.IsNear) (h : Consistent c s)
    {arrived : Arrived × ArrivalCriteria} (member : arrived ∈ s.arrived) :
    arrived.2.departure.IsNear ∧ arrived.2.arrival.IsNear ∧
      arrived.2.departure ≤ arrived.2.arrival := by
  obtain ⟨leg, arrival⟩ := h.arrived arrived member
  have timely := isTimely near.regular h.follows _ arrival.older
  have stop := isNear_arrival near timely
  have last := (latestOf_bounds near (s.tree.iteration arrived.1.node)).2
  have inTime : arrived.2.arrival.seconds ≤ _ := arrival.inTime
  have later := le_add (clampWord_of_isNear stop) leg.duration
  rw [arrival.criteria_eq, arrivalBy] at inTime ⊢
  rw [SearchTime.le_def] at later
  exact ⟨isNear_departure near timely, ⟨Int.le_trans stop.1 later, by omega⟩,
    Int.le_trans timely.forward later⟩

theorem ofArrived_eq (near : c.IsNear) (h : Consistent c s)
    {arrived : Arrived × ArrivalCriteria} (member : arrived ∈ s.arrived) :
    ofArrived c s.tree arrived = some (Journey.ofArrived c s.tree arrived) := by
  have found : Journey.ofArrived c s.tree arrived ∈
      Journey.extract c s (c.query.maxBoardings == 0) := by
    rw [Journey.extract_eq h near.regular]
    exact List.mem_map_of_mem member
  obtain ⟨leaves, arrives, -⟩ := isNear_arrived near h member
  have nearStarts : ∀ leg ∈ (Journey.ofArrived c s.tree arrived).legs, leg.departure.IsNear := by
    intro leg among
    have forward : leg.departure ≤ leg.arrival :=
      Journey.forward_of_mem_extract h near.regular found among
    obtain ⟨after, before⟩ := Journey.between_of_mem_extract h near.regular found among
    exact ⟨Int.le_trans leaves.1 after, Int.le_trans (Int.le_trans forward before) arrives.2⟩
  rw [ofArrived, legsFrom_eq near nearStarts]
  rfl

theorem extract_eq (near : c.IsNear) (h : Consistent c s) (walkOnly : Bool) :
    extract c s walkOnly = some (Journey.extract c s walkOnly) := by
  rw [extract, Checked.mapM_eq fun arrived member => ofArrived_eq near h member]
  rfl

theorem answer_eq (near : c.IsNear) (r : Request) (layer : Layer) (isOver : Checks) :
    answer r layer c isOver = some (r.response layer c (Search.run c isOver)) := by
  let outcome := Search.run c isOver
  have consistent : Consistent c outcome.state := consistent_run c isOver
  have shown : (Request.journeys c outcome).mapM
        (itineraryOf layer c.query.access c.query.egress r.departure.date) =
      some (r.response layer c outcome).itineraries := by
    refine Checked.mapM_eq fun j member => ?_
    have extracted := (List.mem_filter.1 (Journey.mem_of_mem_distinct member)).1
    obtain ⟨arrived, found, rfl⟩ := List.mem_map.1 extracted
    obtain ⟨leaves, arrives, forward⟩ := isNear_arrived near consistent found
    rw [itineraryOf, Journey.ofArrived, since_eq arrives leaves forward]
    rfl
  simp only [Request.journeys] at shown
  simp only [answer, run_eq near, Option.bind_eq_bind, Option.bind_some]
  rw [extract_eq near consistent, Option.bind_some, shown]
  rfl

end Exact

theorem Line.IsLineOf.isScanned {line : Line} {layer : Layer} {date : Date} {dayRange : Nat}
    {filters : PatternFilters} (h : line.IsLineOf layer date dayRange filters)
    (few : dayRange ≤ maxDayRange) : line.IsScanned := by
  refine Line.isScanned_of_days fun index inside => ?_
  obtain ⟨k, scanned, -, offset⟩ := (h.days index inside).exists_offset
  obtain ⟨n, among, rfl⟩ := List.mem_map.1 scanned
  have less := List.mem_range.1 among
  simp only [maxDayRange] at few
  simp only [secondsPerDay] at offset
  exact ⟨by omega, by omega⟩

theorem Request.isNear {network : Network} {layer : Layer} {r : Request} {c : Context}
    (built : Layer.build network = .ok layer) (accepted : r.context layer = .ok c) : c.IsNear := by
  obtain ⟨spec, few, -, query⟩ := context_spec accepted
  refine ⟨isRegular built accepted, fun index => ?_, ?_⟩
  · by_cases known : index < c.timetable.nbOfLines
    · exact (spec.lines index known).isScanned few
    · rw [Timetable.line_of_nbOfLines_le (Nat.not_lt.1 known)]
      exact Line.isScanned_of_days fun _ inside => absurd inside (Nat.not_lt_zero _)
  · rw [query]
    exact ⟨Int.natCast_nonneg _, Int.ofNat_lt.2 r.departure.second_lt⟩

theorem Exact.ordered_of_mem_stages {c : Context} (near : c.IsNear) {stage : Stage}
    (member : stage ∈ stages c) {i : NodeIndex} (inside : i < stage.state.tree.size) :
    c.query.earliestDeparture ≤ (stage.state.tree.node i).departure ∧
      (stage.state.tree.node i).departure ≤ (stage.state.tree.node i).criteria.arrival := by
  obtain ⟨s, reached, same⟩ := (isStage_of_mem_stages member).exists_tree_eq
  rw [← same] at inside ⊢
  have timely := isTimely near.regular reached.consistent.follows i inside
  have tried := Nat.le_trans (reached.consistent.past i inside) reached.iteration_le
  have first := earliestDeparture_le_departureOf (clampWord_of_isNear near.isNear_earliest) tried
  exact ⟨Int.le_trans first timely.starts, timely.forward⟩

/-- No time is cut off on the way to an answer, whenever the time of the request is over. Each sum and
each difference of times that the search and the reading of its journeys form, also for candidates
that are thrown away, is an integer less than `2 ^ 30` away from zero, no duration is counted from a
later time on, and the answer is the one computed with these integers. At every stage of the search
each node leaves no earlier than requested and arrives no earlier than it leaves. -/
theorem Layer.exact_times_route {network : Network} {layer : Layer} {r : Request} {clock : Clock}
    {response : Response} (built : Layer.build network = .ok layer)
    (answered : layer.route r clock = .ok response) :
    ∃ c, r.context layer = .ok c ∧
      Exact.answer r layer c (r.isOver clock) = some response ∧
        .settled (run c (r.isOver clock)).state ∈ stages c ∧
          ∀ stage ∈ stages c, ∀ i < stage.state.tree.size,
            (r.departure.second : Int) ≤ (stage.state.tree.node i).departure.seconds ∧
              (stage.state.tree.node i).departure ≤ (stage.state.tree.node i).criteria.arrival := by
  obtain ⟨c, accepted, answered⟩ := bind_eq_ok.1 answered
  cases answered
  have near := Request.isNear built accepted
  obtain ⟨-, -, -, query⟩ := Request.context_spec accepted
  have first : c.query.earliestDeparture.seconds = r.departure.second := by rw [query]; rfl
  refine ⟨c, accepted, Exact.answer_eq near r layer _, run_mem_stages c _,
    fun stage member i inside => ?_⟩
  rw [← first]
  exact Exact.ordered_of_mem_stages near member inside

theorem Layer.exact_times_route_relay : ∃ layer response c, Layer.build .relay = .ok layer ∧
    Request.hurriedRelay.context layer = .ok c ∧
      layer.route Request.hurriedRelay .ticking = .ok response ∧
        response.truncated = true ∧ response.itineraries ≠ [] ∧
          Exact.answer Request.hurriedRelay layer c (Request.hurriedRelay.isOver .ticking) =
            some response ∧
          ∀ i < (run c (Request.hurriedRelay.isOver .ticking)).state.tree.size,
            let node := (run c (Request.hurriedRelay.isOver .ticking)).state.tree.node i
            (30000 : Int) ≤ node.departure.seconds ∧ node.departure ≤ node.criteria.arrival := by
  obtain ⟨layer, c, response, i, built, accepted, answered, truncated, -, member, -⟩ :=
    Request.exists_answer_hurriedRelay
  obtain ⟨d, acceptedToo, exact, ends, ordered⟩ := Layer.exact_times_route built answered
  cases accepted.symm.trans acceptedToo
  exact ⟨layer, response, c, built, accepted, answered, truncated, List.ne_nil_of_mem member, exact,
    ordered _ ends⟩

end JourneyPlanner
