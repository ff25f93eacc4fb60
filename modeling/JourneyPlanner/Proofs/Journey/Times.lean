import JourneyPlanner.Proofs.Journey.Rebuilt
import JourneyPlanner.Proofs.Request.StreetLegs
import JourneyPlanner.Proofs.Search.Run
import JourneyPlanner.Proofs.Timetable.Trips

/-!
The times of rebuilt legs. A journey that has not been on a vehicle keeps the departure of its
iteration, so its legs can be moved to a later departure as a whole; the first vehicle moves them so
that they end when it is boarded. From then on the legs end at the arrival that the node has. No sum
of times is cut off on the way, since all departures and durations are a few days at most.
-/

namespace JourneyPlanner.Journey

open Search

/-- A search on a regular timetable, that starts in the week after its first day. -/
structure IsRegular (c : Context) : Prop where
  timetable : c.timetable.IsRegular
  notBefore : ∀ iteration, 0 ≤ (departureOf c iteration).seconds
  notAfter : ∀ iteration, (departureOf c iteration).seconds < secondsPerDay + maxSearchSeconds

/-- The time a journey without vehicles takes to a node. -/
def elapsed (node : Node) : Int :=
  node.criteria.arrival.seconds - node.departure.seconds

/-- What the times of a node are. -/
structure IsTimed (c : Context) (node : Node) : Prop where
  inRange : clampWord node.criteria.arrival.seconds = node.criteria.arrival.seconds
  departure : node.criteria.nbOfTrips = 0 → node.departure = departureOf c node.iteration
  notNegative : node.criteria.nbOfTrips = 0 → 0 ≤ elapsed node
  short : node.criteria.nbOfTrips = 0 → elapsed node ≤ maxSearchSeconds

/-- The legs of a node end at its arrival; without vehicles they can start at another time. -/
structure IsRebuilt (c : Context) (tree : JourneyTree) (i : NodeIndex) : Prop where
  timed : IsTimed c (tree.node i)
  legs : Rebuilds c tree i (tree.node i).departure (tree.node i).criteria.arrival
  moved : (tree.node i).criteria.nbOfTrips = 0 → ∀ time : SearchTime, 0 ≤ time.seconds →
    time.seconds + elapsed (tree.node i) ≤ 2147483647 →
      Rebuilds c tree i time ⟨time.seconds + elapsed (tree.node i)⟩

variable {c : Context} {tree : JourneyTree} {i : NodeIndex}

theorem clampWord_clampWord (n : Int) : clampWord (clampWord n) = clampWord n := by
  simp only [clampWord]
  omega

theorem IsTimed.arrival_eq {node : Node} (start : SearchTime) :
    node.criteria.arrival = ⟨start.seconds + elapsed node⟩ ↔ node.departure.seconds =
      start.seconds := by
  rw [SearchTime.ext_iff, elapsed]
  constructor
  · intro h
    simp only at h
    omega
  · intro h
    simp only
    omega

theorem IsRebuilt.of_moved (regular : IsRegular c) (timed : IsTimed c (tree.node i))
    (direct : (tree.node i).criteria.nbOfTrips = 0)
    (moved : ∀ time : SearchTime, 0 ≤ time.seconds →
      time.seconds + elapsed (tree.node i) ≤ 2147483647 →
        Rebuilds c tree i time ⟨time.seconds + elapsed (tree.node i)⟩) :
    IsRebuilt c tree i := by
  refine ⟨timed, ?_, fun _ => moved⟩
  have start := regular.notBefore (tree.node i).iteration
  have bound := regular.notAfter (tree.node i).iteration
  have short := timed.short direct
  rw [← timed.departure direct] at start bound
  simp only [secondsPerDay, maxSearchSeconds] at bound short
  have legs := moved (tree.node i).departure start (by omega)
  rwa [← (IsTimed.arrival_eq _).2 rfl] at legs

theorem elapsed_le_of_latestOf {arrival : SearchTime} (regular : IsRegular c) {iteration : Nat}
    (inTime : arrival ≤ latestOf c iteration) :
    arrival.seconds - (departureOf c iteration).seconds ≤ maxSearchSeconds := by
  have start := regular.notBefore iteration
  have bound := regular.notAfter iteration
  have inTime : arrival.seconds ≤ (latestOf c iteration).seconds := inTime
  simp only [latestOf, latestArrival, SearchTime.seconds_add, clampWord, Duration.step,
    maxSearchSeconds, secondsPerDay] at inTime bound ⊢
  omega

theorem seconds_add_of_inTime (regular : IsRegular c) {iteration : Nat} {time : SearchTime}
    {d : Duration} (inRange : clampWord time.seconds = time.seconds)
    (inTime : time + d ≤ latestOf c iteration) :
    (time + d).seconds = time.seconds + d.step := by
  have bound := regular.notAfter iteration
  have inTime : clampWord (time.seconds + d.step) ≤ (latestOf c iteration).seconds := inTime
  simp only [latestOf, latestArrival, SearchTime.seconds_add, clampWord, Duration.step,
    maxSearchSeconds, secondsPerDay] at *
  omega

theorem isRebuilt_access (regular : IsRegular c) {index : Nat} {leg : StreetLeg} {iteration : Nat}
    (known : c.query.access.legs[index]? = some leg)
    (inTime : departureOf c iteration + leg.duration ≤ latestOf c iteration)
    (equal : tree.node i = JourneyTree.accessNode index leg.stop
      ⟨departureOf c iteration + leg.duration, 0, c.query.legCost leg⟩
      (departureOf c iteration) iteration) :
    IsRebuilt c tree i := by
  have start := regular.notBefore iteration
  have bound := regular.notAfter iteration
  have sameLeg : c.query.access.leg index = leg := StreetLegs.leg_of_getElem? known
  have sum : elapsed (tree.node i) = leg.duration.step := by
    rw [equal, elapsed]
    simp only [JourneyTree.accessNode, SearchTime.seconds_add, clampWord, Duration.step,
      maxSearchSeconds, secondsPerDay] at bound ⊢
    omega
  have direct : (tree.node i).criteria.nbOfTrips = 0 := by rw [equal]; rfl
  have timed : IsTimed c (tree.node i) := by
    refine ⟨?_, ?_, ?_, ?_⟩
    · rw [equal]
      exact clampWord_clampWord _
    · intro _
      rw [equal]
      rfl
    · intro _
      rw [sum]
      exact Int.natCast_nonneg _
    · intro _
      rw [equal]
      exact elapsed_le_of_latestOf regular inTime
  refine IsRebuilt.of_moved regular timed direct fun time positive within => ?_
  have step : (tree.node i).step = .access index := by rw [equal]; rfl
  have ends : (time + leg.duration).seconds = time.seconds + leg.duration.step := by
    rw [sum] at within
    exact clampWord_of_bounds (by omega) within
  have made : legOf c tree time i = .access index leg.stop time (time + leg.duration) := by
    simp only [legOf, equal, JourneyTree.accessNode, sameLeg]
  have lasts : (legOf c tree time i).Lasts c := by
    rw [made]
    exact fun _ => ⟨_, .access known, ends⟩
  have legs : Rebuilds c tree i time _ := Rebuilds.access step direct lasts
  have sameEnd : time + (c.query.access.leg index).duration =
      ⟨time.seconds + elapsed (tree.node i)⟩ := by
    rw [sameLeg, SearchTime.ext_iff, ends, sum]
  rwa [sameEnd] at legs

theorem isRebuilt_walk (regular : IsRegular c) {parent : NodeIndex} {walk : Walk}
    (older : parent < i) (rested : (tree.node parent).step.isWalk = false)
    (known : walk ∈ c.timetable.walksFrom (tree.node parent).stop)
    (inTime : (walkCriteria c (tree.node parent).criteria walk).arrival ≤
      latestOf c (tree.iteration parent))
    (equal : tree.node i = tree.walkNode parent walk.footpath walk.duration walk.target
      (walkCriteria c (tree.node parent).criteria walk) (tree.iteration parent))
    (before : IsRebuilt c tree parent) : IsRebuilt c tree i := by
  have step : (tree.node i).step = .walk parent walk.footpath walk.duration := by rw [equal]; rfl
  have trips : (tree.node i).criteria.nbOfTrips = (tree.node parent).criteria.nbOfTrips := by
    rw [equal]
    rfl
  have departure : (tree.node i).departure = (tree.node parent).departure := by rw [equal]; rfl
  have arrival : (tree.node i).criteria.arrival =
      (tree.node parent).criteria.arrival + walk.duration := by
    rw [equal]
    rfl
  have inRange : clampWord (tree.node i).criteria.arrival.seconds =
      (tree.node i).criteria.arrival.seconds := by
    rw [arrival]
    exact clampWord_clampWord _
  have lasts {start : SearchTime}
      (ends : (start + walk.duration).seconds = start.seconds + walk.duration.step) :
      (legOf c tree start i).Lasts c := by
    have made : legOf c tree start i = .walk walk.footpath (tree.node parent).stop walk.target start
        (start + walk.duration) := by
      simp only [legOf, equal, JourneyTree.walkNode]
    rw [made]
    exact fun _ => ⟨_, .walk known, ends⟩
  by_cases direct : (tree.node i).criteria.nbOfTrips = 0
  · have sameDeparture := before.timed.departure (trips ▸ direct)
    have notNegative := before.timed.notNegative (trips ▸ direct)
    have short := before.timed.short (trips ▸ direct)
    have start := regular.notBefore (tree.node parent).iteration
    have bound := regular.notAfter (tree.node parent).iteration
    rw [← sameDeparture] at start bound
    -- The walk is not cut off, so its end moves with its beginning.
    have sum : elapsed (tree.node i) = elapsed (tree.node parent) + walk.duration.step := by
      have step_le : walk.duration.step ≤ maxSearchSeconds := Nat.min_le_right _ _
      simp only [elapsed, secondsPerDay, maxSearchSeconds] at bound notNegative short step_le
      rw [elapsed, elapsed, arrival, departure, SearchTime.seconds_add,
        clampWord_of_bounds (by omega) (by omega)]
      omega
    have timed : IsTimed c (tree.node i) := by
      refine ⟨inRange, fun _ => ?_, fun _ => by omega, fun _ => ?_⟩
      · rw [departure, sameDeparture, equal]
        rfl
      · rw [elapsed, departure, sameDeparture, equal]
        exact elapsed_le_of_latestOf regular inTime
    refine IsRebuilt.of_moved regular timed direct fun time positive within => ?_
    have moved := before.moved (trips ▸ direct) time positive (by omega)
    have ends : ((⟨time.seconds + elapsed (tree.node parent)⟩ : SearchTime) +
        walk.duration).seconds = time.seconds + elapsed (tree.node parent) + walk.duration.step := by
      rw [sum] at within
      change clampWord (time.seconds + elapsed (tree.node parent) + walk.duration.step) = _
      exact clampWord_of_bounds (by omega) (by omega)
    have legs := moved.walk step older rested (lasts ends) trips
    have sameEnd : (⟨time.seconds + elapsed (tree.node parent)⟩ : SearchTime) + walk.duration =
        ⟨time.seconds + elapsed (tree.node i)⟩ := by
      rw [SearchTime.ext_iff, ends, sum, Int.add_assoc]
    rwa [sameEnd] at legs
  · refine ⟨⟨inRange, fun h => absurd h direct, fun h => absurd h direct,
      fun h => absurd h direct⟩, ?_, fun h => absurd h direct⟩
    rw [departure, arrival]
    exact before.legs.walk step older rested
      (lasts (seconds_add_of_inTime regular before.timed.inRange inTime)) trips

theorem arrival_le_readyTime {q : Query} {criteria : Criteria}
    (inRange : clampWord criteria.arrival.seconds = criteria.arrival.seconds) :
    criteria.arrival ≤ q.readyTime criteria ∧
      clampWord (q.readyTime criteria).seconds = (q.readyTime criteria).seconds := by
  simp only [Query.readyTime]
  split
  · refine ⟨?_, clampWord_clampWord _⟩
    rw [SearchTime.le_def, SearchTime.seconds_add]
    have later := clampWord_mono (m := criteria.arrival.seconds)
      (n := criteria.arrival.seconds + q.minTransferTime.step) (by omega)
    omega
  · exact ⟨Int.le_refl _, inRange⟩

theorem departure_of_board {line : Line} {position : Nat} {label : NodeIndex × Criteria}
    {o : Onboard} (boarded : board c line position tree label = some o) :
    o.departure = if 0 < label.2.nbOfTrips then (tree.node label.1).departure
      else o.boardTime - label.2.arrival.sinceOrZero (tree.node label.1).departure := by
  obtain ⟨trip, time, -, rfl⟩ := board_eq_some boarded
  rfl

theorem IsTimed.readyTime_le {parent : NodeIndex} (timed : IsTimed c (tree.node parent))
    {line : Line} {position : Nat} {o : Onboard}
    (boarded : board c line position tree (parent, (tree.node parent).criteria) = some o) :
    c.query.readyTime (tree.node parent).criteria ≤ o.boardTime ∧
      clampWord o.boardTime.seconds = o.boardTime.seconds := by
  obtain ⟨trip, time, earliest, boarding⟩ := board_eq_some boarded
  have boardTime : o.boardTime = time := by rw [boarding]
  obtain ⟨boards, timeEq⟩ := Line.earliestTrip_spec earliest
  obtain ⟨-, readyInRange⟩ := arrival_le_readyTime (q := c.query) timed.inRange
  rw [boardTime, timeEq]
  exact ⟨boards.waiting_le readyInRange, clampWord_clampWord _⟩

theorem IsTimed.seconds_moved (regular : IsRegular c) {node : Node} (timed : IsTimed c node)
    (direct : node.criteria.nbOfTrips = 0) {boardTime : SearchTime}
    (boarded : node.criteria.arrival ≤ boardTime)
    (inRange : clampWord boardTime.seconds = boardTime.seconds) :
    (boardTime - node.criteria.arrival.sinceOrZero node.departure).seconds =
      boardTime.seconds - elapsed node := by
  have notNegative := timed.notNegative direct
  have short := timed.short direct
  have start := regular.notBefore node.iteration
  rw [← timed.departure direct] at start
  have boarded : node.criteria.arrival.seconds ≤ boardTime.seconds := boarded
  have top : boardTime.seconds ≤ 2147483647 := by
    simp only [clampWord] at inRange
    omega
  have walked : (node.criteria.arrival.sinceOrZero node.departure).step = elapsed node := by
    simp only [elapsed, maxSearchSeconds] at notNegative short ⊢
    simp only [SearchTime.sinceOrZero, SearchTime.since]
    rw [if_pos ⟨notNegative, by omega⟩, Option.getD_some, Duration.step,
      Duration.seconds_ofSeconds, maxSearchSeconds]
    omega
  rw [SearchTime.seconds_sub, walked]
  simp only [elapsed] at notNegative ⊢
  exact clampWord_of_bounds (by omega) (by omega)

theorem rebuilds_at_board (regular : IsRegular c) {parent : NodeIndex}
    (before : IsRebuilt c tree parent) {boardTime : SearchTime}
    (boarded : (tree.node parent).criteria.arrival ≤ boardTime)
    (inRange : clampWord boardTime.seconds = boardTime.seconds) :
    ∃ finish, Rebuilds c tree parent
        (if 0 < (tree.node parent).criteria.nbOfTrips then (tree.node parent).departure
          else boardTime - (tree.node parent).criteria.arrival.sinceOrZero
            (tree.node parent).departure) finish ∧
      finish ≤ boardTime ∧ ((tree.node parent).criteria.nbOfTrips = 0 → finish = boardTime) := by
  by_cases ridden : 0 < (tree.node parent).criteria.nbOfTrips
  · rw [if_pos ridden]
    exact ⟨_, before.legs, boarded, fun none => absurd ridden (by omega)⟩
  · have direct : (tree.node parent).criteria.nbOfTrips = 0 := by omega
    have start := regular.notBefore (tree.node parent).iteration
    rw [← before.timed.departure direct] at start
    have moved := before.timed.seconds_moved regular direct boarded inRange
    have boarded : (tree.node parent).criteria.arrival.seconds ≤ boardTime.seconds := boarded
    have top : boardTime.seconds ≤ 2147483647 := by
      simp only [clampWord] at inRange
      omega
    have legs := before.moved direct (boardTime - (tree.node parent).criteria.arrival.sinceOrZero
      (tree.node parent).departure) (by rw [moved, elapsed]; omega) (by rw [moved]; omega)
    have finish : (⟨(boardTime - (tree.node parent).criteria.arrival.sinceOrZero
        (tree.node parent).departure).seconds + elapsed (tree.node parent)⟩ : SearchTime) =
          boardTime := by
      apply SearchTime.ext
      simp only [moved]
      omega
    rw [finish] at legs
    rw [if_neg ridden]
    exact ⟨boardTime, legs, Int.le_refl _, fun _ => rfl⟩

theorem boardTime_le_debarkTime (regular : IsRegular c) {line : LineIndex} {o : Onboard}
    {label : NodeIndex × Criteria}
    (boarded : board c (c.timetable.line line) o.boardPosition tree label = some o)
    {position : Nat} (ahead : o.boardPosition < position)
    (inside : position < (c.timetable.line line).nbOfPositions) :
    o.boardTime ≤ (c.timetable.line line).debarkTime o.trip position := by
  obtain ⟨trip, time, earliest, boarding⟩ := board_eq_some boarded
  obtain ⟨boards, equal⟩ := Line.earliestTrip_spec earliest
  have boardTime : o.boardTime = time := by rw [boarding]
  have sameTrip : o.trip = trip := by rw [boarding]
  rw [boardTime, equal, sameTrip]
  exact regular.timetable.forward line (Timetable.lt_nbOfLines inside) _ _ _ boards position ahead
    inside

theorem isRebuilt_ride (regular : IsRegular c) {line : LineIndex} {o : Onboard} {position : Nat}
    (older : o.parent < i)
    (boarded : board c (c.timetable.line line) o.boardPosition tree
      (o.parent, (tree.node o.parent).criteria) = some o)
    (atStop : (c.timetable.line line).stopAt o.boardPosition = (tree.node o.parent).stop)
    (ahead : o.boardPosition < position)
    (inside : position < (c.timetable.line line).nbOfPositions)
    (equal : tree.node i = rideNode c line (tree.iteration o.parent) o position)
    (before : IsRebuilt c tree o.parent) : IsRebuilt c tree i := by
  have step : (tree.node i).step =
      .ride o.parent line o.trip o.boardPosition o.boardTime position := by
    rw [equal]
    rfl
  obtain ⟨_, _, -, boarding⟩ := board_eq_some boarded
  have trips : o.nbOfTrips = (tree.node o.parent).criteria.nbOfTrips + 1 :=
    congrArg Onboard.nbOfTrips boarding
  obtain ⟨ready, -⟩ := arrival_le_readyTime (q := c.query) before.timed.inRange
  obtain ⟨waited, timeInRange⟩ := before.timed.readyTime_le boarded
  obtain ⟨finish, legs, finished, atOnce⟩ :=
    rebuilds_at_board regular before (Int.le_trans ready waited) timeInRange
  rw [← departure_of_board boarded] at legs
  have forward := boardTime_le_debarkTime regular boarded ahead inside
  have inRange : clampWord (tree.node i).criteria.arrival.seconds =
      (tree.node i).criteria.arrival.seconds := by
    rw [equal]
    exact clampWord_clampWord _
  have someTrips : (tree.node i).criteria.nbOfTrips =
      (tree.node o.parent).criteria.nbOfTrips + 1 := by
    rw [equal]
    exact trips
  have vehicle : (tree.node i).criteria.nbOfTrips ≠ 0 := by omega
  refine ⟨⟨inRange, fun h => absurd h vehicle, fun h => absurd h vehicle,
    fun h => absurd h vehicle⟩, ?_, fun h => absurd h vehicle⟩
  have sameDeparture : (tree.node i).departure = o.departure := by rw [equal]; rfl
  have sameArrival : (tree.node i).criteria.arrival =
      (c.timetable.line line).debarkTime o.trip position := by
    rw [equal]
    rfl
  rw [sameDeparture, sameArrival]
  exact legs.ride step older atStop finished atOnce ahead forward someTrips

theorem isRebuilt (regular : IsRegular c)
    (follows : ∀ i < tree.size, Follows c tree i (tree.node i)) :
    ∀ i < tree.size, IsRebuilt c tree i := by
  intro i
  induction i using Nat.strongRecOn with
  | ind i ih =>
      intro inside
      generalize equal : tree.node i = node
      have node_follows := follows i inside
      rw [equal] at node_follows
      cases node_follows with
      | access known inTime => exact isRebuilt_access regular known inTime equal
      | walk older rested known inTime =>
          have before := ih _ older (Nat.lt_trans older inside)
          exact isRebuilt_walk regular older rested known inTime equal before
      | ride older boarded atStop ahead within inTime =>
          have before := ih _ older (Nat.lt_trans older inside)
          exact isRebuilt_ride regular older boarded atStop ahead within equal before

end JourneyPlanner.Journey
