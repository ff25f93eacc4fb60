import JourneyPlanner.Journey.Extract
import JourneyPlanner.Proofs.Journey.Legs
import JourneyPlanner.Proofs.Search.Trace

/-!
The legs of a node, read off its lineage, when its journey leaves the origin at some time. They grow
at the end: the legs of a node are those of its parent and one more, which starts where and when the
legs of the parent end.
-/

namespace JourneyPlanner

namespace Journey

open Search

/-- The legs of some nodes that follow each other, from a given time on. -/
def legsOf (c : Context) (tree : JourneyTree) : SearchTime → List NodeIndex → List Leg
  | _, [] => []
  | time, index :: rest =>
      let leg := legOf c tree time index
      leg :: legsOf c tree leg.arrival rest

/-- When these legs end. -/
def finishOf (c : Context) (tree : JourneyTree) (time : SearchTime) (nodes : List NodeIndex) :
    SearchTime :=
  nodes.foldl (fun time index => (legOf c tree time index).arrival) time

/-- The leg to the destination. -/
def egressOf (c : Context) (egress : Nat) (time : SearchTime) : Leg :=
  let leg := c.query.egress.leg egress
  .egress egress leg.stop time (time + leg.duration)

/-- How long a leg on foot takes, by the leg of the search or the footpath that it is. -/
inductive Leg.Takes (c : Context) : Leg → Duration → Prop
  | access {index : Nat} {leg : StreetLeg} {departure arrival : SearchTime}
      (known : c.query.access.legs[index]? = some leg) :
      Leg.Takes c (.access index leg.stop departure arrival) leg.duration
  | walk {source : StopIndex} {w : Walk} {departure arrival : SearchTime}
      (known : w ∈ c.timetable.walksFrom source) :
      Leg.Takes c (.walk w.footpath source w.target departure arrival) w.duration
  | egress {index : Nat} {leg : StreetLeg} {departure arrival : SearchTime}
      (known : c.query.egress.legs[index]? = some leg) :
      Leg.Takes c (.egress index leg.stop departure arrival) leg.duration

/-- Between the ends of a leg on foot lie the seconds that its duration adds to a time. -/
def Leg.Lasts (c : Context) (leg : Leg) : Prop :=
  leg.isRide = false → ∃ duration, leg.Takes c duration ∧
    leg.arrival.seconds = leg.departure.seconds + duration.step

section

variable (c : Context) (tree : JourneyTree) (time : SearchTime)

theorem legsFrom_eq (egress : Nat) (nodes : List NodeIndex) :
    legsFrom c tree egress time nodes =
      legsOf c tree time nodes ++ [egressOf c egress (finishOf c tree time nodes)] := by
  induction nodes generalizing time with
  | nil => rfl
  | cons index rest ih =>
      rw [legsFrom, ih]
      rfl

theorem legsOf_concat (nodes : List NodeIndex) (index : NodeIndex) :
    legsOf c tree time (nodes ++ [index]) =
      legsOf c tree time nodes ++ [legOf c tree (finishOf c tree time nodes) index] := by
  induction nodes generalizing time with
  | nil => rfl
  | cons first rest ih =>
      rw [List.cons_append, legsOf, ih]
      rfl

theorem finishOf_concat (nodes : List NodeIndex) (index : NodeIndex) :
    finishOf c tree time (nodes ++ [index]) =
      (legOf c tree (finishOf c tree time nodes) index).arrival := by
  rw [finishOf, List.foldl_append]
  rfl

theorem endStop?_legOf (index : NodeIndex) :
    (legOf c tree time index).endStop? = some (tree.node index).stop := by
  simp only [legOf]
  cases (tree.node index).step <;> rfl

theorem isRide_legOf (index : NodeIndex) :
    (legOf c tree time index).isRide = (tree.node index).step.isRide := by
  simp only [legOf]
  cases (tree.node index).step <;> rfl

theorem isWalk_legOf (index : NodeIndex) :
    (legOf c tree time index).isWalk = (tree.node index).step.isWalk := by
  simp only [legOf]
  cases (tree.node index).step <;> rfl

end

/-- The legs of a node that leaves the origin at `time` join and end at `finish`. -/
structure Rebuilds (c : Context) (tree : JourneyTree) (index : NodeIndex)
    (time finish : SearchTime) : Prop where
  finish_eq : finishOf c tree time (tree.lineage index) = finish
  parts : ∃ access rest, legsOf c tree time (tree.lineage index) = access :: rest ∧
    access.isAccess = true ∧ access.departure = time ∧
      ∀ leg ∈ rest, leg.isRide = true ∨ leg.isWalk = true
  last : ∃ before start,
    legsOf c tree time (tree.lineage index) = before ++ [legOf c tree start index] ∧
      (legOf c tree start index).arrival = finish
  joined : Joined (legsOf c tree time (tree.lineage index))
  forward : ∀ leg ∈ legsOf c tree time (tree.lineage index), leg.isBackward = false
  lasting : ∀ leg ∈ legsOf c tree time (tree.lineage index), leg.Lasts c
  ridden : (legsOf c tree time (tree.lineage index)).any Leg.isRide =
    decide (0 < (tree.node index).criteria.nbOfTrips)

variable {c : Context} {tree : JourneyTree} {index parent : NodeIndex} {time finish : SearchTime}

theorem Rebuilds.access {leg : Nat} (step : (tree.node index).step = .access leg)
    (trips : (tree.node index).criteria.nbOfTrips = 0) {time : SearchTime}
    (lasts : (legOf c tree time index).Lasts c) :
    Rebuilds c tree index time (time + (c.query.access.leg leg).duration) := by
  have first : tree.parent? index = none := by rw [JourneyTree.parent?, step]; rfl
  have made : legOf c tree time index = .access leg (tree.node index).stop time
      (time + (c.query.access.leg leg).duration) := by
    simp only [legOf, step]
  have legs : legsOf c tree time (tree.lineage index) = [legOf c tree time index] := by
    rw [JourneyTree.lineage_of_first first]
    rfl
  refine ⟨?_, ?_, ⟨[], time, legs, ?_⟩, ?_, ?_, ?_, ?_⟩
  · rw [JourneyTree.lineage_of_first first]
    change (legOf c tree time index).arrival = _
    rw [made]
    rfl
  · refine ⟨_, [], legs, ?_, ?_, ?_⟩
    · rw [made]
      rfl
    · rw [made]
      rfl
    · intro leg none
      cases none
  · rw [made]
    rfl
  · rw [legs]
    exact joined_singleton _
  · intro leg member
    rw [legs, List.mem_singleton] at member
    rw [member, made]
    rfl
  · intro leg member
    rw [legs, List.mem_singleton] at member
    rw [member]
    exact lasts
  · rw [legs, made, trips]
    rfl

theorem Rebuilds.extend (h : Rebuilds c tree parent time finish)
    (known : tree.parent? index = some parent) (older : parent < index)
    (goesOn : (legOf c tree finish index).isRide = true ∨
      (legOf c tree finish index).isWalk = true)
    (atStop : (legOf c tree finish index).startStop? = some (tree.node parent).stop)
    (notBefore : finish ≤ (legOf c tree finish index).departure)
    (atOnce : (tree.node index).step.isRide = false ∨ (tree.node parent).criteria.nbOfTrips = 0 →
      (legOf c tree finish index).departure = finish)
    (rested : (tree.node parent).step.isWalk = true → (tree.node index).step.isWalk = false)
    (forward : (legOf c tree finish index).isBackward = false)
    (lasts : (legOf c tree finish index).Lasts c)
    (trips : (tree.node index).criteria.nbOfTrips = (tree.node parent).criteria.nbOfTrips +
      if (tree.node index).step.isRide then 1 else 0) :
    Rebuilds c tree index time (legOf c tree finish index).arrival := by
  have legs : legsOf c tree time (tree.lineage index) =
      legsOf c tree time (tree.lineage parent) ++ [legOf c tree finish index] := by
    rw [JourneyTree.lineage_of_parent known older, legsOf_concat, h.finish_eq]
  refine ⟨?_, ?_, ⟨_, finish, legs, rfl⟩, ?_, ?_, ?_, ?_⟩
  · rw [JourneyTree.lineage_of_parent known older, finishOf_concat, h.finish_eq]
  · obtain ⟨access, rest, equal, isAccess, departure, others⟩ := h.parts
    refine ⟨access, rest ++ [legOf c tree finish index], ?_, isAccess, departure, ?_⟩
    · rw [legs, equal, List.cons_append]
    · intro leg member
      rcases List.mem_append.1 member with inside | new
      · exact others leg inside
      · rw [List.mem_singleton.1 new]
        exact goesOn
  · obtain ⟨before, start, equal, ends⟩ := h.last
    have joined := h.joined
    have ridden := h.ridden
    rw [equal] at joined ridden
    rw [legs, equal]
    refine joined.concat ⟨?_, ?_, ?_, ?_⟩
    · rw [atStop, endStop?_legOf]
    · rw [ends]
      exact notBefore
    · intro direct
      rw [ends]
      refine atOnce ?_
      rw [isRide_legOf, ridden] at direct
      refine direct.imp_right fun never => ?_
      have := of_decide_eq_false never
      omega
    · rw [isWalk_legOf, isWalk_legOf]
      exact rested
  · intro leg member
    rw [legs] at member
    rcases List.mem_append.1 member with inside | new
    · exact h.forward leg inside
    · rw [List.mem_singleton.1 new]
      exact forward
  · intro leg member
    rw [legs] at member
    rcases List.mem_append.1 member with inside | new
    · exact h.lasting leg inside
    · rw [List.mem_singleton.1 new]
      exact lasts
  · rw [legs, List.any_append, h.ridden, trips]
    simp only [List.any_cons, List.any_nil, Bool.or_false, isRide_legOf]
    cases (tree.node index).step.isRide
    · simp
    · simp

theorem Rebuilds.walk (h : Rebuilds c tree parent time finish) {footpath : FootpathIndex}
    {duration : Duration} (step : (tree.node index).step = .walk parent footpath duration)
    (older : parent < index) (rested : (tree.node parent).step.isWalk = false)
    (lasts : (legOf c tree finish index).Lasts c)
    (trips : (tree.node index).criteria.nbOfTrips = (tree.node parent).criteria.nbOfTrips) :
    Rebuilds c tree index time (finish + duration) := by
  have known : tree.parent? index = some parent := by rw [JourneyTree.parent?, step]; rfl
  have made : legOf c tree finish index = .walk footpath (tree.node parent).stop
      (tree.node index).stop finish (finish + duration) := by
    simp only [legOf, step]
  have longer := h.extend known older
  rw [made, step] at longer
  rw [made] at lasts
  refine longer (.inr rfl) rfl (Int.le_refl _) (fun _ => rfl) (fun walked => ?_) rfl lasts trips
  rw [rested] at walked
  cases walked

theorem Rebuilds.ride (h : Rebuilds c tree parent time finish) {line : LineIndex}
    {trip : TripOnDay} {boardPosition position : Nat} {boardTime : SearchTime}
    (step : (tree.node index).step = .ride parent line trip boardPosition boardTime position)
    (older : parent < index)
    (atStop : (c.timetable.line line).stopAt boardPosition = (tree.node parent).stop)
    (waited : finish ≤ boardTime)
    (atOnce : (tree.node parent).criteria.nbOfTrips = 0 → finish = boardTime)
    (ahead : boardPosition < position)
    (forward : boardTime ≤ (c.timetable.line line).debarkTime trip position)
    (trips : (tree.node index).criteria.nbOfTrips =
      (tree.node parent).criteria.nbOfTrips + 1) :
    Rebuilds c tree index time ((c.timetable.line line).debarkTime trip position) := by
  have known : tree.parent? index = some parent := by rw [JourneyTree.parent?, step]; rfl
  have made : legOf c tree finish index = .ride (c.timetable.line line).patternIndex trip.schedule
      ((c.timetable.line line).serviceDate trip) boardPosition position
      ((c.timetable.line line).stopAt boardPosition) (tree.node index).stop boardTime
      ((c.timetable.line line).debarkTime trip position) := by
    simp only [legOf, step]
  have longer := h.extend known older
  rw [made, step] at longer
  refine longer (.inl rfl) ?_ waited ?_ (fun _ => rfl) ?_ (fun notRide => ?_) trips
  · rw [← atStop]
    rfl
  · rintro (none | none)
    · cases none
    · rw [atOnce none]
      rfl
  · simp only [Leg.isBackward, Bool.or_eq_false_iff, decide_eq_false_iff_not, Nat.not_le]
    exact ⟨ahead, Int.not_lt.2 forward⟩
  · cases notRide

theorem Rebuilds.joined_egress (h : Rebuilds c tree index time finish) (egress : Nat)
    (arrival : SearchTime) :
    Joined (legsOf c tree time (tree.lineage index) ++
      [.egress egress (tree.node index).stop finish arrival]) := by
  obtain ⟨before, start, ended, lastArrival⟩ := h.last
  have joined := h.joined
  rw [ended] at joined ⊢
  refine joined.concat ⟨?_, ?_, ?_, fun _ => rfl⟩
  · rw [endStop?_legOf]
    rfl
  · rw [lastArrival]
    exact Int.le_refl _
  · intro _
    rw [lastArrival]
    rfl

theorem Rebuilds.isWalk (h : Rebuilds c tree index time finish)
    (direct : (tree.node index).criteria.nbOfTrips = 0) {access : Leg} {rest : List Leg}
    (legs : legsOf c tree time (tree.lineage index) = access :: rest)
    (others : ∀ leg ∈ rest, leg.isRide = true ∨ leg.isWalk = true) :
    ∀ leg ∈ rest, leg.isWalk = true := by
  intro leg among
  have ridden := h.ridden
  rw [legs, direct] at ridden
  have notRide : leg.isRide = false :=
    Bool.eq_false_iff.2 (List.any_eq_false.1 ridden leg (List.mem_cons_of_mem _ among))
  refine (others leg among).resolve_left fun ride => ?_
  rw [notRide] at ride
  cases ride

end Journey

end JourneyPlanner
