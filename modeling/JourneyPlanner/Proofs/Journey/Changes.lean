import JourneyPlanner.Proofs.Journey.Times

/-!
What a node keeps of the limits of its search: it departs at the departure time of its iteration or
later, it arrives at the latest arrival of its iteration or sooner, and where its journey changes
from one vehicle to another there is time enough for the change.
-/

namespace JourneyPlanner.Journey

open Search

variable {c : Context} {tree : JourneyTree} {i : NodeIndex}

/-- A journey that has not been on a vehicle departs with its iteration, and waiting for the first
vehicle only makes it depart later. -/
theorem departureOf_le_departure (regular : IsRegular c)
    (follows : ∀ i < tree.size, Follows c tree i (tree.node i)) :
    ∀ i < tree.size, departureOf c (tree.node i).iteration ≤ (tree.node i).departure := by
  intro i
  induction i using Nat.strongRecOn with
  | ind i ih =>
      intro inside
      have node_follows := follows i inside
      generalize tree.node i = node at node_follows
      cases node_follows with
      | access => exact Int.le_refl _
      | walk older => exact ih _ older (Nat.lt_trans older inside)
      | @ride line o position older boarded =>
          have known := Nat.lt_trans older inside
          have timed := (isRebuilt regular follows o.parent known).timed
          change departureOf c (tree.node o.parent).iteration ≤ o.departure
          rw [departure_of_board boarded]
          split
          · exact ih _ older known
          · next ridden =>
              have direct : (tree.node o.parent).criteria.nbOfTrips = 0 :=
                Nat.eq_zero_of_not_pos ridden
              obtain ⟨ready, -⟩ := arrival_le_readyTime (q := c.query) timed.inRange
              obtain ⟨waited, inRange⟩ := timed.readyTime_le boarded
              have arrived : (tree.node o.parent).criteria.arrival.seconds ≤ o.boardTime.seconds :=
                Int.le_trans ready waited
              rw [SearchTime.le_def, timed.seconds_moved regular direct arrived inRange,
                ← timed.departure direct, elapsed]
              omega

/-- Before each ride but the first one there are as many seconds after the end of the leg before. -/
def AllowsChanges (transfer : Nat) (legs : List Leg) : Prop :=
  ∀ before previous next after, legs = before ++ previous :: next :: after →
    next.isRide = true → (before ++ [previous]).any Leg.isRide = true →
      previous.arrival.seconds + transfer ≤ next.departure.seconds

theorem AllowsChanges.concat {transfer : Nat} {legs : List Leg} {next : Leg}
    (h : AllowsChanges transfer legs)
    (enough : next.isRide = true → legs.any Leg.isRide = true →
      ∀ last ∈ legs.getLast?, last.arrival.seconds + transfer ≤ next.departure.seconds) :
    AllowsChanges transfer (legs ++ [next]) := by
  intro before previous later after equal
  rcases List.eq_nil_or_concat after with rfl | ⟨inner, final, rfl⟩
  · have parts : legs ++ [next] = (before ++ [previous]) ++ [later] := by simpa using equal
    obtain ⟨rfl, rfl⟩ := List.append_singleton_inj.1 parts
    exact fun ride ridden => enough ride ridden previous List.getLast?_concat
  · have parts : legs ++ [next] = (before ++ previous :: later :: inner) ++ [final] := by
      simpa using equal
    exact h before previous later inner (List.append_singleton_inj.1 parts).1

theorem allowsChanges_of_not_any {transfer : Nat} {legs : List Leg}
    (h : legs.any Leg.isRide = false) : AllowsChanges transfer legs := by
  rintro before previous next after rfl ride -
  have notRide := List.any_eq_false.1 h next (by simp)
  exact absurd ride notRide

theorem seconds_readyTime (regular : IsRegular c) {bound : NodeIndex} {node : Node}
    (follows : Follows c tree bound node) (timed : IsTimed c node)
    (short : c.query.minTransferTime.seconds ≤ maxSearchSeconds)
    (ridden : 0 < node.criteria.nbOfTrips) :
    (c.query.readyTime node.criteria).seconds =
      node.criteria.arrival.seconds + c.query.minTransferTime.seconds := by
  have inTime := elapsed_le_of_latestOf regular follows.arrival_le_latestOf
  have start := regular.notAfter node.iteration
  have inRange := timed.inRange
  rw [Query.readyTime, if_pos ridden, SearchTime.seconds_add, Duration.step,
    Nat.min_eq_left short]
  simp only [clampWord, maxSearchSeconds, secondsPerDay] at *
  omega

theorem allowsChanges_legsOf (regular : IsRegular c)
    (follows : ∀ i < tree.size, Follows c tree i (tree.node i))
    (short : c.query.minTransferTime.seconds ≤ maxSearchSeconds) :
    ∀ i < tree.size, AllowsChanges c.query.minTransferTime.seconds
      (legsOf c tree (tree.node i).departure (tree.lineage i)) := by
  intro i
  induction i using Nat.strongRecOn with
  | ind i ih =>
      intro inside
      have node_follows := follows i inside
      have rebuilt := isRebuilt regular follows i inside
      by_cases direct : (tree.node i).criteria.nbOfTrips = 0
      · refine allowsChanges_of_not_any ?_
        rw [rebuilt.legs.ridden, direct]
        rfl
      generalize equal : tree.node i = node at node_follows
      cases node_follows with
      | access =>
          rw [equal] at direct
          exact absurd rfl direct
      | @walk parent walk older =>
          have known : tree.parent? i = some parent := by
            rw [JourneyTree.parent?, equal]
            rfl
          rw [JourneyTree.lineage_of_parent known older, legsOf_concat]
          refine (ih parent older (Nat.lt_trans older inside)).concat fun ride => ?_
          rw [isRide_legOf, equal] at ride
          cases ride
      | @ride line o position older boarded =>
          have known : tree.parent? i = some o.parent := by
            rw [JourneyTree.parent?, equal]
            rfl
          have before := isRebuilt regular follows o.parent (Nat.lt_trans older inside)
          obtain ⟨ready, -⟩ := arrival_le_readyTime (q := c.query) before.timed.inRange
          obtain ⟨waited, inRange⟩ := before.timed.readyTime_le boarded
          obtain ⟨finish, legs, -, -⟩ :=
            rebuilds_at_board regular before (Int.le_trans ready waited) inRange
          rw [← departure_of_board boarded] at legs
          have departs : (rideNode c line (tree.iteration o.parent) o position).departure =
              o.departure := rfl
          rw [JourneyTree.lineage_of_parent known older, legsOf_concat, departs]
          by_cases ridden : 0 < (tree.node o.parent).criteria.nbOfTrips
          · have same : o.departure = (tree.node o.parent).departure := by
              rw [departure_of_board boarded]
              exact if_pos ridden
            rw [same]
            refine (ih o.parent older (Nat.lt_trans older inside)).concat fun _ _ last isLast => ?_
            obtain ⟨first, start, ended, arrival⟩ := before.legs.last
            rw [ended, List.getLast?_concat, Option.mem_some_iff] at isLast
            have enough := seconds_readyTime regular (follows o.parent (Nat.lt_trans older inside))
              before.timed short ridden
            have waited : (c.query.readyTime (tree.node o.parent).criteria).seconds ≤
              o.boardTime.seconds := waited
            have departure (time : SearchTime) : (legOf c tree time i).departure = o.boardTime := by
              simp only [legOf, equal, rideNode, Leg.departure]
            rw [departure, ← isLast, arrival]
            omega
          · refine (allowsChanges_of_not_any ?_).concat fun _ again => ?_
            · rw [legs.ridden]
              exact decide_eq_false ridden
            · rw [legs.ridden, decide_eq_false ridden] at again
              cases again

end JourneyPlanner.Journey
