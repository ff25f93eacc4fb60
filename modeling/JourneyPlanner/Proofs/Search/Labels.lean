import JourneyPlanner.Proofs.Search.Dominance

/-!
What the fronts and the lists of stops of a state are after a label is put into it. A label changes
one front of one round; the tree, the arrivals at the destination and the other rounds stay as they
are.
-/

namespace JourneyPlanner

theorem getD_modify (a : Array α) (i j : Nat) (f : α → α) (d : α) :
    (a.modify i f).getD j d = if i = j ∧ i < a.size then f (a.getD i d) else a.getD j d := by
  simp only [Array.getD_eq_getD_getElem?, Array.getElem?_modify]
  by_cases same : i = j
  · subst same
    by_cases inside : i < a.size
    · simp [inside]
    · simp [inside]
  · simp [same]

namespace TouchedStops

theorem mem_of_flag {t : TouchedStops} {stop : StopIndex} (up : t.flags.getD stop false = true) :
    stop ∈ t.stops := by
  by_cases inside : stop < t.flags.size
  · exact (t.agree stop inside).1 up
  · simp [inside] at up

theorem mem_touch {t : TouchedStops} {stop other : StopIndex} :
    other ∈ (t.touch stop).stops ↔ other ∈ t.stops ∨ other = stop := by
  rw [touch]
  split
  · next up =>
      refine (or_iff_left_of_imp ?_).symm
      rintro rfl
      exact mem_of_flag up
  · exact Array.mem_push

@[simp]
theorem size_flags_touch (t : TouchedStops) (stop : StopIndex) :
    (t.touch stop).flags.size = t.flags.size := by
  rw [touch]
  split
  · rfl
  · exact Array.size_setIfInBounds

@[simp]
theorem size_flags_clear (t : TouchedStops) : t.clear.flags.size = t.flags.size :=
  size_lower ..

theorem mem_iff_flag {t : TouchedStops} (inside : ∀ stop ∈ t.stops, stop < t.flags.size)
    (stop : StopIndex) : stop ∈ t.stops ↔ t.flags[stop]? = some true := by
  refine ⟨fun member => ?_, fun up => mem_of_flag ?_⟩
  · have up := (t.agree stop (inside stop member)).2 member
    rw [Array.getD_eq_getD_getElem?, Array.getElem?_eq_getElem (inside stop member)] at up
    rw [Array.getElem?_eq_getElem (inside stop member)]
    exact congrArg some up
  · rw [Array.getD_eq_getD_getElem?, up, Option.getD_some]

end TouchedStops

namespace Round

theorem front_modify (r : Round) (stop x : StopIndex) (f : StopFront → StopFront) :
    (r.all.modify stop f).getD x [] =
      if stop = x ∧ stop < r.all.size then f (r.front stop) else r.front x :=
  getD_modify _ _ _ _ _

theorem transitFront_modify (r : Round) (stop x : StopIndex) (f : StopFront → StopFront) :
    (r.transit.modify stop f).getD x [] =
      if stop = x ∧ stop < r.transit.size then f (r.transitFront stop) else r.transitFront x :=
  getD_modify _ _ _ _ _

theorem lt_size_of_mem_front {r : Round} {stop : StopIndex} {label : NodeIndex × Criteria}
    (h : label ∈ r.front stop) : stop < r.all.size := by
  by_cases inside : stop < r.all.size
  · exact inside
  · simp [front, inside] at h

theorem lt_size_of_mem_transitFront {r : Round} {stop : StopIndex} {label : NodeIndex × Criteria}
    (h : label ∈ r.transitFront stop) : stop < r.transit.size := by
  by_cases inside : stop < r.transit.size
  · exact inside
  · simp [transitFront, inside] at h

end Round

namespace SearchState

/-- The rounds are there, and the fronts and the flags of each round. -/
structure Sized (s : SearchState) (nbOfStops last : Nat) : Prop where
  rounds : s.rounds.size = last + 1
  all : ∀ i ≤ last, (s.round i).all.size = nbOfStops
  transit : ∀ i ≤ last, (s.round i).transit.size = nbOfStops
  flags : ∀ i ≤ last, (s.round i).touched.flags.size = nbOfStops ∧
    (s.round i).touchedByTransit.flags.size = nbOfStops

section

variable (p : Profile) (s : SearchState) (stop : StopIndex) (round : Nat) (node : NodeIndex)
  (criteria : Criteria) (i : Nat)

theorem round_insert :
    (s.insert p stop round node criteria).round i =
      if round = i ∧ round < s.rounds.size then
        { s.round round with
          all := (s.round round).all.modify stop fun front =>
            front.pruneAndPush p.atLeastAsGood node criteria
          touched := (s.round round).touched.touch stop }
      else s.round i :=
  getD_modify _ _ _ _ _

theorem round_insertTransit :
    (s.insertTransit p stop round node criteria).round i =
      if round = i ∧ round < s.rounds.size then
        { s.round round with
          transit := (s.round round).transit.modify stop fun front =>
            front.pruneAndPush p.atLeastAsGood node criteria
          touchedByTransit := (s.round round).touchedByTransit.touch stop }
      else s.round i :=
  getD_modify _ _ _ _ _

theorem front_insert (x : StopIndex) :
    ((s.insert p stop round node criteria).round i).front x =
      if (round = i ∧ round < s.rounds.size) ∧ stop = x ∧ stop < (s.round round).all.size then
        ((s.round round).front stop).pruneAndPush p.atLeastAsGood node criteria
      else (s.round i).front x := by
  rw [round_insert]
  by_cases here : round = i ∧ round < s.rounds.size
  · obtain ⟨rfl, inside⟩ := here
    simp only [inside, and_self, true_and, if_true]
    exact Round.front_modify _ _ _ _
  · simp only [here, false_and, if_false]

theorem transitFront_insertTransit (x : StopIndex) :
    ((s.insertTransit p stop round node criteria).round i).transitFront x =
      if (round = i ∧ round < s.rounds.size) ∧ stop = x ∧ stop < (s.round round).transit.size then
        ((s.round round).transitFront stop).pruneAndPush p.atLeastAsGood node criteria
      else (s.round i).transitFront x := by
  rw [round_insertTransit]
  by_cases here : round = i ∧ round < s.rounds.size
  · obtain ⟨rfl, inside⟩ := here
    simp only [inside, and_self, true_and, if_true]
    exact Round.transitFront_modify _ _ _ _
  · simp only [here, false_and, if_false]

@[simp] theorem transitFront_insert (x : StopIndex) :
    ((s.insert p stop round node criteria).round i).transitFront x =
      (s.round i).transitFront x := by
  rw [round_insert]
  split
  · next here => rw [here.1]; rfl
  · rfl

@[simp] theorem front_insertTransit (x : StopIndex) :
    ((s.insertTransit p stop round node criteria).round i).front x = (s.round i).front x := by
  rw [round_insertTransit]
  split
  · next here => rw [here.1]; rfl
  · rfl

theorem touched_insert :
    ((s.insert p stop round node criteria).round i).touched =
      if round = i ∧ round < s.rounds.size then (s.round round).touched.touch stop
      else (s.round i).touched := by
  rw [round_insert]
  split <;> rfl

@[simp] theorem touched_insertTransit :
    ((s.insertTransit p stop round node criteria).round i).touched = (s.round i).touched := by
  rw [round_insertTransit]
  split
  · next here => rw [here.1]
  · rfl

theorem touchedByTransit_insertTransit :
    ((s.insertTransit p stop round node criteria).round i).touchedByTransit =
      if round = i ∧ round < s.rounds.size then (s.round round).touchedByTransit.touch stop
      else (s.round i).touchedByTransit := by
  rw [round_insertTransit]
  split <;> rfl

@[simp] theorem touchedByTransit_insert :
    ((s.insert p stop round node criteria).round i).touchedByTransit =
      (s.round i).touchedByTransit := by
  rw [round_insert]
  split
  · next here => rw [here.1]
  · rfl

end

@[simp] theorem round_pushNode (s : SearchState) (node : Node) (i : Nat) :
    (s.pushNode node).round i = s.round i := rfl

theorem round_nextIteration (s : SearchState) (i : Nat) :
    s.nextIteration.round i = (s.round i).clearStops := by
  simp only [round, nextIteration, Array.getD_eq_getD_getElem?, Array.getElem?_map]
  cases s.rounds[i]? <;> rfl

theorem isCovered_iff {p : Profile} {s : SearchState} {stop : StopIndex} {last : Nat}
    {criteria : Criteria} :
    s.isCovered p stop last criteria = true ↔
      ∃ i ≤ last, ((s.round i).front stop).covers p.atLeastAsGood criteria = true := by
  simp only [isCovered, List.any_eq_true, List.mem_range, Nat.lt_succ_iff]

theorem isCoveredByTransit_iff {p : Profile} {s : SearchState} {stop : StopIndex} {last : Nat}
    {criteria : Criteria} :
    s.isCoveredByTransit p stop last criteria = true ↔
      ∃ i ≤ last, ((s.round i).transitFront stop).covers p.atLeastAsGood criteria = true := by
  simp only [isCoveredByTransit, List.any_eq_true, List.mem_range, Nat.lt_succ_iff]

theorem isCovered_of_atLeastAsGood {p : Profile} {s : SearchState} {stop : StopIndex} {last : Nat}
    {good criteria : Criteria} (h : s.isCovered p stop last good = true)
    (better : p.atLeastAsGood good criteria = true) :
    s.isCovered p stop last criteria = true := by
  obtain ⟨i, within, covered⟩ := isCovered_iff.1 h
  refine isCovered_iff.2 ⟨i, within, ?_⟩
  exact Front.covers_of_le p.atLeastAsGood_trans covered better

theorem isCoveredByTransit_of_atLeastAsGood {p : Profile} {s : SearchState}
    {stop : StopIndex} {last : Nat} {good criteria : Criteria}
    (h : s.isCoveredByTransit p stop last good = true)
    (better : p.atLeastAsGood good criteria = true) :
    s.isCoveredByTransit p stop last criteria = true := by
  obtain ⟨i, within, covered⟩ := isCoveredByTransit_iff.1 h
  exact isCoveredByTransit_iff.2 ⟨i, within, Front.covers_of_le p.atLeastAsGood_trans covered better⟩

theorem initial_fronts (nbOfStops last i : Nat) (stop : StopIndex) :
    ((initial nbOfStops last).round i).front stop = [] ∧
      ((initial nbOfStops last).round i).transitFront stop = [] := by
  by_cases inside : i < last + 1
  · by_cases known : stop < nbOfStops
    · simp [round, initial, inside, Round.front, Round.transitFront, Round.empty, known]
    · simp [round, initial, inside, Round.front, Round.transitFront, Round.empty, known]
  · simp only [round, initial, Array.getD_eq_getD_getElem?, Array.getElem?_replicate, if_neg inside,
      Option.getD_none]
    exact ⟨rfl, rfl⟩

namespace Sized

variable {s : SearchState} {nbOfStops last : Nat}

theorem initial (nbOfStops last : Nat) :
    (SearchState.initial nbOfStops last).Sized nbOfStops last := by
  have entry : ∀ i ≤ last,
      (SearchState.initial nbOfStops last).round i = Round.empty nbOfStops := by
    intro i within
    simp [SearchState.round, SearchState.initial, Nat.lt_succ_of_le within]
  refine ⟨by simp [SearchState.initial], fun i within => ?_, fun i within => ?_,
    fun i within => ?_⟩
  · simp [entry i within, Round.empty]
  · simp [entry i within, Round.empty]
  · simp [entry i within, Round.empty, TouchedStops.empty]

theorem pushNode (h : s.Sized nbOfStops last) (node : Node) :
    (s.pushNode node).Sized nbOfStops last :=
  ⟨h.rounds, h.all, h.transit, h.flags⟩

theorem insert (h : s.Sized nbOfStops last) (p : Profile) (stop : StopIndex) (round : Nat)
    (node : NodeIndex) (criteria : Criteria) :
    (s.insert p stop round node criteria).Sized nbOfStops last := by
  refine ⟨by simp [SearchState.insert, h.rounds], fun i within => ?_, fun i within => ?_,
    fun i within => ?_⟩ <;> rw [round_insert] <;> split
  · next here => simpa [here.1] using h.all i within
  · exact h.all i within
  · next here => simpa [here.1] using h.transit i within
  · exact h.transit i within
  · next here => simpa [here.1] using h.flags i within
  · exact h.flags i within

theorem insertTransit (h : s.Sized nbOfStops last) (p : Profile) (stop : StopIndex) (round : Nat)
    (node : NodeIndex) (criteria : Criteria) :
    (s.insertTransit p stop round node criteria).Sized nbOfStops last := by
  refine ⟨by simp [SearchState.insertTransit, h.rounds], fun i within => ?_, fun i within => ?_,
    fun i within => ?_⟩ <;> rw [round_insertTransit] <;> split
  · next here => simpa [here.1] using h.all i within
  · exact h.all i within
  · next here => simpa [here.1] using h.transit i within
  · exact h.transit i within
  · next here => simpa [here.1] using h.flags i within
  · exact h.flags i within

theorem nextIteration (h : s.Sized nbOfStops last) : s.nextIteration.Sized nbOfStops last := by
  refine ⟨by simp [SearchState.nextIteration, h.rounds], fun i within => ?_, fun i within => ?_,
    fun i within => ?_⟩ <;> rw [round_nextIteration]
  · exact h.all i within
  · exact h.transit i within
  · simpa [Round.clearStops] using h.flags i within

end Sized

end SearchState

end JourneyPlanner
