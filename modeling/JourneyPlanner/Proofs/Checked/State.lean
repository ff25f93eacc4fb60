import JourneyPlanner.Proofs.Checked.Timetable
import JourneyPlanner.Proofs.Search.InRange

/-!
The lookups in the state of a search, checked: of a round, of the front of a stop, of the node of a
label. In a state that has its rounds and fronts they succeed for the rounds and the stops there
are, and what is read and written is what the operations without checks read and write.
-/

namespace JourneyPlanner.Checked

/-- The fronts of a stop in the rounds up to a given one. -/
def fronts (s : SearchState) (stop : StopIndex) (last : Nat) : Option (List StopFront) :=
  (List.range (last + 1)).mapM fun index => do (← s.rounds[index]?).all[stop]?

def transitFronts (s : SearchState) (stop : StopIndex) (last : Nat) : Option (List StopFront) :=
  (List.range (last + 1)).mapM fun index => do (← s.rounds[index]?).transit[stop]?

def isCovered (p : Profile) (s : SearchState) (stop : StopIndex) (last : Nat)
    (criteria : Criteria) : Option Bool := do
  return (← fronts s stop last).any (·.covers p.atLeastAsGood criteria)

def isCoveredByTransit (p : Profile) (s : SearchState) (stop : StopIndex) (last : Nat)
    (criteria : Criteria) : Option Bool := do
  return (← transitFronts s stop last).any (·.covers p.atLeastAsGood criteria)

/-- The flag that is read is the one that is raised. -/
def touch (t : TouchedStops) (stop : StopIndex) : Option TouchedStops := do
  let _ ← t.flags[stop]?
  return t.touch stop

def insert (p : Profile) (s : SearchState) (stop : StopIndex) (round : Nat) (node : NodeIndex)
    (criteria : Criteria) : Option SearchState := do
  let r ← s.rounds[round]?
  let front ← r.all[stop]?
  return { s with rounds := s.rounds.setIfInBounds round { r with
    all := r.all.setIfInBounds stop (front.pruneAndPush p.atLeastAsGood node criteria)
    touched := ← touch r.touched stop } }

def insertTransit (p : Profile) (s : SearchState) (stop : StopIndex) (round : Nat)
    (node : NodeIndex) (criteria : Criteria) : Option SearchState := do
  let r ← s.rounds[round]?
  let front ← r.transit[stop]?
  return { s with rounds := s.rounds.setIfInBounds round { r with
    transit := r.transit.setIfInBounds stop (front.pruneAndPush p.atLeastAsGood node criteria)
    touchedByTransit := ← touch r.touchedByTransit stop } }

def clear (t : TouchedStops) : Option TouchedStops := do
  let _ ← t.stops.toList.mapM (t.flags[·]?)
  return t.clear

def clearStops (r : Round) : Option Round := do
  return { r with touchedByTransit := ← clear r.touchedByTransit, touched := ← clear r.touched }

def nextIteration (s : SearchState) : Option SearchState := do
  let rounds ← s.rounds.toList.mapM clearStops
  return { s with rounds := rounds.toArray, iteration := s.iteration + 1 }

/-- The labels whose nodes pass a test. -/
def labelsWhere (tree : JourneyTree) (test : Node → Bool) (labels : StopFront) : Option StopFront :=
  filter (fun label => do return test (← tree.nodes[label.1]?)) labels

def accessLabels (s : SearchState) (stop : StopIndex) : Option StopFront := do
  labelsWhere s.tree (fun node => node.iteration == s.iteration && node.step.isAccess)
    (← (← s.rounds[0]?).all[stop]?)

def transitLabels (s : SearchState) (round : Nat) (stop : StopIndex) : Option StopFront := do
  labelsWhere s.tree (·.iteration == s.iteration) (← (← s.rounds[round]?).transit[stop]?)

def currentLabels (s : SearchState) (round : Nat) (stop : StopIndex) : Option StopFront := do
  labelsWhere s.tree (·.iteration == s.iteration) (← (← s.rounds[round]?).all[stop]?)

section

variable {s : SearchState} {nbOfStops last round i : Nat} {stop : StopIndex}

theorem getElem?_rounds (h : s.Sized nbOfStops last) (within : i ≤ last) :
    s.rounds[i]? = some (s.round i) := by
  have inside : i < s.rounds.size := by
    have := h.rounds
    omega
  simp [SearchState.round, inside]

theorem getElem?_all (h : s.Sized nbOfStops last) (within : i ≤ last) (known : stop < nbOfStops) :
    (s.round i).all[stop]? = some ((s.round i).front stop) := by
  have inside : stop < (s.round i).all.size := (h.all i within).symm ▸ known
  simp [Round.front, inside]

theorem getElem?_transit (h : s.Sized nbOfStops last) (within : i ≤ last)
    (known : stop < nbOfStops) :
    (s.round i).transit[stop]? = some ((s.round i).transitFront stop) := by
  have inside : stop < (s.round i).transit.size := (h.transit i within).symm ▸ known
  simp [Round.transitFront, inside]

theorem fronts_eq (h : s.Sized nbOfStops last) (within : round ≤ last) (known : stop < nbOfStops) :
    fronts s stop round =
      some ((List.range (round + 1)).map fun index => (s.round index).front stop) := by
  refine mapM_eq fun index member => ?_
  have among : index ≤ last := by
    have := List.mem_range.1 member
    omega
  rw [getElem?_rounds h among]
  exact getElem?_all h among known

theorem transitFronts_eq (h : s.Sized nbOfStops last) (within : round ≤ last)
    (known : stop < nbOfStops) :
    transitFronts s stop round =
      some ((List.range (round + 1)).map fun index => (s.round index).transitFront stop) := by
  refine mapM_eq fun index member => ?_
  have among : index ≤ last := by
    have := List.mem_range.1 member
    omega
  rw [getElem?_rounds h among]
  exact getElem?_transit h among known

theorem isCovered_eq (h : s.Sized nbOfStops last) (within : round ≤ last)
    (known : stop < nbOfStops) (p : Profile) (criteria : Criteria) :
    isCovered p s stop round criteria = some (s.isCovered p stop round criteria) := by
  rw [isCovered, fronts_eq h within known, SearchState.isCovered]
  simp [List.any_map, Function.comp_def]

theorem isCoveredByTransit_eq (h : s.Sized nbOfStops last) (within : round ≤ last)
    (known : stop < nbOfStops) (p : Profile) (criteria : Criteria) :
    isCoveredByTransit p s stop round criteria =
      some (s.isCoveredByTransit p stop round criteria) := by
  rw [isCoveredByTransit, transitFronts_eq h within known, SearchState.isCoveredByTransit]
  simp [List.any_map, Function.comp_def]

theorem modify_eq {α : Type} {a : Array α} {x : α} (known : a[i]? = some x) (f : α → α) :
    a.modify i f = a.setIfInBounds i (f x) := by
  obtain ⟨inside, rfl⟩ := Array.getElem?_eq_some_iff.1 known
  refine Array.ext_getElem? fun j => ?_
  rw [Array.getElem?_modify, Array.getElem?_setIfInBounds]
  split
  · next same =>
      subst same
      simp [inside]
  · rfl

theorem touch_eq {t : TouchedStops} (inside : stop < t.flags.size) :
    touch t stop = some (t.touch stop) := by
  rw [touch, Array.getElem?_eq_getElem inside]
  rfl

theorem clear_eq {t : TouchedStops} (inside : ∀ stop ∈ t.stops, stop < t.flags.size) :
    clear t = some t.clear := by
  have flags : t.stops.toList.mapM (t.flags[·]?) =
      some (t.stops.toList.map (t.flags.getD · false)) :=
    mapM_eq fun stop member => by simp [inside stop (Array.mem_toList_iff.1 member)]
  rw [clear, flags]
  rfl

theorem insert_eq (h : s.Sized nbOfStops last) (within : round ≤ last) (known : stop < nbOfStops)
    (p : Profile) (node : NodeIndex) (criteria : Criteria) :
    insert p s stop round node criteria = some (s.insert p stop round node criteria) := by
  have inRound := getElem?_rounds h within
  have inFronts := getElem?_all h within known
  have flagged := touch_eq ((h.flags round within).1.symm ▸ known)
  rw [insert, inRound, SearchState.insert, modify_eq inRound]
  simp only [Option.bind_eq_bind, Option.bind_some, inFronts, flagged, modify_eq inFronts]
  rfl

theorem insertTransit_eq (h : s.Sized nbOfStops last) (within : round ≤ last)
    (known : stop < nbOfStops) (p : Profile) (node : NodeIndex) (criteria : Criteria) :
    insertTransit p s stop round node criteria =
      some (s.insertTransit p stop round node criteria) := by
  have inRound := getElem?_rounds h within
  have inFronts := getElem?_transit h within known
  have flagged := touch_eq ((h.flags round within).2.symm ▸ known)
  rw [insertTransit, inRound, SearchState.insertTransit, modify_eq inRound]
  simp only [Option.bind_eq_bind, Option.bind_some, inFronts, flagged, modify_eq inFronts]
  rfl

theorem clearStops_eq {r : Round} {nbOfNodes : Nat} (h : r.InRange nbOfStops nbOfNodes) :
    clearStops r = some r.clearStops := by
  have byVehicle := clear_eq fun stop member => h.flags.2.symm ▸ h.transitStops stop member
  have any := clear_eq fun stop member => h.flags.1.symm ▸ h.stops stop member
  rw [clearStops, byVehicle, any]
  rfl

theorem nextIteration_eq {c : Search.Context} (h : s.InRange c) :
    nextIteration s = some s.nextIteration := by
  have cleared : s.rounds.toList.mapM clearStops = some (s.rounds.toList.map Round.clearStops) :=
    mapM_eq fun round member => clearStops_eq (h.fronts round (Array.mem_toList_iff.1 member))
  rw [nextIteration, cleared, SearchState.nextIteration, ← Array.toList_map]
  rfl

theorem labelsWhere_eq {tree : JourneyTree} {labels : StopFront}
    (older : ∀ label ∈ labels, label.1 < tree.size) (test : Node → Bool) :
    labelsWhere tree test labels = some (labels.filter fun label => test (tree.node label.1)) :=
  filter_eq fun label member => by rw [JourneyTree.getElem?_nodes (older label member)]; rfl

theorem accessLabels_eq {c : Search.Context} (h : Search.Consistent c s)
    (known : stop < c.timetable.nbOfStops) :
    accessLabels s stop = some (Search.accessLabels s stop) := by
  rw [accessLabels, getElem?_rounds h.sized (Nat.zero_le _)]
  simp only [Option.bind_eq_bind, Option.bind_some, getElem?_all h.sized (Nat.zero_le _) known]
  exact labelsWhere_eq (fun label member => (h.labels _ _ _ member).older) _

theorem transitLabels_eq {c : Search.Context} (h : Search.Consistent c s)
    (within : round ≤ c.query.maxBoardings) (known : stop < c.timetable.nbOfStops) :
    transitLabels s round stop = some (Search.transitLabels s round stop) := by
  rw [transitLabels, getElem?_rounds h.sized within]
  simp only [Option.bind_eq_bind, Option.bind_some, getElem?_transit h.sized within known]
  exact labelsWhere_eq (fun label member => (h.transitLabels _ _ _ member).1.older) _

theorem currentLabels_eq {c : Search.Context} (h : Search.Consistent c s)
    (within : round ≤ c.query.maxBoardings) (known : stop < c.timetable.nbOfStops) :
    currentLabels s round stop = some (Search.currentLabels s round stop) := by
  rw [currentLabels, getElem?_rounds h.sized within]
  simp only [Option.bind_eq_bind, Option.bind_some, getElem?_all h.sized within known]
  exact labelsWhere_eq (fun label member => (h.labels _ _ _ member).older) _

end

end JourneyPlanner.Checked
