import JourneyPlanner.Proofs.Search.Run
import JourneyPlanner.Proofs.Search.Twins

/-!
Each function of a search keeps two states in agreement when it does the same to both, in a round
that they share; and moves of later rounds in the second state alone do not disturb it.
-/

namespace JourneyPlanner

namespace Agree

variable {last round : Nat} {s u : SearchState} {p : Profile} {n m : Node}

theorem isCovered_eq (h : Agree last s u) {upTo : Nat} (le : upTo ≤ last) (stop : StopIndex)
    (criteria : Criteria) : s.isCovered p stop upTo criteria = u.isCovered p stop upTo criteria := by
  rw [Bool.eq_iff_iff, SearchState.isCovered_iff, SearchState.isCovered_iff]
  refine exists_congr fun i => and_congr_right fun within => ?_
  rw [Front.covers_eq ((h.rounds i (Nat.le_trans within le)).fronts stop)
    fun _ _ same => same.criteria_eq]

theorem isCoveredByTransit_eq (h : Agree last s u) {upTo : Nat} (le : upTo ≤ last)
    (stop : StopIndex) (criteria : Criteria) :
    s.isCoveredByTransit p stop upTo criteria = u.isCoveredByTransit p stop upTo criteria := by
  rw [Bool.eq_iff_iff, SearchState.isCoveredByTransit_iff, SearchState.isCoveredByTransit_iff]
  refine exists_congr fun i => and_congr_right fun within => ?_
  rw [Front.covers_eq ((h.rounds i (Nat.le_trans within le)).transitFronts stop)
    fun _ _ same => same.criteria_eq]

theorem pushNode (h : Agree last s u) (n m : Node) : Agree last (s.pushNode n) (u.pushNode m) := by
  have left := JourneyTree.Extends.push s.tree n
  have right := JourneyTree.Extends.push u.tree m
  exact ⟨h.iteration_eq, h.left_lt, h.right_lt,
    fun i within => (h.rounds i within).extends left right,
    h.arrived.imp fun _ _ same => same.extends left right⟩

theorem insert (h : Agree last s u) (allowed : round ≤ last) (stop : StopIndex) {i j : NodeIndex}
    {criteria : Criteria}
    (new : TwinLabels s.tree u.tree round (i, criteria) (j, criteria)) :
    Agree last (s.insert p stop round i criteria) (u.insert p stop round j criteria) := by
  refine ⟨h.iteration_eq, ?_, ?_, fun k within => ?_, h.arrived⟩
  · simpa [SearchState.insert] using h.left_lt
  · simpa [SearchState.insert] using h.right_lt
  · rw [SearchState.round_insert, SearchState.round_insert]
    by_cases here : round = k
    · subst here
      rw [if_pos ⟨rfl, Nat.lt_of_le_of_lt allowed h.left_lt⟩,
        if_pos ⟨rfl, Nat.lt_of_le_of_lt allowed h.right_lt⟩]
      exact (h.rounds round within).insert p stop new
    · rw [if_neg fun both => here both.1, if_neg fun both => here both.1]
      exact h.rounds k within

theorem insertTransit (h : Agree last s u) (allowed : round ≤ last) (stop : StopIndex)
    {i j : NodeIndex} {criteria : Criteria}
    (new : TwinLabels s.tree u.tree round (i, criteria) (j, criteria)) :
    Agree last (s.insertTransit p stop round i criteria)
      (u.insertTransit p stop round j criteria) := by
  refine ⟨h.iteration_eq, ?_, ?_, fun k within => ?_, h.arrived⟩
  · simpa [SearchState.insertTransit] using h.left_lt
  · simpa [SearchState.insertTransit] using h.right_lt
  · rw [SearchState.round_insertTransit, SearchState.round_insertTransit]
    by_cases here : round = k
    · subst here
      rw [if_pos ⟨rfl, Nat.lt_of_le_of_lt allowed h.left_lt⟩,
        if_pos ⟨rfl, Nat.lt_of_le_of_lt allowed h.right_lt⟩]
      exact (h.rounds round within).insertTransit p stop new
    · rw [if_neg fun both => here both.1, if_neg fun both => here both.1]
      exact h.rounds k within

theorem twinLabels_new (parents : JourneyTree.TwinParents s.tree u.tree n m)
    (same : n.detached = m.detached) (trips : n.criteria.nbOfTrips = round) :
    TwinLabels (s.tree.push n) (u.tree.push m) round (s.tree.size, n.criteria)
      (u.tree.size, n.criteria) :=
  ⟨JourneyTree.twins_push parents same, rfl, trips⟩

theorem reach (h : Agree last s u) (allowed : round ≤ last)
    (parents : JourneyTree.TwinParents s.tree u.tree n m) (same : n.detached = m.detached)
    (trips : n.criteria.nbOfTrips = round) :
    Agree last (s.reach p round n) (u.reach p round m) := by
  have stop : m.stop = n.stop := (congrArg Node.stop same).symm
  have criteria : m.criteria = n.criteria := (congrArg Node.criteria same).symm
  rw [SearchState.reach, SearchState.reach, stop, criteria]
  exact (h.pushNode n m).insert allowed n.stop (twinLabels_new parents same trips)

theorem alight (h : Agree last s u) (allowed : round ≤ last)
    (parents : JourneyTree.TwinParents s.tree u.tree n m) (same : n.detached = m.detached)
    (trips : n.criteria.nbOfTrips = round) :
    Agree last (s.alight p round n) (u.alight p round m) := by
  have stop : m.stop = n.stop := (congrArg Node.stop same).symm
  have criteria : m.criteria = n.criteria := (congrArg Node.criteria same).symm
  have new := twinLabels_new parents same trips
  have inserted : Agree last _ _ := (h.pushNode n m).insertTransit (p := p) allowed n.stop new
  simp only [SearchState.alight]
  rw [stop, criteria, inserted.isCovered_eq allowed]
  split
  · exact inserted
  · exact inserted.insert allowed n.stop new

theorem filter_arrived (p : Profile) (last : Nat) (front : ArrivedFront) (a : Arrived)
    (criteria : ArrivalCriteria) :
    (front.add p.atLeastAsGoodAtDestination a criteria).filter
        (fun e => decide (e.2.nbOfTransfers < last)) =
      if criteria.nbOfTransfers < last then
        Front.add p.atLeastAsGoodAtDestination
          (front.filter fun e => decide (e.2.nbOfTransfers < last)) a criteria
      else front.filter fun e => decide (e.2.nbOfTransfers < last) := by
  let few (c : ArrivalCriteria) : Bool := decide (c.nbOfTransfers < last)
  have closed : ∀ x y, p.atLeastAsGoodAtDestination x y = true → few y = true → few x = true := by
    intro x y better fewer
    have le := Profile.nbOfTransfers_le_of_atLeastAsGoodAtDestination better
    exact decide_eq_true (Nat.lt_of_le_of_lt le (of_decide_eq_true fewer))
  have filtered := Front.filter_add closed front a criteria
  simp only [few, decide_eq_true_eq] at filtered
  exact filtered

theorem arrive (h : Agree last s u) {a b : Arrived} {criteria : ArrivalCriteria}
    (same : TwinArrivals s.tree u.tree (a, criteria) (b, criteria))
    (few : criteria.nbOfTransfers < last) :
    Agree last (s.arrive p a criteria) (u.arrive p b criteria) := by
  refine ⟨h.iteration_eq, h.left_lt, h.right_lt, h.rounds, ?_⟩
  simp only [SearchState.arrive]
  rw [filter_arrived, if_pos few]
  exact Front.forall₂_add h.arrived (fun _ _ twins => twins.criteria_eq) same

theorem arrive_right (h : Agree last s u) (b : Arrived) {criteria : ArrivalCriteria}
    (many : last ≤ criteria.nbOfTransfers) : Agree last s (u.arrive p b criteria) := by
  refine ⟨h.iteration_eq, h.left_lt, h.right_lt, h.rounds, ?_⟩
  simp only [SearchState.arrive]
  rw [filter_arrived, if_neg (Nat.not_lt.2 many)]
  exact h.arrived

end Agree

/-- Two states that agree again after both have grown. -/
structure Along (last : Nat) (s u s' u' : SearchState) : Prop where
  agree : Agree last s' u'
  left : s.tree.Extends s'.tree
  right : u.tree.Extends u'.tree

namespace Along

variable {α β : Type} {last : Nat} {s u s' u' s'' u'' : SearchState}

theorem refl (h : Agree last s u) : Along last s u s u :=
  ⟨h, .refl _, .refl _⟩

theorem trans (h : Along last s u s' u') (next : Along last s' u' s'' u'') :
    Along last s u s'' u'' :=
  ⟨next.agree, h.left.trans next.left, h.right.trans next.right⟩

theorem foldl {R : JourneyTree → JourneyTree → α → β → Prop}
    (persists : ∀ {t u v w a b}, R t u a b → t.Extends v → u.Extends w → R v w a b)
    {f : SearchState → α → SearchState} {g : SearchState → β → SearchState}
    (step : ∀ s u a b, Agree last s u → R s.tree u.tree a b → Along last s u (f s a) (g u b))
    {l : List α} {m : List β} (h : Agree last s u) (items : List.Forall₂ (R s.tree u.tree) l m) :
    Along last s u (l.foldl f s) (m.foldl g u) := by
  induction l generalizing s u m with
  | nil =>
      cases items
      exact .refl h
  | cons a l ih =>
      cases items with
      | cons first rest =>
          have here := step s u a _ h first
          have later := ih here.agree (rest.imp fun _ _ same => persists same here.left here.right)
          exact here.trans later

theorem foldl_same {f g : SearchState → α → SearchState}
    (step : ∀ s u a, Agree last s u → Along last s u (f s a) (g u a)) (l : List α)
    (h : Agree last s u) : Along last s u (l.foldl f s) (l.foldl g u) := by
  induction l generalizing s u with
  | nil => exact .refl h
  | cons a l ih =>
      have here := step s u a h
      exact here.trans (ih here.agree)

end Along

namespace Search

variable {c : Context} {last round : Nat} {s u : SearchState}

theorem reach_along (h : Agree last s u) (allowed : round ≤ last) {p : Profile} {n m : Node}
    (parents : JourneyTree.TwinParents s.tree u.tree n m) (same : n.detached = m.detached)
    (trips : n.criteria.nbOfTrips = round) :
    Along last s u (s.reach p round n) (u.reach p round m) :=
  ⟨h.reach allowed parents same trips, .push _ _, .push _ _⟩

theorem depart_along (h : Agree last s u) (departure latest : SearchTime)
    (leg : StreetLeg × Nat) :
    Along last s u (depart c departure latest s leg) (depart c departure latest u leg) := by
  simp only [depart, h.isCovered_eq (Nat.zero_le _)]
  split
  · exact .refl h
  · split
    · exact .refl h
    · rw [h.iteration_eq]
      exact reach_along h (Nat.zero_le _) (.inl ⟨rfl, rfl⟩) rfl rfl

theorem walk_along (h : Agree last s u) (allowed : round ≤ last) (latest : SearchTime)
    {l m : NodeIndex × Criteria} (twins : TwinLabels s.tree u.tree round l m) (w : Walk) :
    Along last s u (walk c latest round l s w) (walk c latest round m u w) := by
  simp only [walk, ← twins.criteria_eq, h.isCovered_eq allowed]
  split
  · exact .refl h
  · split
    · exact .refl h
    · refine reach_along h allowed (.inr ⟨l.1, m.1, rfl, rfl, twins.twins⟩) ?_ twins.trips
      simp only [JourneyTree.walkNode, twins.twins.departure_eq, h.iteration_eq]
      rfl

theorem walkAll_along (h : Agree last s u) (allowed : round ≤ last) (latest : SearchTime)
    (stop : StopIndex) {l m : StopFront}
    (twins : List.Forall₂ (TwinLabels s.tree u.tree round) l m) :
    Along last s u (walkAll c latest round stop l s) (walkAll c latest round stop m u) := by
  refine Along.foldl (R := fun t u => TwinLabels t u round) TwinLabels.extends
    (fun s u a b agree twins => ?_) h twins
  -- The label stays the same while its walks make the trees grow.
  let walks := c.timetable.walksFrom stop
  have items : List.Forall₂ (fun v w => v = w ∧ TwinLabels s.tree u.tree round a b) walks walks :=
    List.forall₂_same.2 fun _ _ => ⟨rfl, twins⟩
  refine Along.foldl (R := fun t u v w => v = w ∧ TwinLabels t u round a b)
    (fun same left right => ⟨same.1, same.2.extends left right⟩) (fun s u v w agree same => ?_)
    agree items
  rw [← same.1]
  exact walk_along agree allowed latest same.2 v

theorem accessLabels_twins (h : Agree last s u) (stop : StopIndex) :
    List.Forall₂ (TwinLabels s.tree u.tree 0) (accessLabels s stop) (accessLabels u stop) := by
  refine forall₂_filter ((h.rounds 0 (Nat.zero_le _)).fronts stop) fun l m same => ?_
  rw [same.twins.iteration_eq, h.iteration_eq, same.twins.isAccess_eq]

theorem transitLabels_twins (h : Agree last s u) (allowed : round ≤ last) (stop : StopIndex) :
    List.Forall₂ (TwinLabels s.tree u.tree round) (transitLabels s round stop)
      (transitLabels u round stop) := by
  refine forall₂_filter ((h.rounds round allowed).transitFronts stop) fun l m same => ?_
  rw [same.twins.iteration_eq, h.iteration_eq]

theorem currentLabels_twins (h : Agree last s u) (allowed : round ≤ last) (stop : StopIndex) :
    List.Forall₂ (TwinLabels s.tree u.tree round) (currentLabels s round stop)
      (currentLabels u round stop) := by
  refine forall₂_filter ((h.rounds round allowed).fronts stop) fun l m same => ?_
  rw [same.twins.iteration_eq, h.iteration_eq]

theorem walkFromAccess_along (h : Agree last s u) (latest : SearchTime) :
    Along last s u (walkFromAccess c latest s) (walkFromAccess c latest u) := by
  rw [walkFromAccess, walkFromAccess, ← Array.foldl_toList, ← Array.foldl_toList,
    Round.stops, Round.stops, (h.rounds 0 (Nat.zero_le _)).touched]
  refine Along.foldl_same (fun s u stop agree => ?_) _ h
  exact walkAll_along agree (Nat.zero_le _) latest stop (accessLabels_twins agree stop)

theorem walkFromTransit_along (h : Agree last s u) (allowed : round ≤ last) (latest : SearchTime) :
    Along last s u (walkFromTransit c latest round s) (walkFromTransit c latest round u) := by
  rw [walkFromTransit, walkFromTransit, ← Array.foldl_toList, ← Array.foldl_toList,
    Round.transitStops, Round.transitStops, (h.rounds round allowed).touchedByTransit]
  refine Along.foldl_same (fun s u stop agree => ?_) _ h
  exact walkAll_along agree allowed latest stop (transitLabels_twins agree allowed stop)

/-- The same journey on a vehicle, continued from twins. -/
structure TwinRiders (t u : JourneyTree) (round : Nat) (a b : Onboard) : Prop where
  twins : t.Twins u a.parent b.parent
  rider_eq : a = { b with parent := a.parent }
  trips : a.nbOfTrips = round

structure TwinOnboard (t u : JourneyTree) (round : Nat) (a b : Onboard × Criteria) : Prop where
  riders : TwinRiders t u round a.1 b.1
  criteria_eq : a.2 = b.2
  trips : a.2.nbOfTrips = round

theorem TwinOnboard.extends {t u v w : JourneyTree} {a b : Onboard × Criteria}
    (h : TwinOnboard t u round a b) (tv : t.Extends v) (uw : u.Extends w) :
    TwinOnboard v w round a b :=
  ⟨⟨h.riders.twins.extends tv uw, h.riders.rider_eq, h.riders.trips⟩, h.criteria_eq, h.trips⟩

theorem board_twins (positive : 0 < round) (line : Line) (position : Nat) {t u : JourneyTree}
    {l m : NodeIndex × Criteria} (h : TwinLabels t u (round - 1) l m) :
    Option.Rel (TwinRiders t u round) (board c line position t l) (board c line position u m) := by
  simp only [board, ← h.criteria_eq, ← h.twins.departure_eq]
  cases line.earliestTrip (c.query.readyTime l.2) position with
  | none => exact .none
  | some boarding =>
      refine .some ⟨h.twins, rfl, ?_⟩
      have trips := h.trips
      simp only
      omega

theorem carry_twins (h : Agree last s u) (positive : 0 < round) (allowed : round ≤ last)
    (line : Line) (position : Nat) {f g : Front Onboard Criteria}
    (onboard : List.Forall₂ (TwinOnboard s.tree u.tree round) f g) :
    List.Forall₂ (TwinOnboard s.tree u.tree round) (carry c round line position s f)
      (carry c round line position u g) := by
  have labels := currentLabels_twins h (Nat.le_trans (Nat.sub_le round 1) allowed)
    (line.stopAt position)
  have boarding := List.rel_filterMap (fun l m same => board_twins (c := c) positive line position
    same) labels
  have staying : List.Forall₂ (TwinRiders s.tree u.tree round) (f.map (·.1)) (g.map (·.1)) :=
    List.rel_map (fun _ _ same => same.riders) onboard
  have riders := List.rel_append boarding staying
  let forecast (o : Onboard) : Onboard × Criteria :=
    (o, o.criteriaAt line (position + 1) c.query.costs)
  have same (a b : Onboard) (h : TwinRiders s.tree u.tree round a b) :
      TwinOnboard s.tree u.tree round (forecast a) (forecast b) := by
    refine ⟨h, ?_, h.trips⟩
    simp only [forecast]
    rw [h.rider_eq]
    rfl
  have candidates : List.Forall₂ (TwinOnboard s.tree u.tree round) (List.map forecast _)
      (List.map forecast _) :=
    List.forall₂_map_left_iff.2 (List.forall₂_map_right_iff.2 (riders.imp same))
  simp only [carry]
  split
  · exact Front.forall₂_ofCandidates candidates fun _ _ same => same.criteria_eq
  · exact candidates

theorem finish_along (h : Agree last s u) (latest departure : SearchTime) {nbOfTransfers : Nat}
    (few : nbOfTransfers < last) {i j : NodeIndex} (twins : s.tree.Twins u.tree i j)
    (stop : StopIndex) (criteria : Criteria) :
    Along last s u (finish c latest departure nbOfTransfers i stop criteria s)
      (finish c latest departure nbOfTransfers j stop criteria u) := by
  simp only [finish]
  split
  · exact .refl h
  · split
    · exact .refl h
    · exact ⟨h.arrive ⟨twins, rfl, rfl⟩ few, .refl _, .refl _⟩

theorem debark_along (h : Agree last s u) (positive : 0 < round) (allowed : round ≤ last)
    (latest : SearchTime) (line : LineIndex) (position : Nat) (stop : StopIndex)
    {a b : Onboard × Criteria} (twins : TwinOnboard s.tree u.tree round a b) :
    Along last s u (debark c latest round line position stop s a)
      (debark c latest round line position stop u b) := by
  have departure : b.1.departure = a.1.departure :=
    (congrArg Onboard.departure twins.riders.rider_eq).symm
  rw [debark_eq, debark_eq, ← twins.criteria_eq, departure, h.isCoveredByTransit_eq allowed]
  split
  · exact .refl h
  · split
    · exact .refl h
    · have parents : JourneyTree.TwinParents s.tree u.tree
          ⟨stop, a.2, a.1.departure, s.iteration,
            .ride a.1.parent line a.1.trip a.1.boardPosition a.1.boardTime position⟩
          ⟨stop, a.2, a.1.departure, u.iteration,
            .ride b.1.parent line b.1.trip b.1.boardPosition b.1.boardTime position⟩ :=
        .inr ⟨a.1.parent, b.1.parent, rfl, rfl, twins.riders.twins⟩
      have same : Node.detached ⟨stop, a.2, a.1.departure, s.iteration,
            .ride a.1.parent line a.1.trip a.1.boardPosition a.1.boardTime position⟩ =
          Node.detached ⟨stop, a.2, a.1.departure, u.iteration,
            .ride b.1.parent line b.1.trip b.1.boardPosition b.1.boardTime position⟩ := by
        rw [twins.riders.rider_eq, h.iteration_eq]
        rfl
      have alighted : Along last s u _ _ :=
        ⟨h.alight (p := c.profile) allowed parents same twins.trips,
          by rw [SearchState.tree_alight]; exact .push _ _,
          by rw [SearchState.tree_alight]; exact .push _ _⟩
      have few : a.2.nbOfTrips - 1 < last := by
        have trips := twins.trips
        omega
      refine alighted.trans (finish_along alighted.agree latest a.1.departure few ?_ stop a.2)
      rw [SearchState.tree_alight, SearchState.tree_alight]
      exact JourneyTree.twins_push parents same

theorem visit_along (h : Agree last s u) (positive : 0 < round) (allowed : round ≤ last)
    (latest : SearchTime) (line : LineIndex) (position : Nat) {f g : Front Onboard Criteria}
    (onboard : List.Forall₂ (TwinOnboard s.tree u.tree round) f g) :
    let left := visit c latest round line (f, s) position
    let right := visit c latest round line (g, u) position
    Along last s u left.2 right.2 ∧
      List.Forall₂ (TwinOnboard left.2.tree right.2.tree round) left.1 right.1 := by
  have debarked := Along.foldl (R := fun t u => TwinOnboard t u round) TwinOnboard.extends
    (fun s u a b agree same => debark_along (c := c) agree positive allowed latest line position
      ((c.timetable.line line).stopAt position) same) h onboard
  simp only [visit]
  split
  · exact ⟨debarked, .nil⟩
  · refine ⟨debarked, carry_twins debarked.agree positive allowed _ position ?_⟩
    exact onboard.imp fun _ _ same => same.extends debarked.left debarked.right

theorem visits_along (positive : 0 < round) (allowed : round ≤ last) (latest : SearchTime)
    (line : LineIndex) (positions : List Nat) (h : Agree last s u)
    {f g : Front Onboard Criteria}
    (onboard : List.Forall₂ (TwinOnboard s.tree u.tree round) f g) :
    Along last s u (positions.foldl (visit c latest round line) (f, s)).2
      (positions.foldl (visit c latest round line) (g, u)).2 := by
  induction positions generalizing s u f g with
  | nil => exact .refl h
  | cons position rest ih =>
      obtain ⟨here, next⟩ := visit_along h positive allowed latest line position onboard
      exact here.trans (ih here.agree next)

theorem ride_along (h : Agree last s u) (positive : 0 < round) (allowed : round ≤ last)
    (latest : SearchTime) (entry : LineIndex × Nat) :
    Along last s u (ride c latest round s entry) (ride c latest round u entry) := by
  have counted : Agree last { s with nbOfScans := s.nbOfScans + 1 }
      { u with nbOfScans := u.nbOfScans + 1 } :=
    ⟨h.iteration_eq, h.left_lt, h.right_lt, h.rounds, h.arrived⟩
  have rides := visits_along (c := c) positive allowed latest entry.1
    (List.range' entry.2 ((c.timetable.line entry.1).nbOfPositions - entry.2)) counted .nil
  exact ⟨rides.agree, rides.left, rides.right⟩

theorem runRound_along (h : Agree last s u) (positive : 0 < round) (allowed : round ≤ last)
    (latest : SearchTime) (lines : List (LineIndex × Nat)) :
    Along last s u (runRound c latest round lines s) (runRound c latest round lines u) := by
  have counted : Agree last { s with lastRound := max s.lastRound round }
      { u with lastRound := max u.lastRound round } :=
    ⟨h.iteration_eq, h.left_lt, h.right_lt, h.rounds, h.arrived⟩
  have rides := Along.foldl_same (fun s u entry agree =>
    ride_along (c := c) agree positive allowed latest entry) lines counted
  have walks := walkFromTransit_along (c := c) rides.agree allowed latest
  exact ⟨walks.agree, rides.left.trans walks.left, rides.right.trans walks.right⟩

end Search

end JourneyPlanner
