import JourneyPlanner.Proofs.Search.Delivered
import JourneyPlanner.Proofs.Search.Reordered

/-!
What the states after the departure times remember of the nodes. A node is made in the departure
time it is of, and the state after that one knows of its arrival already. Nobody who could leave for
the destination is forgotten there either: neither those who get off a vehicle nor, where nobody may
board, those who come on foot.
-/

namespace JourneyPlanner.Search

variable {c : Context} {s t : SearchState} {round first last count i : Nat} {stop : StopIndex}
  {byVehicle : Bool} {label : NodeIndex × Criteria}

theorem Moves.iteration_of_new (moves : Moves c first last s t) (new : s.tree.size ≤ i)
    (inside : i < t.tree.size) : t.tree.iteration i = t.iteration := by
  induction moves with
  | refl => exact absurd inside (Nat.not_lt.2 new)
  | @tail u v before step ih =>
      obtain ⟨round, -, move⟩ := step
      by_cases older : i < u.tree.size
      · rw [JourneyTree.iteration, move.extends.node_eq i older, move.iteration_eq]
        exact ih older
      · cases move with
        | reach _ _ now =>
            rw [SearchState.tree_reach, JourneyTree.size_push] at inside
            have last : i = u.tree.size := by omega
            rw [SearchState.tree_reach, JourneyTree.iteration, last, JourneyTree.node_push_size]
            exact now
        | alight _ _ now =>
            rw [SearchState.tree_alight, JourneyTree.size_push] at inside
            have last : i = u.tree.size := by omega
            rw [SearchState.tree_alight, SearchState.iteration_alight, JourneyTree.iteration, last,
              JourneyTree.node_push_size]
            exact now
        | arrive => exact absurd inside older
        | count => exact absurd inside older

theorem stateAfter_moves (more : count < c.query.departureTimes.length) :
    Moves c 0 c.query.maxBoardings (stateAfter c count).nextIteration
      (stateAfter c (count + 1)) := by
  obtain ⟨consistent, number⟩ := stateAfter_spec (c := c) (Nat.le_of_lt more)
  have moves := fullIteration_moves consistent
  rwa [number, ← stateAfter_succ more] at moves

theorem lt_size_stateAfter (within : count ≤ c.query.departureTimes.length)
    (inside : i < (stateAfter c count).tree.size) :
    1 ≤ (stateAfter c count).tree.iteration i ∧ (stateAfter c count).tree.iteration i ≤ count ∧
      i < (stateAfter c ((stateAfter c count).tree.iteration i)).tree.size ∧
        (stateAfter c ((stateAfter c count).tree.iteration i)).tree.node i =
          (stateAfter c count).tree.node i := by
  induction count with
  | zero => cases inside
  | succ count ih =>
      have moves := stateAfter_moves within
      by_cases older : i < (stateAfter c count).tree.size
      · obtain ⟨positive, past, known, same⟩ := ih (by omega) older
        have kept := (later_stateAfter_succ within).extends.node_eq i older
        rw [JourneyTree.iteration, kept]
        exact ⟨positive, Nat.le_succ_of_le past, known, same⟩
      · have number := moves.iteration_of_new (Nat.not_lt.1 older) inside
        rw [(stateAfter_spec within).2] at number
        rw [number]
        exact ⟨Nat.succ_pos _, Nat.le_refl _, inside, rfl⟩

theorem Follows.stop_lt_of_legs (regular : c.timetable.IsRegular)
    (legs : ∀ leg ∈ c.query.access.legs, leg.stop < c.timetable.nbOfStops) {tree : JourneyTree}
    {bound : NodeIndex} {node : Node} (h : Follows c tree bound node) :
    node.stop < c.timetable.nbOfStops := by
  cases h with
  | access known => exact legs _ (Array.mem_of_getElem? known)
  | walk _ _ known => exact regular.target_lt _ _ known
  | ride _ _ _ _ inside =>
      exact regular.stopAt_lt _ (Timetable.lt_nbOfLines inside) _ inside

theorem Reached.knows_node (h : Reached c s) (standard : c.profile = .standard)
    (regular : c.timetable.IsRegular)
    (legs : ∀ leg ∈ c.query.access.legs, leg.stop < c.timetable.nbOfStops)
    (inside : i < s.tree.size) :
    Knows s (s.tree.node i).criteria.nbOfTrips
      ⟨(s.tree.node i).stop, (s.tree.node i).criteria.arrival, (s.tree.node i).step.isRide⟩ := by
  induction h with
  | refl => cases inside
  | @tail u v before next ih =>
      have reached : Reached c u := before
      have later : Later c u v := .single next
      by_cases older : i < u.tree.size
      · rw [later.extends.node_eq i older]
        exact later.knows standard (ih older)
      · cases next with
        | iteration => exact absurd inside older
        | move move =>
            cases move with
            | @reach node follows onFoot now trips =>
                rw [SearchState.tree_reach] at inside ⊢
                rw [JourneyTree.size_push] at inside
                have last : i = u.tree.size := by omega
                have allowed := reached.consistent.nbOfTrips_le follows onFoot
                rw [last, JourneyTree.node_push_size, trips, onFoot, standard]
                exact (adds_reach reached.consistent.sized (trips ▸ allowed) node
                  (follows.stop_lt_of_legs regular legs) _).2 (.inr (.refl _))
            | @alight node follows byVehicle now trips allowed =>
                rw [SearchState.tree_alight] at inside ⊢
                rw [JourneyTree.size_push] at inside
                have last : i = u.tree.size := by omega
                rw [last, JourneyTree.node_push_size, trips, byVehicle, standard]
                exact (adds_alight reached.consistent.sized allowed node
                  (follows.stop_lt_of_legs regular legs) _).2 (.inr (.refl _))
            | arrive => exact absurd inside older
            | count => exact absurd inside older

theorem foldl_of_mem {σ α : Type} {f : σ → α → σ} {l : List α} {a : α} {s : σ} (member : a ∈ l)
    {I P : σ → Prop} (start : I s) (step : ∀ b ∈ l, ∀ t, I t → I (f t b))
    (keeps : ∀ b ∈ l, ∀ t, I t → P t → P (f t b)) (establishes : ∀ t, I t → P (f t a)) :
    P (l.foldl f s) := by
  obtain ⟨before, after, rfl⟩ := List.append_of_mem member
  rw [List.foldl_append, List.foldl_cons]
  have here : I (before.foldl f s) := List.foldlRecOn before f start fun t known b among =>
    step b (List.mem_append_left _ among) t known
  have both : I (f (before.foldl f s) a) ∧ P (f (before.foldl f s) a) :=
    ⟨step a member _ here, establishes _ here⟩
  refine (List.foldlRecOn (motive := fun t => I t ∧ P t) after f both fun t known b among => ?_).2
  have listed := List.mem_append_right before (List.mem_cons_of_mem a among)
  exact ⟨step b listed t known.1, keeps b listed t known.1 known.2⟩

theorem isDelivered_arriveOnFoot (h : Consistent c s) (current : label ∈ currentLabels s 0 stop) :
    IsDelivered c (arriveOnFoot c (latestOf c s.iteration) s) (s.tree.node label.1) := by
  obtain ⟨inFront, now⟩ := List.mem_filter.1 current
  have now : s.tree.iteration label.1 = s.iteration := beq_iff_eq.1 now
  have isLabel := h.labels 0 stop label inFront
  have listed := Array.mem_toList_iff.2 (h.touched 0 stop label inFront now)
  rw [arriveOnFoot, ← Array.foldl_toList]
  have inner (x : StopIndex) (t : SearchState) (same : SameButArrived s t) :
      SameButArrived s ((currentLabels t 0 x).foldl (fun u other =>
        Search.finish c (latestOf c s.iteration) (u.tree.node other.1).departure 0 other.1 x other.2
          u) t) :=
    List.foldlRecOn (motive := SameButArrived s) _ _ same fun u kept other _ => kept.finish ..
  refine foldl_of_mem listed (I := SameButArrived s)
    (P := fun t => IsDelivered c t (s.tree.node label.1)) ⟨rfl, rfl, fun _ => rfl⟩
    (fun x _ t same => inner x t same) (fun x _ t same delivered => ?_) fun t same => ?_
  · exact List.foldlRecOn (motive := fun u => IsDelivered c u (s.tree.node label.1)) _ _ delivered
      fun u kept other _ => IsDelivered.finish kept _ _ _ _ _
  · have stays : label ∈ currentLabels t 0 stop := by
      simpa only [currentLabels, same.round_eq, same.tree_eq, same.iteration_eq] using current
    refine foldl_of_mem stays (I := SameButArrived s)
      (P := fun t => IsDelivered c t (s.tree.node label.1)) same
      (fun other _ u kept => kept.finish ..)
      (fun other _ u _ delivered => IsDelivered.finish delivered _ _ _ _ _) fun u kept => ?_
    have delivered := isDelivered_finish (c := c) (s.tree.node label.1) label.1 u
    have number : (s.tree.node label.1).iteration = s.iteration := now
    rw [number, isLabel.stop_eq, isLabel.criteria_eq, isLabel.trips] at delivered
    rw [kept.tree_eq]
    exact delivered

theorem isDelivered_onFoot (none : c.query.maxBoardings = 0)
    (some : 0 < c.query.departureTimes.length)
    (member : label ∈ ((stateAfter c 1).round 0).front stop) :
    IsDelivered c (stateAfter c 1) ((stateAfter c 1).tree.node label.1) := by
  have initial := (stateAfter_spec (c := c) (Nat.zero_le _)).1
  let departed := runAccess c (departureOf c 1) (stateAfter c 0)
  have moves : Moves c 0 0 (stateAfter c 0).nextIteration departed := runAccess_moves initial
  have number : departed.iteration = 1 := moves.iteration_eq
  have start : Consistent c departed := initial.nextIteration.moves moves
  have last : stateAfter c 1 = arriveOnFoot c (latestOf c departed.iteration) departed := by
    rw [number, stateAfter_succ some, fullIteration_eq, if_pos none]
    rfl
  have kept : SameButArrived departed (stateAfter c 1) := by
    rw [last]
    exact sameButArrived_arriveOnFoot _ _
  rw [kept.round_eq] at member
  have older := (start.labels 0 stop label member).older
  have now := moves.iteration_of_new (Nat.zero_le _) older
  have current : label ∈ currentLabels departed 0 stop := by
    rw [currentLabels, List.mem_filter]
    exact ⟨member, beq_iff_eq.2 now⟩
  have delivered := isDelivered_arriveOnFoot start current
  rw [← last] at delivered
  rw [kept.tree_eq]
  exact delivered

theorem isDelivered_of_label {more : Nat} (within : more ≤ c.query.departureTimes.length)
    (le : count ≤ more) (member : label ∈ labelsAt (stateAfter c count) round stop byVehicle)
    (leaves : byVehicle = true ∨ c.query.maxBoardings = 0) :
    IsDelivered c (stateAfter c more) ((stateAfter c more).tree.node label.1) := by
  have later := later_stateAfter (c := c) le within
  have consistent := (stateAfter_spec (c := c) (Nat.le_trans le within)).1
  have isLabel := consistent.isLabel_of_mem member
  cases byVehicle with
  | true =>
      have rides := (consistent.transitLabels round stop label member).2
      rw [← later.extends.node_eq _ isLabel.older] at rides
      exact allDelivered_stateAfter within _
        (Nat.lt_of_lt_of_le isLabel.older later.extends.size_le) rides
  | false =>
      -- There is one departure time only, and all the labels are in round zero.
      have none : c.query.maxBoardings = 0 := leaves.resolve_left Bool.false_ne_true
      have single : c.query.departureTimes.length = 1 := by simp [Query.departureTimes, none]
      obtain ⟨positive, past, -⟩ := lt_size_stateAfter (Nat.le_trans le within) isLabel.older
      obtain ⟨rfl, rfl⟩ : count = 1 ∧ more = 1 := by omega
      have allowed := consistent.allowed _ isLabel.older
      rw [isLabel.criteria_eq, isLabel.trips, none] at allowed
      obtain rfl : round = 0 := Nat.le_zero.1 allowed
      exact isDelivered_onFoot none within member

end JourneyPlanner.Search
