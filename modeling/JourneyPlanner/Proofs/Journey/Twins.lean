import JourneyPlanner.Proofs.Journey.Rebuilt
import JourneyPlanner.Proofs.Search.Consistent
import JourneyPlanner.Proofs.Search.Twins

/-!
Twins have the same legs: what is read off a node is the same for every node that came about in the
same way, whatever the nodes are numbered. So two states that agree have found the same journeys
with few transfers.
-/

namespace JourneyPlanner

namespace JourneyTree

/-- Parents come before their nodes. -/
def IsOrdered (t : JourneyTree) : Prop :=
  ∀ i < t.size, ∀ parent, t.parent? i = some parent → parent < i

variable {t u : JourneyTree} {i j : NodeIndex}

theorem parent?_isSome (t : JourneyTree) (i : NodeIndex) :
    (t.parent? i).isSome = (t.node i).detached.step.parent?.isSome := by
  rw [parent?, Node.detached]
  cases (t.node i).step <;> rfl

theorem Twins.parents (h : Twins t u i j) (left : t.IsOrdered) (right : u.IsOrdered) :
    (t.parent? i = none ∧ u.parent? j = none) ∨
      ∃ p q, t.parent? i = some p ∧ u.parent? j = some q ∧ p < i ∧ q < j ∧ Twins t u p q := by
  have alike : (t.parent? i).isSome = (u.parent? j).isSome := by
    rw [parent?_isSome, parent?_isSome, h.detached_eq]
  cases first : t.parent? i with
  | none =>
      rw [first] at alike
      exact .inl ⟨rfl, Option.isNone_iff_eq_none.1 (by simpa using alike.symm)⟩
  | some p =>
      rw [first] at alike
      obtain ⟨q, second⟩ := Option.isSome_iff_exists.1 alike.symm
      have p_lt := left i h.left_lt p first
      have q_lt := right j h.right_lt q second
      have traces := h.trace_eq
      rw [trace, trace, lineage_of_parent first p_lt, lineage_of_parent second q_lt,
        List.map_append, List.map_append] at traces
      exact .inr ⟨p, q, rfl, second, p_lt, q_lt, Nat.lt_trans p_lt h.left_lt,
        Nat.lt_trans q_lt h.right_lt, (List.append_singleton_inj.1 traces).1⟩

end JourneyTree

theorem Search.Consistent.isOrdered {c : Search.Context} {s : SearchState}
    (h : Search.Consistent c s) : s.tree.IsOrdered :=
  fun i inside _ known => (h.follows i inside).parent_lt known

namespace Journey

open Search

variable {c : Context} {t u : JourneyTree} {i j : NodeIndex}

theorem legOf_eq (same : (t.node i).detached = (u.node j).detached)
    (source : ∀ p q, t.parent? i = some p → u.parent? j = some q →
      (t.node p).stop = (u.node q).stop) (time : SearchTime) :
    legOf c t time i = legOf c u time j := by
  have stop : (t.node i).stop = (u.node j).stop := by
    simpa using congrArg Node.stop same
  have step : (t.node i).step.detached = (u.node j).step.detached := by
    simpa using congrArg Node.step same
  simp only [JourneyTree.parent?] at source
  simp only [legOf, stop]
  cases left : (t.node i).step <;> cases right : (u.node j).step <;>
    simp_all [Step.parent?, Step.detached]

theorem legsOf_eq (h : t.Twins u i j) (left : t.IsOrdered) (right : u.IsOrdered)
    (time : SearchTime) :
    legsOf c t time (t.lineage i) = legsOf c u time (u.lineage j) ∧
      finishOf c t time (t.lineage i) = finishOf c u time (u.lineage j) := by
  induction i using Nat.strongRecOn generalizing j with
  | ind i ih =>
      have same := h.detached_eq
      rcases h.parents left right with ⟨first, second⟩ | ⟨p, q, first, second, p_lt, q_lt, older⟩
      · have leg : legOf c t time i = legOf c u time j := by
          refine legOf_eq same (fun p q known => ?_) time
          rw [first] at known
          cases known
        rw [JourneyTree.lineage_of_first first, JourneyTree.lineage_of_first second]
        simp [legsOf, finishOf, leg]
      · obtain ⟨legs, finish⟩ := ih p p_lt older
        have leg : legOf c t (finishOf c u time (u.lineage q)) i =
            legOf c u (finishOf c u time (u.lineage q)) j := by
          refine legOf_eq same (fun x y known other => ?_) _
          rw [← Option.some.inj (first.symm.trans known),
            ← Option.some.inj (second.symm.trans other)]
          exact older.stop_eq
        rw [JourneyTree.lineage_of_parent first p_lt, JourneyTree.lineage_of_parent second q_lt,
          legsOf_concat, legsOf_concat, finishOf_concat, finishOf_concat, legs, finish, leg]
        exact ⟨rfl, rfl⟩

theorem ofArrived_eq {a b : Arrived × ArrivalCriteria} (h : TwinArrivals t u a b)
    (left : t.IsOrdered) (right : u.IsOrdered) : ofArrived c t a = ofArrived c u b := by
  obtain ⟨legs, finish⟩ := legsOf_eq (c := c) h.twins left right a.2.departure
  simp only [ofArrived]
  rw [legsFrom_eq, legsFrom_eq, legs, finish, h.egress_eq, h.criteria_eq]

variable {last : Nat} {s v : SearchState}

theorem extract_agree (h : Agree last s v) (left : s.tree.IsOrdered) (right : v.tree.IsOrdered)
    (walkOnly : Bool) :
    extract c s walkOnly =
      (extract c v walkOnly).filter fun j => decide (j.nbOfTransfers < last) := by
  have journeys : s.arrived.map (ofArrived c s.tree) =
      (v.arrived.filter fun a => decide (a.2.nbOfTransfers < last)).map (ofArrived c v.tree) := by
    have pairs := h.arrived.imp fun _ _ same => ofArrived_eq (c := c) same left right
    exact List.forall₂_eq_eq_eq ▸ List.forall₂_map_left_iff.2 (List.forall₂_map_right_iff.2 pairs)
  have few : (fun a : Arrived × ArrivalCriteria => decide (a.2.nbOfTransfers < last)) =
      (fun j : Journey => decide (j.nbOfTransfers < last)) ∘ ofArrived c v.tree := rfl
  rw [extract, extract, journeys, few, ← List.filter_map, List.filter_filter, List.filter_filter]
  exact List.filter_congr fun j _ => Bool.and_comm _ _

end Journey

end JourneyPlanner
