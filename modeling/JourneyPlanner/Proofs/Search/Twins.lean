import JourneyPlanner.Proofs.Search.Labels
import JourneyPlanner.Proofs.Search.Trace
import Mathlib.Data.List.Forall2

/-!
Two states that agree up to a round: they list the same stops, their fronts hold labels of twins in
the same order, and so do their arrivals at the destination with fewer transfers. What is asked of
such fronts has the same answer on both sides, and what is put into both keeps them in agreement. An
arrival with more transfers on one side makes no difference, since it is never at least as good as
one with fewer.
-/

namespace JourneyPlanner

theorem forall₂_filter {α β : Type} {R : α → β → Prop} {p : α → Bool} {q : β → Bool} {l : List α}
    {m : List β} (h : List.Forall₂ R l m) (same : ∀ a b, R a b → p a = q b) :
    List.Forall₂ R (l.filter p) (m.filter q) := by
  induction h with
  | nil => exact .nil
  | @cons a b _ _ related _ ih =>
      rw [List.filter_cons, List.filter_cons, same a b related]
      split
      · exact .cons related ih
      · exact ih

namespace Front

section

variable {α β C : Type} {le : C → C → Bool} {R : α × C → β × C → Prop} {f : Front α C}
  {g : Front β C} {a : α} {b : β} {criteria : C}

theorem covers_eq (h : List.Forall₂ R f g) (same : ∀ a b, R a b → a.2 = b.2) (criteria : C) :
    f.covers le criteria = g.covers le criteria := by
  induction h with
  | nil => rfl
  | @cons x y _ _ related _ ih =>
      simp only [covers, List.any_cons] at ih ⊢
      rw [ih, same x y related]

theorem forall₂_pruneAndPush (h : List.Forall₂ R f g) (same : ∀ a b, R a b → a.2 = b.2)
    (new : R (a, criteria) (b, criteria)) :
    List.Forall₂ R (f.pruneAndPush le a criteria) (g.pruneAndPush le b criteria) := by
  have pruned : List.Forall₂ R (f.prune le criteria) (g.prune le criteria) :=
    forall₂_filter h fun x y related => by rw [same x y related]
  exact List.rel_append pruned (.cons new .nil)

theorem forall₂_add (h : List.Forall₂ R f g) (same : ∀ a b, R a b → a.2 = b.2)
    (new : R (a, criteria) (b, criteria)) :
    List.Forall₂ R (f.add le a criteria) (g.add le b criteria) := by
  rw [add, add, covers_eq h same]
  split
  · exact h
  · exact forall₂_pruneAndPush h same new

theorem forall₂_ofCandidates (h : List.Forall₂ R f g) (same : ∀ a b, R a b → a.2 = b.2) :
    List.Forall₂ R (ofCandidates le f) (ofCandidates le g) := by
  have general : ∀ {k : Front α C} {l : Front β C}, List.Forall₂ R k l →
      List.Forall₂ R (f.foldl (fun front candidate => add le front candidate.1 candidate.2) k)
        (g.foldl (fun front candidate => add le front candidate.1 candidate.2) l) := by
    induction h with
    | nil => exact id
    | @cons x y _ _ related _ ih =>
        intro k l start
        obtain ⟨a, criteria⟩ := x
        obtain ⟨b, others⟩ := y
        have equal : criteria = others := same _ _ related
        subst equal
        exact ih (forall₂_add start same related)
  exact general .nil

end

theorem filter_add {α C : Type} {le : C → C → Bool} {few : C → Bool}
    (closed : ∀ a b, le a b = true → few b = true → few a = true) (front : Front α C) (item : α)
    (criteria : C) :
    (front.add le item criteria).filter (fun e => few e.2) =
      if few criteria then Front.add le (front.filter fun e => few e.2) item criteria
      else front.filter fun e => few e.2 := by
  have pruned : (front.prune le criteria).filter (fun e => few e.2) =
      Front.prune le (front.filter fun e => few e.2) criteria := by
    rw [prune, prune, List.filter_filter, List.filter_filter]
    exact List.filter_congr fun e _ => Bool.and_comm _ _
  cases known : few criteria with
  | true =>
      have covered : Front.covers le (front.filter fun e => few e.2) criteria =
          front.covers le criteria := by
        rw [covers, covers, List.any_filter]
        refine List.any_congr rfl fun e => ?_
        cases better : le e.2 criteria with
        | true => rw [closed _ _ better known, Bool.true_and]
        | false => rw [Bool.and_false]
      rw [if_pos rfl, add, add, covered]
      split
      · rfl
      · rw [pruneAndPush, pruneAndPush, push, push, List.filter_append, pruned]
        simp [known]
  | false =>
      have untouched : Front.prune le (front.filter fun e => few e.2) criteria =
          front.filter fun e => few e.2 := by
        rw [prune, List.filter_eq_self]
        intro e member
        rw [Bool.not_eq_true', Bool.eq_false_iff]
        intro worse
        rw [closed _ _ worse (List.mem_filter.1 member).2] at known
        cases known
      rw [if_neg (by simp), add]
      split
      · rfl
      · rw [pruneAndPush, push, List.filter_append, pruned, untouched]
        simp [known]

end Front

/-- Labels of a round that stand for twins. -/
structure TwinLabels (t u : JourneyTree) (round : Nat) (l m : NodeIndex × Criteria) : Prop where
  twins : t.Twins u l.1 m.1
  criteria_eq : l.2 = m.2
  trips : l.2.nbOfTrips = round

structure TwinArrivals (t u : JourneyTree) (a b : Arrived × ArrivalCriteria) : Prop where
  twins : t.Twins u a.1.node b.1.node
  egress_eq : a.1.egress = b.1.egress
  criteria_eq : a.2 = b.2

structure TwinRounds (t u : JourneyTree) (round : Nat) (r q : Round) : Prop where
  all_size : r.all.size = q.all.size
  transit_size : r.transit.size = q.transit.size
  fronts : ∀ x, List.Forall₂ (TwinLabels t u round) (r.front x) (q.front x)
  transitFronts : ∀ x,
    List.Forall₂ (TwinLabels t u round) (r.transitFront x) (q.transitFront x)
  touched : r.touched = q.touched
  touchedByTransit : r.touchedByTransit = q.touchedByTransit

/-- The second state may have more rounds, and arrivals with as many transfers as `last` or more. -/
structure Agree (last : Nat) (s u : SearchState) : Prop where
  iteration_eq : s.iteration = u.iteration
  left_lt : last < s.rounds.size
  right_lt : last < u.rounds.size
  rounds : ∀ i ≤ last, TwinRounds s.tree u.tree i (s.round i) (u.round i)
  arrived : List.Forall₂ (TwinArrivals s.tree u.tree) s.arrived
    (u.arrived.filter fun a => decide (a.2.nbOfTransfers < last))

section

variable {t u v w : JourneyTree} {round : Nat} {r q : Round}

theorem TwinLabels.extends {l m : NodeIndex × Criteria} (h : TwinLabels t u round l m)
    (tv : t.Extends v) (uw : u.Extends w) : TwinLabels v w round l m :=
  ⟨h.twins.extends tv uw, h.criteria_eq, h.trips⟩

theorem TwinArrivals.extends {a b : Arrived × ArrivalCriteria} (h : TwinArrivals t u a b)
    (tv : t.Extends v) (uw : u.Extends w) : TwinArrivals v w a b :=
  ⟨h.twins.extends tv uw, h.egress_eq, h.criteria_eq⟩

theorem TwinRounds.extends (h : TwinRounds t u round r q) (tv : t.Extends v) (uw : u.Extends w) :
    TwinRounds v w round r q :=
  ⟨h.all_size, h.transit_size, fun x => (h.fronts x).imp fun _ _ same => same.extends tv uw,
    fun x => (h.transitFronts x).imp fun _ _ same => same.extends tv uw, h.touched,
    h.touchedByTransit⟩

theorem TwinRounds.insert (h : TwinRounds t u round r q) (p : Profile) (stop : StopIndex)
    {i j : NodeIndex} {criteria : Criteria}
    (new : TwinLabels t u round (i, criteria) (j, criteria)) :
    TwinRounds t u round
      { r with
        all := r.all.modify stop fun front => front.pruneAndPush p.atLeastAsGood i criteria
        touched := r.touched.touch stop }
      { q with
        all := q.all.modify stop fun front => front.pruneAndPush p.atLeastAsGood j criteria
        touched := q.touched.touch stop } := by
  refine ⟨by simp [h.all_size], h.transit_size, fun x => ?_, h.transitFronts, by rw [h.touched],
    h.touchedByTransit⟩
  simp only [Round.front]
  rw [Round.front_modify, Round.front_modify, h.all_size]
  split
  · exact Front.forall₂_pruneAndPush (h.fronts stop) (fun _ _ same => same.criteria_eq) new
  · exact h.fronts x

theorem TwinRounds.insertTransit (h : TwinRounds t u round r q) (p : Profile) (stop : StopIndex)
    {i j : NodeIndex} {criteria : Criteria}
    (new : TwinLabels t u round (i, criteria) (j, criteria)) :
    TwinRounds t u round
      { r with
        transit := r.transit.modify stop fun front =>
          front.pruneAndPush p.atLeastAsGood i criteria
        touchedByTransit := r.touchedByTransit.touch stop }
      { q with
        transit := q.transit.modify stop fun front =>
          front.pruneAndPush p.atLeastAsGood j criteria
        touchedByTransit := q.touchedByTransit.touch stop } := by
  refine ⟨h.all_size, by simp [h.transit_size], h.fronts, fun x => ?_, h.touched,
    by rw [h.touchedByTransit]⟩
  simp only [Round.transitFront]
  rw [Round.transitFront_modify, Round.transitFront_modify, h.transit_size]
  split
  · exact Front.forall₂_pruneAndPush (h.transitFronts stop) (fun _ _ same => same.criteria_eq) new
  · exact h.transitFronts x

end

end JourneyPlanner
