import JourneyPlanner.Proofs.Search.Fronts
import JourneyPlanner.Proofs.Selection

/-!
What a front keeps of the candidates that are added to it one after the other. Whether a candidate
is inserted, and which ones are there in the end, can be read off the candidates; that some of them
were removed again makes no difference, since what removed them covers whatever they covered.
-/

namespace JourneyPlanner

open Selection

namespace Profile

theorem isOrder_atLeastAsGood (p : Profile) : IsOrder p.atLeastAsGood :=
  ⟨p.atLeastAsGood_refl, p.atLeastAsGood_trans _ _ _⟩

theorem isOrder_atLeastAsGoodAtDestination (p : Profile) :
    IsOrder p.atLeastAsGoodAtDestination :=
  ⟨p.atLeastAsGoodAtDestination_refl, p.atLeastAsGoodAtDestination_trans _ _ _⟩

end Profile

namespace Front

variable {α C : Type} {le : C → C → Bool}

/-- Elements are compared by their criteria. -/
def byCriteria (le : C → C → Bool) (x y : α × C) : Bool :=
  le x.2 y.2

theorem isOrder_byCriteria (order : IsOrder le) : IsOrder (byCriteria (α := α) le) :=
  ⟨fun x => order.refl x.2, fun first second => order.trans first second⟩

theorem ofCandidates_eq_best (order : IsOrder le) (candidates : List (α × C)) :
    ofCandidates le candidates = best (byCriteria le) candidates :=
  (foldl_keep (isOrder_byCriteria order) candidates).1

theorem inserts_ofCandidates_iff (order : IsOrder le) {candidates : List (α × C)} {criteria : C} :
    (ofCandidates le candidates).inserts le criteria = true ↔
      ∀ y ∈ candidates, le y.2 criteria = false := by
  rw [inserts, Bool.not_eq_true', covers, List.any_eq_false]
  constructor
  · intro uncovered y member
    refine Bool.eq_false_iff.2 fun better => ?_
    obtain ⟨z, among, least⟩ := covers_iff.1
      (covers_ofCandidates (fun _ => order.refl _) (fun _ _ _ => order.trans) member)
    exact uncovered z among (order.trans least better)
  · intro new z among
    rw [new z (mem_of_mem_ofCandidates among)]
    exact Bool.false_ne_true

theorem add_ne_self_iff (order : IsOrder le) {front : Front α C} {item : α} {criteria : C} :
    front.add le item criteria ≠ front ↔ front.inserts le criteria = true := by
  rw [add, inserts]
  split
  · next covered => simp [covered]
  · next uncovered =>
      refine iff_of_true (fun same => uncovered ?_) (by simp [uncovered])
      rw [← same]
      exact covers_pruneAndPush_self order.refl front item criteria

theorem isAntichain_ofCandidates (le : C → C → Bool) (candidates : List (α × C)) :
    (ofCandidates le candidates).IsAntichain le :=
  List.foldlRecOn candidates _ List.Pairwise.nil fun _ apart x _ => apart.add x.1 x.2

/-- What a front keeps of its candidates. A candidate is inserted when no earlier one is at least as
good, removed or not. In the end those are there, in their order, that no earlier one is as good as
and each later one only if it is equally good. They are an antichain, they cover all candidates, and
in another order the candidates leave equally good ones. Both profiles compare in this way. -/
theorem ofCandidates_exact (order : IsOrder le) (candidates : List (α × C)) :
    (∀ i item criteria, candidates[i]? = some (item, criteria) →
      let front := ofCandidates le (candidates.take i)
      (front.inserts le criteria = true ↔ ∀ y ∈ candidates.take i, le y.2 criteria = false) ∧
        (front.inserts le criteria = true ↔ front.add le item criteria ≠ front) ∧
          ofCandidates le (candidates.take (i + 1)) = front.add le item criteria) ∧
    ofCandidates le candidates = (candidates.zipIdx.filter fun entry =>
      IsBest (byCriteria le) candidates entry.2 entry.1).map (·.1) ∧
    (ofCandidates le candidates).IsAntichain le ∧
    (∀ x ∈ candidates, (ofCandidates le candidates).covers le x.2 = true) ∧
    (∀ others, candidates.Perm others →
      (∀ x ∈ ofCandidates le candidates, ∃ y ∈ ofCandidates le others,
        le x.2 y.2 = true ∧ le y.2 x.2 = true) ∧
      ∀ y ∈ ofCandidates le others, ∃ x ∈ ofCandidates le candidates,
        le x.2 y.2 = true ∧ le y.2 x.2 = true) ∧
    ∀ p : Profile, IsOrder p.atLeastAsGood ∧ IsOrder p.atLeastAsGoodAtDestination := by
  refine ⟨fun i item criteria known => ?_, ofCandidates_eq_best order candidates,
    isAntichain_ofCandidates le candidates,
    fun x member => covers_ofCandidates order.refl (fun _ _ _ => order.trans) member,
    fun others perm => ?_, fun p => ⟨p.isOrder_atLeastAsGood, p.isOrder_atLeastAsGoodAtDestination⟩⟩
  · refine ⟨inserts_ofCandidates_iff order, (add_ne_self_iff order).symm, ?_⟩
    rw [List.take_add_one, known, ofCandidates, List.foldl_append]
    rfl
  · rw [ofCandidates_eq_best order, ofCandidates_eq_best order]
    have byOrder := isOrder_byCriteria (α := α) order
    refine ⟨fun x member => exists_equally_good byOrder (fun _ => perm.mem_iff) member,
      fun y member => ?_⟩
    obtain ⟨x, among, better, worse⟩ :=
      exists_equally_good byOrder (fun _ => perm.symm.mem_iff) member
    exact ⟨x, among, worse, better⟩

theorem ofCandidates_exact_removed :
    let le := Profile.multiCriteria.atLeastAsGood
    let arrivals : List (Nat × Criteria) := [(0, ⟨⟨100⟩, 1, .ofUnits 50⟩),
      (1, ⟨⟨50⟩, 2, .ofUnits 80⟩), (2, ⟨⟨120⟩, 0, .ofUnits 10⟩), (3, ⟨⟨50⟩, 1, .ofUnits 40⟩),
      (4, ⟨⟨100⟩, 1, .ofUnits 60⟩), (5, ⟨⟨50⟩, 1, .ofUnits 40⟩)]
    IsOrder le ∧ arrivals[4]? = some (4, ⟨⟨100⟩, 1, .ofUnits 60⟩) ∧
      (ofCandidates le (arrivals.take 4)).inserts le ⟨⟨100⟩, 1, .ofUnits 60⟩ = false ∧
      (ofCandidates le arrivals).map (·.1) = [2, 3] ∧ arrivals.Perm arrivals.reverse ∧
        ∃ y ∈ ofCandidates le arrivals.reverse, y.1 = 5 ∧
          ∃ x ∈ ofCandidates le arrivals, le x.2 y.2 = true ∧ le y.2 x.2 = true := by
  intro le arrivals
  have order : IsOrder le := Profile.isOrder_atLeastAsGood _
  obtain ⟨inserted, exact, -, -, reordered, -⟩ := ofCandidates_exact order arrivals
  have kept : (ofCandidates le arrivals).map (·.1) = [2, 3] := by
    rw [exact]
    decide +kernel
  have perm : arrivals.Perm arrivals.reverse := (List.reverse_perm arrivals).symm
  have second : (5, ⟨⟨50⟩, 1, .ofUnits 40⟩) ∈ ofCandidates le arrivals.reverse := by
    decide +kernel
  refine ⟨order, rfl, ?_, kept, perm, _, second, rfl, (reordered _ perm).2 _ second⟩
  refine Bool.eq_false_iff.2 fun new => ?_
  have first := (inserted 4 4 _ rfl).1.1 new (0, ⟨⟨100⟩, 1, .ofUnits 50⟩) (by decide)
  exact absurd first (by decide)

end Front

end JourneyPlanner
