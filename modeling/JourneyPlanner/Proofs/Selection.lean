import Mathlib.Data.List.Induction
import Mathlib.Data.List.Pairwise

/-!
Candidates that come one after the other, of which some are kept: a candidate that a kept one is at
least as good as is left out, and one that is kept drops those that it is at least as good as. Where
being at least as good is reflexive and transitive, what is kept in the end can be read off the
candidates alone, although those that were dropped no longer count when later ones come: a candidate
stays when no earlier one is at least as good, and each later one that is so is no better.
-/

namespace JourneyPlanner.Selection

variable {α : Type} {le : α → α → Bool} {candidates kept : List α} {x y : α}

/-- Being at least as good is reflexive and transitive. -/
structure IsOrder (le : α → α → Bool) : Prop where
  refl : ∀ x, le x x = true
  trans : ∀ {x y z}, le x y = true → le y z = true → le x z = true

/-- Neither is at least as good as the other one. -/
def Apart (le : α → α → Bool) (x y : α) : Prop :=
  le x y = false ∧ le y x = false

instance : Std.Symm (Apart le) :=
  ⟨fun _ _ apart => ⟨apart.2, apart.1⟩⟩

/-- Keeps a candidate that no kept one covers, and drops those that it covers. -/
def keep (le : α → α → Bool) (kept : List α) (x : α) : List α :=
  if kept.any (le · x) then kept else kept.filter (fun y => !le x y) ++ [x]

/-- No earlier candidate is at least as good as the one at an index, and each later one that is so
is no better. -/
def IsBest (le : α → α → Bool) (candidates : List α) (i : Nat) (x : α) : Prop :=
  (∀ y ∈ candidates.take i, le y x = false) ∧
    ∀ y ∈ candidates.drop (i + 1), le y x = true → le x y = true

instance (le : α → α → Bool) (candidates : List α) (i : Nat) (x : α) :
    Decidable (IsBest le candidates i x) :=
  inferInstanceAs (Decidable (_ ∧ _))

/-- The best candidates, in their order. -/
def best (le : α → α → Bool) (candidates : List α) : List α :=
  (candidates.zipIdx.filter fun entry => IsBest le candidates entry.2 entry.1).map (·.1)

theorem mem_best : x ∈ best le candidates ↔
    ∃ i, candidates[i]? = some x ∧ IsBest le candidates i x := by
  simp [best, List.mem_zipIdx_iff_getElem?]

theorem best_sublist : (best le candidates).Sublist candidates := by
  have sublist := (List.filter_sublist (p := fun entry : α × Nat =>
    decide (IsBest le candidates entry.2 entry.1)) (l := candidates.zipIdx)).map Prod.fst
  rwa [List.zipIdx_map_fst] at sublist

theorem isBest_append {i : Nat} (inside : i < candidates.length) :
    IsBest le (candidates ++ [x]) i y ↔
      IsBest le candidates i y ∧ (le x y = true → le y x = true) := by
  rw [IsBest, IsBest, List.take_append_of_le_length (Nat.le_of_lt inside),
    List.drop_append_of_le_length inside, and_assoc]
  simp only [List.mem_append, List.mem_singleton, or_imp, forall_and, forall_eq]

theorem isBest_last : IsBest le (candidates ++ [x]) candidates.length x ↔
    ∀ y ∈ candidates, le y x = false := by
  simp [IsBest]

theorem best_append (stays : α → Bool) (known : ∀ y ∈ best le candidates,
      stays y = true ↔ (le x y = true → le y x = true)) :
    best le (candidates ++ [x]) = (best le candidates).filter stays ++
      if ∀ y ∈ candidates, le y x = false then [x] else [] := by
  have earlier : (candidates.zipIdx.filter fun entry =>
        IsBest le (candidates ++ [x]) entry.2 entry.1) =
      (candidates.zipIdx.filter fun entry => IsBest le candidates entry.2 entry.1).filter
        fun entry => stays entry.1 := by
    rw [List.filter_filter]
    refine List.filter_congr fun entry member => ?_
    have at' := List.mem_zipIdx_iff_getElem?.1 member
    rw [Bool.eq_iff_iff, Bool.and_eq_true, decide_eq_true_eq, decide_eq_true_eq,
      isBest_append (List.getElem?_eq_some_iff.1 at').1, and_comm]
    exact and_congr_left fun isBest => (known entry.1 (mem_best.2 ⟨entry.2, at', isBest⟩)).symm
  rw [best, List.zipIdx_append, List.filter_append, List.map_append, earlier, best, List.filter_map]
  refine congrArg _ ?_
  simp only [List.zipIdx_singleton, Nat.zero_add, List.filter_cons, List.filter_nil, isBest_last,
    decide_eq_true_eq]
  split <;> rfl

theorem IsBest.le_of_le (order : IsOrder le) {i : Nat} (at' : candidates[i]? = some y)
    (isBest : IsBest le candidates i y) {z : α} (member : z ∈ candidates) (better : le z x = true)
    (worse : le x y = true) : le y x = true := by
  obtain ⟨j, inside, rfl⟩ := List.getElem_of_mem member
  have same := order.trans better worse
  obtain ⟨here, rfl⟩ := List.getElem?_eq_some_iff.1 at'
  rcases Nat.lt_trichotomy j i with earlier | rfl | later
  · have before : candidates[j] ∈ candidates.take i :=
      List.mem_take_iff_getElem.2 ⟨j, by omega, rfl⟩
    rw [isBest.1 _ before] at same
    cases same
  · exact better
  · have after : candidates[j] ∈ candidates.drop (i + 1) :=
      List.mem_drop_iff_getElem.2 ⟨j - (i + 1), by omega, by congr 1; omega⟩
    exact order.trans (isBest.2 _ after same) better

theorem keep_best (order : IsOrder le)
    (covered : ∀ y ∈ candidates, ∃ z ∈ best le candidates, le z y = true) :
    keep le (best le candidates) x = best le (candidates ++ [x]) := by
  by_cases better : ∃ z ∈ candidates, le z x = true
  · obtain ⟨z, member, better⟩ := better
    obtain ⟨w, kept, least⟩ := covered z member
    have all : best le (candidates ++ [x]) = _ := best_append (fun _ => true) fun y isBest => by
      obtain ⟨i, at', isBest⟩ := mem_best.1 isBest
      exact iff_of_true rfl (isBest.le_of_le order at' member better)
    have notNew : ¬∀ y ∈ candidates, le y x = false := fun new => by
      rw [new z member] at better
      cases better
    have least : le w x = true := order.trans least better
    rw [all, if_neg notNew, List.append_nil, List.filter_eq_self.2 fun _ _ => rfl, keep,
      if_pos (List.any_eq_true.2 ⟨w, kept, least⟩)]
  · have new : ∀ y ∈ candidates, le y x = false := fun y member =>
      Bool.eq_false_iff.2 fun le => better ⟨y, member, le⟩
    have all : best le (candidates ++ [x]) = _ := best_append (fun y => !le x y) fun y isBest => by
      rw [new y (best_sublist.subset isBest)]
      simp
    have uncovered : ¬(best le candidates).any (le · x) = true := fun any => by
      obtain ⟨z, kept, le⟩ := List.any_eq_true.1 any
      exact better ⟨z, best_sublist.subset kept, le⟩
    rw [all, if_pos new, keep, if_neg uncovered]

theorem exists_le_keep (order : IsOrder le) (h : ∃ z ∈ kept, le z y = true) (x : α) :
    ∃ z ∈ keep le kept x, le z y = true := by
  obtain ⟨z, member, better⟩ := h
  rw [keep]
  split
  · exact ⟨z, member, better⟩
  · by_cases dropped : le x z = true
    · exact ⟨x, by simp, order.trans dropped better⟩
    · exact ⟨z, List.mem_append_left _ (List.mem_filter.2 ⟨member, by simpa using dropped⟩), better⟩

theorem exists_le_keep_self (order : IsOrder le) (kept : List α) (x : α) :
    ∃ z ∈ keep le kept x, le z x = true := by
  rw [keep]
  split
  · next covered => exact List.any_eq_true.1 covered
  · exact ⟨x, by simp, order.refl x⟩

theorem foldl_keep (order : IsOrder le) (candidates : List α) :
    candidates.foldl (keep le) [] = best le candidates ∧
      ∀ y ∈ candidates, ∃ z ∈ best le candidates, le z y = true := by
  induction candidates using List.reverseRecOn with
  | nil => exact ⟨rfl, fun _ none => absurd none List.not_mem_nil⟩
  | append_singleton candidates x ih =>
      obtain ⟨equal, covered⟩ := ih
      have step := keep_best (x := x) order covered
      rw [List.foldl_append, List.foldl_cons, List.foldl_nil, equal, step]
      refine ⟨rfl, fun y member => ?_⟩
      rw [← step]
      rcases List.mem_append.1 member with earlier | new
      · exact exists_le_keep order (covered y earlier) x
      · rw [List.mem_singleton.1 new]
        exact exists_le_keep_self order _ x

theorem best_of_pairwise (apart : candidates.Pairwise (Apart le)) :
    best le candidates = candidates := by
  have apart := List.pairwise_iff_getElem.1 apart
  have all : (candidates.zipIdx.filter fun entry => IsBest le candidates entry.2 entry.1) =
      candidates.zipIdx := by
    refine List.filter_eq_self.2 fun entry member => decide_eq_true ?_
    obtain ⟨inside, equal⟩ :=
      List.getElem?_eq_some_iff.1 (List.mem_zipIdx_iff_getElem?.1 member)
    rw [← equal]
    refine ⟨fun y earlier => ?_, fun y later better => ?_⟩
    · obtain ⟨j, before, rfl⟩ := List.mem_take_iff_getElem.1 earlier
      exact (apart j entry.2 (by omega) inside (by omega)).1
    · obtain ⟨j, after, rfl⟩ := List.mem_drop_iff_getElem.1 later
      rw [(apart entry.2 (entry.2 + 1 + j) inside (by omega) (by omega)).2] at better
      cases better
  rw [best, all, List.zipIdx_map_fst]

theorem pairwise_keep (apart : kept.Pairwise (Apart le)) :
    (keep le kept x).Pairwise (Apart le) := by
  rw [keep]
  split
  · exact apart
  · next uncovered =>
      refine List.pairwise_append.2 ⟨apart.filter _, List.pairwise_singleton _ _, ?_⟩
      intro old stays new isNew
      obtain ⟨member, worse⟩ := List.mem_filter.1 stays
      rw [List.mem_singleton.1 isNew]
      exact ⟨Bool.eq_false_iff.2 (List.any_eq_false.1 (Bool.eq_false_iff.2 uncovered) old member),
        by simpa using worse⟩

theorem pairwise_best (order : IsOrder le) (candidates : List α) :
    (best le candidates).Pairwise (Apart le) := by
  rw [← (foldl_keep order candidates).1]
  exact List.foldlRecOn candidates (keep le) List.Pairwise.nil fun _ apart _ _ =>
    pairwise_keep apart

theorem exists_equally_good (order : IsOrder le) {others : List α}
    (same : ∀ x, x ∈ candidates ↔ x ∈ others) (member : x ∈ best le candidates) :
    ∃ y ∈ best le others, le x y = true ∧ le y x = true := by
  obtain ⟨y, among, better⟩ :=
    (foldl_keep order others).2 x ((same x).1 (best_sublist.subset member))
  obtain ⟨z, again, least⟩ :=
    (foldl_keep order candidates).2 y ((same y).2 (best_sublist.subset among))
  -- Going there and back leads to a best candidate that is at least as good, so to the same one.
  have back : z = x := by
    by_contra other
    have apart := ((pairwise_best order candidates).forall again member other).1
    rw [order.trans least better] at apart
    cases apart
  exact ⟨y, among, back ▸ least, better⟩

end JourneyPlanner.Selection
