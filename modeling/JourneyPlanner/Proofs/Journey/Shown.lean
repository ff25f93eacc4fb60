import JourneyPlanner.Journey.Distinct
import JourneyPlanner.Proofs.Filtering
import JourneyPlanner.Proofs.Selection

/-!
What is shown of some journeys. Leaving out journeys that others replace, and sorting the rest,
makes no new ones, and each journey left out is replaced by one that is shown. It does the same to a
part of the journeys as to all of them, when journeys that board the same patterns are in the part
together or not at all. For a sort that takes an order of the journeys, total and transitive, and
that keeps the order of the journeys it does not tell apart.
-/

namespace JourneyPlanner

namespace Journey

theorem shownBefore_iff (j k : Journey) : j.shownBefore k = true ↔
    j.arrival.seconds < k.arrival.seconds ∨ j.arrival.seconds = k.arrival.seconds ∧
      (k.departure.seconds < j.departure.seconds ∨ j.departure.seconds = k.departure.seconds ∧
        (j.nbOfTransfers < k.nbOfTransfers ∨ j.nbOfTransfers = k.nbOfTransfers ∧
          j.cost.units ≤ k.cost.units)) := by
  have times (s t : SearchTime) : s = t ↔ s.seconds = t.seconds := by
    cases s
    cases t
    simp
  have before (s t : SearchTime) : s ≤ t ↔ s.seconds ≤ t.seconds := Iff.rfl
  have cheaper (x y : Cost) : x ≤ y ↔ x.units ≤ y.units := Iff.rfl
  simp only [shownBefore, ne_eq, times, ite_not]
  split
  · split
    · split
      · simp only [decide_eq_true_eq, cheaper]
        omega
      · simp only [decide_eq_true_eq]
        omega
    · simp only [decide_eq_true_eq, before]
      omega
  · simp only [decide_eq_true_eq, before]
    omega

theorem shownBefore_trans (j k l : Journey) (first : j.shownBefore k = true)
    (second : k.shownBefore l = true) : j.shownBefore l = true := by
  rw [shownBefore_iff] at *
  omega

theorem shownBefore_total (j k : Journey) : (j.shownBefore k || k.shownBefore j) = true := by
  rw [Bool.or_eq_true, shownBefore_iff, shownBefore_iff]
  omega

variable {journeys kept : List Journey} {j k : Journey} {p : Journey → Bool}

theorem mem_of_mem_keep (h : k ∈ keep kept j) : k ∈ kept ∨ k = j := by
  rw [keep] at h
  split at h
  · exact .inl h
  · rcases List.mem_append.1 h with stays | new
    · exact .inl (List.mem_filter.1 stays).1
    · exact .inr (List.mem_singleton.1 new)

theorem patterns_eq_of_replaces (h : j.replaces k = true) : j.patterns = k.patterns := by
  simp only [replaces, hasSamePatterns, Bool.and_eq_true, beq_iff_eq] at h
  exact h.1.1

theorem replaces_refl (j : Journey) : j.replaces j = true := by
  simp [replaces, hasSamePatterns, SearchTime.le_def]

theorem replaces_trans {l : Journey} (first : j.replaces k = true) (second : k.replaces l = true) :
    j.replaces l = true := by
  simp only [replaces, hasSamePatterns, Bool.and_eq_true, beq_iff_eq, decide_eq_true_eq,
    SearchTime.le_def] at first second ⊢
  refine ⟨⟨first.1.1.trans second.1.1, ?_⟩, ?_⟩
  · exact Int.le_trans second.1.2 first.1.2
  · exact Int.le_trans first.2 second.2

theorem isOrder_replaces : Selection.IsOrder replaces :=
  ⟨replaces_refl, replaces_trans⟩

theorem foldl_keep_eq_best (journeys : List Journey) :
    journeys.foldl keep [] = Selection.best replaces journeys :=
  (Selection.foldl_keep isOrder_replaces journeys).1

theorem perm_best (journeys : List Journey) :
    (distinct journeys).Perm (Selection.best replaces journeys) := by
  rw [← foldl_keep_eq_best]
  exact List.mergeSort_perm _ _

theorem mem_of_mem_distinct (h : j ∈ distinct journeys) : j ∈ journeys :=
  Selection.best_sublist.subset ((perm_best journeys).mem_iff.1 h)

theorem pairwise_distinct {R : Journey → Journey → Prop} (symm : ∀ {j k}, R j k → R k j)
    (pairwise : journeys.Pairwise R) : (distinct journeys).Pairwise R :=
  ((perm_best journeys).pairwise_iff symm).2 (pairwise.sublist Selection.best_sublist)

theorem exists_replaces_of_mem (member : j ∈ journeys) :
    ∃ k ∈ distinct journeys, k.replaces j = true := by
  obtain ⟨k, among, better⟩ := (Selection.foldl_keep isOrder_replaces journeys).2 j member
  exact ⟨k, (perm_best journeys).mem_iff.2 among, better⟩

/-- Journeys of the list that board the same patterns have the property together or not at all. -/
def IsByPatterns (p : Journey → Bool) (journeys : List Journey) : Prop :=
  ∀ j ∈ journeys, ∀ k ∈ journeys, j.patterns = k.patterns → p j = p k

theorem filter_keep (alike : ∀ k ∈ kept, k.patterns = j.patterns → p k = p j) :
    (keep kept j).filter p = if p j then keep (kept.filter p) j else kept.filter p := by
  have dropped : (kept.filter fun other => !j.replaces other).filter p =
      (kept.filter p).filter fun other => !j.replaces other := by
    rw [List.filter_filter, List.filter_filter]
    exact List.filter_congr fun other _ => Bool.and_comm _ _
  cases known : p j with
  | true =>
      have replaced : (kept.filter p).any (·.replaces j) = kept.any (·.replaces j) := by
        rw [Bool.eq_iff_iff, List.any_eq_true, List.any_eq_true]
        refine exists_congr fun k => and_congr_left fun better => ?_
        rw [List.mem_filter]
        refine and_iff_left_of_imp fun member => ?_
        rw [alike k member (patterns_eq_of_replaces better), known]
      rw [if_pos rfl, keep, keep, replaced]
      split
      · rfl
      · rw [List.filter_append, dropped]
        simp [known]
  | false =>
      have stays : (kept.filter p).filter (fun other => !j.replaces other) = kept.filter p := by
        rw [List.filter_eq_self]
        intro k member
        obtain ⟨here, has⟩ := List.mem_filter.1 member
        rw [Bool.not_eq_true', Bool.eq_false_iff]
        intro worse
        rw [alike k here (patterns_eq_of_replaces worse).symm, known] at has
        cases has
      rw [if_neg (by simp), keep]
      split
      · rfl
      · rw [List.filter_append, dropped, stays]
        simp [known]

theorem filter_foldl_keep (alike : IsByPatterns p journeys) {l : List Journey}
    (given : ∀ k ∈ l, k ∈ journeys) (known : ∀ k ∈ kept, k ∈ journeys) :
    (l.foldl keep kept).filter p = (l.filter p).foldl keep (kept.filter p) := by
  induction l generalizing kept with
  | nil => rfl
  | cons j l ih =>
      have here : j ∈ journeys := given j List.mem_cons_self
      have grown : ∀ k ∈ keep kept j, k ∈ journeys := by
        intro k member
        rcases mem_of_mem_keep member with old | rfl
        · exact known k old
        · exact here
      have step : (keep kept j).filter p = if p j then keep (kept.filter p) j else kept.filter p :=
        filter_keep fun k member => alike k (known k member) j here
      have rest := ih (fun k member => given k (List.mem_cons_of_mem _ member)) grown
      rw [List.foldl_cons, rest, step, List.filter_cons]
      split
      · rfl
      · rfl

theorem distinct_filter (alike : IsByPatterns p journeys) :
    distinct (journeys.filter p) = (distinct journeys).filter p := by
  have nothing : ∀ k ∈ ([] : List Journey), k ∈ journeys := fun _ none => by cases none
  have kept := filter_foldl_keep alike (fun _ member => member) nothing
  rw [distinct, distinct, filter_mergeSort shownBefore_trans shownBefore_total, kept]
  rfl

end Journey

end JourneyPlanner
