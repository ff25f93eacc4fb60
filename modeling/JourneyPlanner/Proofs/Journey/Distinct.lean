import JourneyPlanner.Proofs.Request.Destination
import JourneyPlanner.Proofs.Journey.Transfers
import JourneyPlanner.Proofs.Selection

/-!
What is left of some journeys when those that others replace are left out. A journey stays when no
earlier one replaces it, and no later one does unless the two leave and arrive at the same times. The
rest is sorted, and nothing more is left out of it. Of what a search with the standard profile has
found nothing is left out at all, since journeys that board the same patterns have as many transfers
and none of them is at least as good as another one.
-/

namespace JourneyPlanner

namespace Journey

open Search Selection

variable {journeys : List Journey} {j k : Journey}

/-- A journey stays among those it is listed with, at an index. -/
def Stays (journeys : List Journey) (i : Nat) (j : Journey) : Prop :=
  (∀ k ∈ journeys.take i,
      ¬(k.patterns = j.patterns ∧ j.departure ≤ k.departure ∧ k.arrival ≤ j.arrival)) ∧
    ∀ k ∈ journeys.drop (i + 1),
      k.patterns = j.patterns ∧ j.departure ≤ k.departure ∧ k.arrival ≤ j.arrival →
        k.departure = j.departure ∧ k.arrival = j.arrival

instance (journeys : List Journey) (i : Nat) (j : Journey) : Decidable (Stays journeys i j) :=
  inferInstanceAs (Decidable (_ ∧ _))

/-- Those that stay, in their order. -/
def staying (journeys : List Journey) : List Journey :=
  (journeys.zipIdx.filter fun entry => Stays journeys entry.2 entry.1).map (·.1)

/-- The order of two journeys that are shown: by arrival, then the latest departure first, then by
transfers and by cost. -/
def ShownInOrder (j k : Journey) : Prop :=
  j.arrival < k.arrival ∨ j.arrival = k.arrival ∧
    (k.departure < j.departure ∨ j.departure = k.departure ∧
      (j.nbOfTransfers < k.nbOfTransfers ∨ j.nbOfTransfers = k.nbOfTransfers ∧ j.cost ≤ k.cost))

/-- The order does not tell two journeys apart. -/
def Tied (j k : Journey) : Prop :=
  j.arrival = k.arrival ∧ j.departure = k.departure ∧ j.nbOfTransfers = k.nbOfTransfers ∧
    j.cost = k.cost

instance (j k : Journey) : Decidable (Tied j k) :=
  inferInstanceAs (Decidable (_ ∧ _))

theorem shownInOrder_iff : ShownInOrder j k ↔ j.shownBefore k = true := by
  rw [shownBefore_iff, ShownInOrder, SearchTime.ext_iff, SearchTime.ext_iff]
  exact Iff.rfl

theorem replaces_iff : j.replaces k = true ↔
    j.patterns = k.patterns ∧ k.departure ≤ j.departure ∧ j.arrival ≤ k.arrival := by
  simp [replaces, hasSamePatterns, and_assoc]

theorem replaces_symm_iff (h : k.replaces j = true) :
    j.replaces k = true ↔ k.departure = j.departure ∧ k.arrival = j.arrival := by
  rw [replaces_iff] at h ⊢
  obtain ⟨patterns, later, sooner⟩ := h
  rw [SearchTime.le_def] at later sooner
  rw [SearchTime.le_def, SearchTime.le_def, SearchTime.ext_iff, SearchTime.ext_iff]
  constructor
  · rintro ⟨-, later', sooner'⟩
    omega
  · rintro ⟨departure, arrival⟩
    exact ⟨patterns.symm, by omega, by omega⟩

theorem isBest_iff {i : Nat} : IsBest replaces journeys i j ↔ Stays journeys i j := by
  refine and_congr (forall₂_congr fun k _ => ?_) (forall₂_congr fun k _ => ?_)
  · rw [← replaces_iff, Bool.not_eq_true]
  · rw [← replaces_iff]
    exact forall_congr' replaces_symm_iff

theorem best_eq_staying (journeys : List Journey) : best replaces journeys = staying journeys := by
  simp only [best, isBest_iff, staying]

theorem shownInOrder_distinct (journeys : List Journey) :
    (distinct journeys).Pairwise ShownInOrder :=
  (List.pairwise_mergeSort shownBefore_trans shownBefore_total _).imp shownInOrder_iff.2

theorem filter_tied_distinct (j : Journey) (journeys : List Journey) :
    (distinct journeys).filter (fun k => Tied j k) =
      (staying journeys).filter fun k => Tied j k := by
  rw [distinct, foldl_keep_eq_best, best_eq_staying,
    filter_mergeSort shownBefore_trans shownBefore_total]
  refine List.mergeSort_of_pairwise (List.pairwise_iff_forall_sublist.2 fun {k l} both => ?_)
  have tied (m) (among : m ∈ [k, l]) : Tied j m := by
    simpa using (List.mem_filter.1 (both.subset among)).2
  obtain ⟨arrival, departure, transfers, cost⟩ := tied k (by simp)
  obtain ⟨arrival', departure', transfers', cost'⟩ := tied l (by simp)
  refine shownInOrder_iff.1 (.inr ⟨arrival.symm.trans arrival', .inr ⟨departure.symm.trans departure',
    .inr ⟨transfers.symm.trans transfers', ?_⟩⟩⟩)
  rw [← cost, ← cost']
  exact Nat.le_refl _

theorem foldl_keep_of_pairwise (apart : journeys.Pairwise (Apart replaces)) :
    journeys.foldl keep [] = journeys :=
  (foldl_keep_eq_best journeys).trans (best_of_pairwise apart)

theorem distinct_distinct (journeys : List Journey) :
    distinct (distinct journeys) = distinct journeys := by
  have shown : (distinct journeys).Pairwise (Apart replaces) :=
    ((perm_best journeys).pairwise_iff (Std.Symm.symm _ _)).2 (pairwise_best isOrder_replaces _)
  rw [distinct, foldl_keep_of_pairwise shown]
  exact List.mergeSort_of_pairwise
    (List.pairwise_mergeSort shownBefore_trans shownBefore_total _)

variable {c : Context} {s : SearchState}

theorem apart_extract (standard : c.profile = .standard) (reached : Reached c s) (walkOnly : Bool) :
    (extract c s walkOnly).Pairwise (Apart replaces) := by
  have consistent := reached.consistent
  -- Journeys that board the same patterns only differ in their times.
  have better {j k : Journey} (found : j ∈ extract c s walkOnly) (other : k ∈ extract c s walkOnly)
      (replaced : j.replaces k = true) :
      c.profile.atLeastAsGoodAtDestination j.criteria k.criteria = true := by
    obtain ⟨patterns, departure, arrival⟩ := replaces_iff.1 replaced
    have transfers : j.nbOfTransfers = k.nbOfTransfers := by
      rw [(nbOfTransfers_of_mem_extract consistent found).1,
        (nbOfTransfers_of_mem_extract consistent other).1, patterns]
    rw [Profile.atLeastAsGoodAtDestination_iff, standard]
    exact ⟨arrival, departure, Nat.le_of_eq transfers, fun none => by cases none⟩
  refine (incomparable_extract reached.inOrder.arrived walkOnly).imp_of_mem fun found other apart =>
    ⟨Bool.eq_false_iff.2 fun replaced => ?_, Bool.eq_false_iff.2 fun replaced => ?_⟩
  · exact Bool.eq_false_iff.1 apart.1 (better found other replaced)
  · exact Bool.eq_false_iff.1 apart.2 (better other found replaced)

/-- The journeys that are shown are those that no other one replaces, of equal ones the first; they
are sorted, ties in the order given; leaving out again leaves nothing out, and neither does leaving
out of what a search with the standard profile has found, at its end or when it is cut short. -/
theorem distinct_exact (journeys : List Journey) :
    (distinct journeys).Perm (staying journeys) ∧
    (distinct journeys).Pairwise ShownInOrder ∧
    (∀ j, (distinct journeys).filter (fun k => Tied j k) =
      (staying journeys).filter fun k => Tied j k) ∧
    distinct (distinct journeys) = distinct journeys ∧
    ∀ c : Context, c.profile = .standard →
      (∀ isOver, Reached c (run c isOver).state) ∧ ∀ s, Reached c s → ∀ walkOnly,
        (distinct (extract c s walkOnly)).Perm (extract c s walkOnly) := by
  refine ⟨best_eq_staying journeys ▸ perm_best journeys, shownInOrder_distinct journeys,
    fun j => filter_tied_distinct j journeys, distinct_distinct journeys,
    fun c standard => ⟨reached_run c, fun s reached walkOnly => ?_⟩⟩
  rw [distinct, foldl_keep_of_pairwise (apart_extract standard reached walkOnly)]
  exact List.mergeSort_perm _ _

theorem distinct_exact_relay : ∃ layer c, Layer.build .relay = .ok layer ∧
    Request.relay.context layer = .ok c ∧ c.profile = .standard ∧
      (run c).state.arrived.length = 2 ∧ Reached c (run c).state ∧
        (distinct (extract c (run c).state false)).Perm (extract c (run c).state false) := by
  obtain ⟨layer, c, -, built, accepted, arrived, -⟩ := Request.exists_answer_relay
  have standard : c.profile = .standard := (Request.context_spec accepted).2.2.1
  obtain ⟨-, -, -, -, search⟩ := distinct_exact []
  obtain ⟨reached, nothing⟩ := search c standard
  exact ⟨layer, c, built, accepted, standard, arrived, reached .never,
    nothing _ (reached .never) false⟩

end Journey

end JourneyPlanner
