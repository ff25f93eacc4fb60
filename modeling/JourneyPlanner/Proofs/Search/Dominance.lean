import JourneyPlanner.Search.Range

/-!
Both profiles compare arrivals by a preorder, and a front never gives up what it covers: the element
that takes the place of others is at least as good as each of them. Walking on keeps the order of
two arrivals, also where sums of times or costs stop at their ends.
-/

namespace JourneyPlanner

theorem clampWord_mono {m n : Int} (h : m ≤ n) : clampWord m ≤ clampWord n := by
  simp only [clampWord]
  omega

theorem SearchTime.add_le_add {s t : SearchTime} (h : s ≤ t) (d : Duration) : s + d ≤ t + d := by
  rw [SearchTime.le_def] at h ⊢
  exact clampWord_mono (by omega)

theorem SearchTime.add_le_add_add (t : SearchTime) (d e : Duration) : t + d ≤ t + d + e := by
  simp only [SearchTime.le_def, SearchTime.seconds_add, clampWord]
  omega

theorem SearchTime.add_le_add_add_of_later {s t : SearchTime} (le : s ≤ t)
    (low : s = t ∨ -2147483648 ≤ s.seconds) {d e f : Duration} (sooner : s + d ≤ s + e + f)
    (back : t + e + f ≤ s + d) : t + d ≤ t + e + f := by
  rcases low with rfl | low
  · exact sooner
  · simp only [SearchTime.le_def, SearchTime.seconds_add, clampWord] at *
    omega

theorem Cost.add_le_add {a b : Cost} (h : a ≤ b) (c : Cost) : a + c ≤ b + c := by
  have units : a.units ≤ b.units := h
  change min (a.units + c.units) maxCost ≤ min (b.units + c.units) maxCost
  omega

namespace Profile

theorem atLeastAsGood_iff (p : Profile) (a b : Criteria) :
    p.atLeastAsGood a b = true ↔
      a.arrival.seconds ≤ b.arrival.seconds ∧
        (p = multiCriteria → a.nbOfTrips ≤ b.nbOfTrips ∧ a.cost.units ≤ b.cost.units) := by
  cases p with
  | standard => simp [atLeastAsGood, SearchTime.le_def]
  | multiCriteria =>
      simp only [atLeastAsGood, Bool.and_eq_true, decide_eq_true_eq, SearchTime.le_def, and_assoc,
        forall_const]
      exact Iff.rfl

theorem atLeastAsGood_trans (p : Profile) (a b c : Criteria) (hab : p.atLeastAsGood a b = true)
    (hbc : p.atLeastAsGood b c = true) : p.atLeastAsGood a c = true := by
  rw [atLeastAsGood_iff] at hab hbc ⊢
  refine ⟨Int.le_trans hab.1 hbc.1, fun hp => ?_⟩
  exact ⟨Nat.le_trans (hab.2 hp).1 (hbc.2 hp).1, Nat.le_trans (hab.2 hp).2 (hbc.2 hp).2⟩

theorem arrival_le_of_atLeastAsGood {p : Profile} {a b : Criteria}
    (h : p.atLeastAsGood a b = true) : a.arrival ≤ b.arrival :=
  ((atLeastAsGood_iff p a b).1 h).1

theorem atLeastAsGood_walkCriteria {p : Profile} (c : Search.Context) {a b : Criteria}
    (h : p.atLeastAsGood a b = true) (w : Walk) :
    p.atLeastAsGood (Search.walkCriteria c a w) (Search.walkCriteria c b w) = true := by
  rw [atLeastAsGood_iff] at h ⊢
  refine ⟨SearchTime.add_le_add (s := a.arrival) (t := b.arrival) h.1 w.duration, fun hp => ?_⟩
  exact ⟨(h.2 hp).1, Cost.add_le_add (a := a.cost) (b := b.cost) (h.2 hp).2 _⟩

theorem atLeastAsGoodAtDestination_iff (p : Profile) (a b : ArrivalCriteria) :
    p.atLeastAsGoodAtDestination a b = true ↔
      a.arrival.seconds ≤ b.arrival.seconds ∧ b.departure.seconds ≤ a.departure.seconds ∧
        a.nbOfTransfers ≤ b.nbOfTransfers ∧
          (p = multiCriteria → a.cost.units ≤ b.cost.units) := by
  cases p with
  | standard => simp [atLeastAsGoodAtDestination, SearchTime.le_def, and_assoc]
  | multiCriteria =>
      simp only [atLeastAsGoodAtDestination, Bool.and_eq_true, decide_eq_true_eq,
        SearchTime.le_def, and_assoc, forall_const]
      exact Iff.rfl

theorem atLeastAsGoodAtDestination_refl (p : Profile) (a : ArrivalCriteria) :
    p.atLeastAsGoodAtDestination a a = true := by
  rw [atLeastAsGoodAtDestination_iff]
  exact ⟨Int.le_refl _, Int.le_refl _, Nat.le_refl _, fun _ => Nat.le_refl _⟩

theorem atLeastAsGoodAtDestination_trans (p : Profile) (a b c : ArrivalCriteria)
    (hab : p.atLeastAsGoodAtDestination a b = true)
    (hbc : p.atLeastAsGoodAtDestination b c = true) :
    p.atLeastAsGoodAtDestination a c = true := by
  rw [atLeastAsGoodAtDestination_iff] at hab hbc ⊢
  obtain ⟨arrival, departure, transfers, cost⟩ := hab
  obtain ⟨arrival', departure', transfers', cost'⟩ := hbc
  exact ⟨Int.le_trans arrival arrival', Int.le_trans departure' departure,
    Nat.le_trans transfers transfers', fun hp => Nat.le_trans (cost hp) (cost' hp)⟩

theorem nbOfTransfers_le_of_atLeastAsGoodAtDestination {p : Profile} {a b : ArrivalCriteria}
    (h : p.atLeastAsGoodAtDestination a b = true) : a.nbOfTransfers ≤ b.nbOfTransfers :=
  ((atLeastAsGoodAtDestination_iff p a b).1 h).2.2.1

end Profile

namespace Front

variable {α C : Type} {le : C → C → Bool}

theorem covers_iff {front : Front α C} {criteria : C} :
    front.covers le criteria = true ↔ ∃ element ∈ front, le element.2 criteria = true := by
  simp [covers, List.any_eq_true]

theorem covers_of_le (trans : ∀ a b c, le a b = true → le b c = true → le a c = true)
    {front : Front α C} {good criteria : C} (h : front.covers le good = true)
    (better : le good criteria = true) : front.covers le criteria = true := by
  obtain ⟨element, member, lower⟩ := covers_iff.1 h
  exact covers_iff.2 ⟨element, member, trans _ _ _ lower better⟩

theorem covers_pruneAndPush_self (refl : ∀ a, le a a = true) (front : Front α C) (item : α)
    (criteria : C) : (front.pruneAndPush le item criteria).covers le criteria = true :=
  covers_iff.2 ⟨_, mem_pruneAndPush.2 (.inr rfl), refl criteria⟩

theorem exists_mem_pruneAndPush (refl : ∀ a, le a a = true) {front : Front α C} {element : α × C}
    (member : element ∈ front) (item : α) (criteria : C) :
    ∃ kept ∈ front.pruneAndPush le item criteria,
      le kept.2 element.2 = true ∧ (kept = element ∨ kept = (item, criteria)) := by
  cases h : le criteria element.2 with
  | true => exact ⟨_, mem_pruneAndPush.2 (.inr rfl), h, .inr rfl⟩
  | false => exact ⟨element, mem_pruneAndPush.2 (.inl ⟨member, h⟩), refl _, .inl rfl⟩

theorem covers_pruneAndPush (refl : ∀ a, le a a = true)
    (trans : ∀ a b c, le a b = true → le b c = true → le a c = true) {front : Front α C}
    {covered : C} (h : front.covers le covered = true) (item : α) (criteria : C) :
    (front.pruneAndPush le item criteria).covers le covered = true := by
  obtain ⟨element, member, lower⟩ := covers_iff.1 h
  obtain ⟨kept, stays, better, -⟩ := exists_mem_pruneAndPush refl member item criteria
  exact covers_iff.2 ⟨kept, stays, trans _ _ _ better lower⟩

theorem mem_of_mem_add {front : Front α C} {item : α} {criteria : C} {element : α × C}
    (h : element ∈ front.add le item criteria) : element ∈ front ∨ element = (item, criteria) := by
  simp only [add] at h
  split at h
  · exact .inl h
  · obtain ⟨member, -⟩ | equal := mem_pruneAndPush.1 h
    · exact .inl member
    · exact .inr equal

theorem mem_of_mem_ofCandidates {candidates : List (α × C)} {element : α × C}
    (h : element ∈ ofCandidates le candidates) : element ∈ candidates := by
  let Given (front : Front α C) : Prop := ∀ other ∈ front, other ∈ candidates
  have given : Given (ofCandidates le candidates) := by
    refine List.foldlRecOn (motive := Given) _ _ (fun other none => by cases none)
      fun front known candidate member => ?_
    intro other added
    rcases mem_of_mem_add added with old | new
    · exact known other old
    · exact new ▸ member
  exact given element h

theorem covers_add_self (refl : ∀ a, le a a = true) (front : Front α C) (item : α)
    (criteria : C) : (front.add le item criteria).covers le criteria = true := by
  simp only [add]
  split
  · next covered => exact covered
  · exact covers_pruneAndPush_self refl front item criteria

theorem covers_add (refl : ∀ a, le a a = true)
    (trans : ∀ a b c, le a b = true → le b c = true → le a c = true) {front : Front α C}
    {covered : C} (h : front.covers le covered = true) (item : α) (criteria : C) :
    (front.add le item criteria).covers le covered = true := by
  simp only [add]
  split
  · exact h
  · exact covers_pruneAndPush refl trans h item criteria

theorem covers_ofCandidates (refl : ∀ a, le a a = true)
    (trans : ∀ a b c, le a b = true → le b c = true → le a c = true) {candidates : List (α × C)}
    {candidate : α × C} (member : candidate ∈ candidates) :
    (ofCandidates le candidates).covers le candidate.2 = true := by
  obtain ⟨before, after, rfl⟩ := List.append_of_mem member
  rw [ofCandidates, List.foldl_append, List.foldl_cons]
  exact List.foldlRecOn (motive := fun front => Front.covers le front candidate.2 = true) after _
    (covers_add_self refl _ _ _) fun _ covered other _ => covers_add refl trans covered other.1 other.2

end Front

end JourneyPlanner
