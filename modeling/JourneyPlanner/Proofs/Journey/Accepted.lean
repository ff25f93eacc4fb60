import JourneyPlanner.Proofs.Journey.Legs

/-!
What a journey without a flaw promises, and what it leaves open. The check compares the stops of
adjacent legs, and neither the origin nor the destination is a stop, so that a leg from the origin
passes after a leg to the destination: the legs are one passage after another, each from the origin
to the destination. And only rides are checked for ending before they start. A journey with no flaw,
no such legs next to each other and no leg that ends before it starts can be made as it says.
-/

namespace JourneyPlanner.Journey

namespace Leg

/-- Both at the same stop: where one ends and where the other one starts. -/
def Meets (previous next : Leg) : Prop :=
  ∃ stop, previous.endStop? = some stop ∧ next.startStop? = some stop

/-- A vehicle is left after the position where it was boarded. -/
def boardsUpstream : Leg → Bool
  | ride _ _ _ boardPosition debarkPosition _ _ _ _ => boardPosition < debarkPosition
  | _ => true

theorem startStop?_eq_none_iff (leg : Leg) : leg.startStop? = none ↔ leg.isAccess = true := by
  cases leg <;> simp [startStop?, isAccess]

theorem endStop?_eq_none_iff (leg : Leg) : leg.endStop? = none ↔ leg.isEgress = true := by
  cases leg <;> simp [endStop?, isEgress]

theorem isBackward_eq_false_iff (leg : Leg) : leg.isBackward = false ↔
    leg.boardsUpstream = true ∧ (leg.isRide = true → leg.departure ≤ leg.arrival) := by
  cases leg <;> simp [isBackward, boardsUpstream, isRide, departure, arrival, SearchTime.lt_def,
    SearchTime.le_def]

variable {previous next : Leg}

theorem Meets.isAccess_eq_false (h : Meets previous next) : next.isAccess = false := by
  obtain ⟨stop, -, starts⟩ := h
  rw [Bool.eq_false_iff, Ne, ← startStop?_eq_none_iff, starts]
  exact Option.some_ne_none stop

theorem Meets.isEgress_eq_false (h : Meets previous next) : previous.isEgress = false := by
  obtain ⟨stop, ends, -⟩ := h
  rw [Bool.eq_false_iff, Ne, ← endStop?_eq_none_iff, ends]
  exact Option.some_ne_none stop

/-- As the check compares them, stops also agree where a leg from the origin comes after one to the
destination. -/
theorem startStop?_eq_endStop?_iff : next.startStop? = previous.endStop? ↔
    Meets previous next ∨ previous.isEgress = true ∧ next.isAccess = true := by
  rw [← endStop?_eq_none_iff, ← startStop?_eq_none_iff, Meets]
  cases next.startStop? <;> cases previous.endStop? <;> simp [eq_comm]

end Leg

/-- Once from the origin to the destination, from stop to stop. -/
structure IsPassage (legs : List Leg) : Prop where
  starts : ∃ first rest, legs = first :: rest ∧ first.isAccess = true ∧
    ∀ leg ∈ rest, leg.isAccess = false
  ends : ∃ before last, legs = before ++ [last] ∧ last.isEgress = true ∧
    ∀ leg ∈ before, leg.isEgress = false
  meets : legs.IsChain Leg.Meets

/-- A journey that can be made as it says: one passage, never back in time, each vehicle boarded
before it is left, and some vehicle unless there need not be one. -/
structure CanBeMade (walkOnly : Bool) (j : Journey) : Prop where
  passage : IsPassage j.legs
  inTime : (j.legs.flatMap fun leg => [leg.departure, leg.arrival]).Pairwise (· ≤ ·)
  upstream : ∀ leg ∈ j.legs, leg.boardsUpstream = true
  ridden : walkOnly = true ∨ ∃ leg ∈ j.legs, leg.isRide = true

/-- A leg from the origin comes right after a leg to the destination. -/
def StartsAgain (previous next : Leg) : Prop :=
  previous.isEgress = true ∧ next.isAccess = true

instance (previous next : Leg) : Decidable (StartsAgain previous next) :=
  inferInstanceAs (Decidable (_ ∧ _))

variable {legs : List Leg}

theorem not_isAccess_of_meets {first : Leg} (meets : (first :: legs).IsChain Leg.Meets) :
    ∀ leg ∈ legs, leg.isAccess = false := by
  induction legs generalizing first with
  | nil => exact List.forall_mem_nil _
  | cons next rest ih =>
      obtain ⟨here, later⟩ := List.isChain_cons_cons.1 meets
      exact List.forall_mem_cons.2 ⟨here.isAccess_eq_false, ih later⟩

theorem not_isEgress_of_meets {last : Leg} (meets : (legs ++ [last]).IsChain Leg.Meets) :
    ∀ leg ∈ legs, leg.isEgress = false := by
  induction legs with
  | nil => exact List.forall_mem_nil _
  | cons previous rest ih =>
      refine List.forall_mem_cons.2 ⟨?_, ih meets.tail⟩
      cases rest with
      | nil => exact (List.isChain_cons_cons.1 meets).1.isEgress_eq_false
      | cons next rest => exact (List.isChain_cons_cons.1 meets).1.isEgress_eq_false

theorem isPassage_of_meets (meets : legs.IsChain Leg.Meets)
    (starts : legs.head?.any Leg.isAccess = true) (ends : legs.getLast?.any Leg.isEgress = true) :
    IsPassage legs := by
  refine ⟨?_, ?_, meets⟩
  · cases legs with
    | nil => cases starts
    | cons first rest => exact ⟨first, rest, rfl, starts, not_isAccess_of_meets meets⟩
  · rcases List.eq_nil_or_concat' legs with rfl | ⟨before, last, rfl⟩
    · cases ends
    · exact ⟨before, last, rfl, by simpa using ends, not_isEgress_of_meets meets⟩

theorem IsPassage.head (h : IsPassage legs) : legs.head?.any Leg.isAccess = true := by
  obtain ⟨first, rest, rfl, starts, -⟩ := h.starts
  exact starts

theorem IsPassage.getLast (h : IsPassage legs) : legs.getLast?.any Leg.isEgress = true := by
  obtain ⟨before, last, rfl, ends, -⟩ := h.ends
  simpa using ends

/-- Legs whose stops agree as the check compares them fall into passages: the legs up to the first
one that ends at the destination, and each of the others from the origin on. -/
theorem exists_passages (agree : legs.IsChain fun previous next =>
      Leg.Meets previous next ∨ StartsAgain previous next)
    (ends : legs.getLast?.any Leg.isEgress = true) :
    ∃ (first : List Leg) (passages : List (List Leg)),
      legs = first ++ passages.flatten ∧ first.head? = legs.head? ∧ first.IsChain Leg.Meets ∧
        first.getLast?.any Leg.isEgress = true ∧ ∀ passage ∈ passages, IsPassage passage := by
  induction legs with
  | nil => cases ends
  | cons leg legs ih =>
      cases legs with
      | nil =>
          exact ⟨[leg], [], rfl, rfl, List.isChain_singleton leg, ends, List.forall_mem_nil _⟩
      | cons next rest =>
          obtain ⟨here, later⟩ := List.isChain_cons_cons.1 agree
          obtain ⟨first, passages, equal, head, meets, last, whole⟩ := ih later ends
          rcases here with met | ⟨arrived, again⟩
          · refine ⟨leg :: first, passages, by rw [equal]; rfl, rfl, ?_, ?_, whole⟩
            · refine List.isChain_cons.2 ⟨fun other isHead => ?_, meets⟩
              obtain rfl : next = other := by simpa [head] using isHead
              exact met
            · cases first with
              | nil => cases head
              | cons other others => exact last
          · have passage : IsPassage first :=
              isPassage_of_meets meets (by rw [head]; exact again) last
            exact ⟨[leg], first :: passages, by rw [equal]; rfl, rfl, List.isChain_singleton leg,
              arrived, List.forall_mem_cons.2 ⟨passage, whole⟩⟩

theorem agree_iff_exists_passages :
    ((legs.head?.any Leg.isAccess = true ∧ legs.getLast?.any Leg.isEgress = true) ∧
      legs.IsChain fun previous next => next.startStop? = previous.endStop?) ↔
    ∃ passages : List (List Leg), passages ≠ [] ∧ legs = passages.flatten ∧
      ∀ passage ∈ passages, IsPassage passage := by
  simp only [Leg.startStop?_eq_endStop?_iff]
  constructor
  · rintro ⟨⟨starts, ends⟩, agree⟩
    obtain ⟨first, passages, equal, head, meets, last, whole⟩ := exists_passages agree ends
    exact ⟨first :: passages, List.cons_ne_nil _ _, equal,
      List.forall_mem_cons.2 ⟨isPassage_of_meets meets (head ▸ starts) last, whole⟩⟩
  · rintro ⟨passages, some, rfl, whole⟩
    have nonempty : [] ∉ passages := fun empty => nomatch (whole [] empty).head
    refine ⟨⟨?_, ?_⟩, (List.isChain_flatten nonempty).2 ⟨fun passage among => ?_, ?_⟩⟩
    · obtain ⟨passage, rest, rfl⟩ := List.exists_cons_of_ne_nil some
      have starts := (whole passage List.mem_cons_self).head
      cases passage with
      | nil => cases starts
      | cons first others => exact starts
    · obtain ⟨before, passage, rfl⟩ := List.eq_nil_or_concat' passages |>.resolve_left some
      have ends := (whole passage (by simp)).getLast
      rcases List.eq_nil_or_concat' passage with rfl | ⟨others, last, rfl⟩
      · cases ends
      · simpa [← List.append_assoc] using ends
    · exact (whole passage among).meets.imp fun _ _ => .inl
    · rw [List.isChain_iff_forall_rel_of_append_cons_cons]
      rintro passage next before after rfl last isLast first isFirst
      have arrived := (whole passage (by simp)).getLast
      have again := (whole next (by simp)).head
      rw [isLast] at arrived
      rw [isFirst] at again
      exact .inr ⟨arrived, again⟩

theorem pairwise_times_iff :
    (legs.flatMap fun leg => [leg.departure, leg.arrival]).Pairwise (· ≤ ·) ↔
      (∀ leg ∈ legs, leg.departure ≤ leg.arrival) ∧
        legs.IsChain fun previous next => previous.arrival ≤ next.departure := by
  have : Trans (α := SearchTime) (· ≤ ·) (· ≤ ·) (· ≤ ·) := ⟨Int.le_trans⟩
  have nonempty : [] ∉ legs.map fun leg => [leg.departure, leg.arrival] := by simp
  rw [← List.isChain_iff_pairwise, List.flatMap_def, List.isChain_flatten nonempty,
    List.isChain_map]
  simp

theorem isChain_and_iff {R S : Leg → Leg → Prop} :
    (legs.IsChain fun previous next => R previous next ∧ S previous next) ↔
      legs.IsChain R ∧ legs.IsChain S := by
  simp only [List.isChain_iff_getElem, ← forall_and]

variable {walkOnly : Bool} {j : Journey}

theorem canBeMade_iff : CanBeMade walkOnly j ↔ j.flaw? walkOnly = none ∧
    (∀ leg ∈ j.legs, leg.departure ≤ leg.arrival) ∧
      j.legs.IsChain fun previous next => ¬StartsAgain previous next := by
  rw [flaw?_eq_none_iff, chainFlaw?_eq_none_iff, isChain_and_iff]
  simp only [Leg.isBackward_eq_false_iff, Leg.startStop?_eq_endStop?_iff]
  constructor
  · rintro ⟨passage, inTime, upstream, ridden⟩
    obtain ⟨forward, notBefore⟩ := pairwise_times_iff.1 inTime
    refine ⟨⟨⟨passage.head, passage.getLast⟩, ridden, ?_, notBefore, ?_⟩, forward, ?_⟩
    · exact fun leg among => ⟨upstream leg among, fun _ => forward leg among⟩
    · exact passage.meets.imp fun _ _ => .inl
    · refine passage.meets.imp fun previous next met again => ?_
      exact Bool.false_ne_true (met.isAccess_eq_false.symm.trans again.2)
  · rintro ⟨⟨⟨starts, ends⟩, ridden, rides, notBefore, agree⟩, forward, once⟩
    have meets : j.legs.IsChain Leg.Meets :=
      (isChain_and_iff.2 ⟨agree, once⟩).imp fun _ _ both => both.1.resolve_right both.2
    exact ⟨isPassage_of_meets meets starts ends, pairwise_times_iff.2 ⟨forward, notBefore⟩,
      fun leg among => (rides leg among).1, ridden⟩

/-- The check finds no flaw just when the legs are one or more passages, none starts before the one
before it ends, rides go forward, and there is a ride unless there need not be one. The journey can
be made as it says just when, moreover, no leg ends before it starts and none from the origin comes
after one to the destination. -/
theorem flaw?_exact (walkOnly : Bool) (j : Journey) :
    (j.flaw? walkOnly = none ↔
      (∃ passages : List (List Leg), passages ≠ [] ∧ j.legs = passages.flatten ∧
        ∀ passage ∈ passages, IsPassage passage) ∧
      (j.legs.IsChain fun previous next => previous.arrival ≤ next.departure) ∧
      (∀ leg ∈ j.legs,
        leg.boardsUpstream = true ∧ (leg.isRide = true → leg.departure ≤ leg.arrival)) ∧
      (walkOnly = true ∨ ∃ leg ∈ j.legs, leg.isRide = true)) ∧
    (CanBeMade walkOnly j ↔ j.flaw? walkOnly = none ∧
      (∀ leg ∈ j.legs, leg.departure ≤ leg.arrival) ∧
        j.legs.IsChain fun previous next => ¬StartsAgain previous next) := by
  refine ⟨?_, canBeMade_iff⟩
  rw [flaw?_eq_none_iff, ← agree_iff_exists_passages, chainFlaw?_eq_none_iff, isChain_and_iff]
  simp only [Leg.isBackward_eq_false_iff]
  constructor
  · rintro ⟨ends, ridden, rides, notBefore, agree⟩
    exact ⟨⟨ends, agree⟩, notBefore, rides, ridden⟩
  · rintro ⟨⟨ends, agree⟩, notBefore, rides, ridden⟩
    exact ⟨ends, ridden, rides, notBefore, agree⟩

/-- To the destination by a vehicle, and then from the origin on foot. -/
def thereAndAgain : Journey where
  legs := [.access 0 0 ⟨0⟩ ⟨0⟩, .ride 0 0 default 0 2 0 2 ⟨0⟩ ⟨600⟩, .egress 0 2 ⟨600⟩ ⟨600⟩,
    .access 0 0 ⟨600⟩ ⟨600⟩, .egress 0 0 ⟨600⟩ ⟨600⟩]
  departure := ⟨0⟩
  arrival := ⟨600⟩
  nbOfTransfers := 0
  cost := default

/-- The last leg ends ten minutes before it starts. -/
def backInTime : Journey where
  legs := [.access 0 0 ⟨0⟩ ⟨0⟩, .ride 0 0 default 0 2 0 2 ⟨0⟩ ⟨600⟩, .egress 0 2 ⟨600⟩ ⟨0⟩]
  departure := ⟨0⟩
  arrival := ⟨0⟩
  nbOfTransfers := 0
  cost := default

/-- The check, asking for a ride or not, finds no flaw in two journeys that cannot be made. -/
theorem no_flaw_but_cannot_be_made :
    (∀ walkOnly, thereAndAgain.flaw? walkOnly = none ∧ ¬CanBeMade walkOnly thereAndAgain) ∧
      ∀ walkOnly, backInTime.flaw? walkOnly = none ∧ ¬CanBeMade walkOnly backInTime := by
  refine ⟨fun walkOnly => ⟨?_, fun made => ?_⟩, fun walkOnly => ⟨?_, fun made => ?_⟩⟩
  · cases walkOnly <;> rfl
  · have once := (canBeMade_iff.1 made).2.2
    revert once
    decide
  · cases walkOnly <;> rfl
  · have forward := (canBeMade_iff.1 made).2.1
    revert forward
    decide

end JourneyPlanner.Journey
