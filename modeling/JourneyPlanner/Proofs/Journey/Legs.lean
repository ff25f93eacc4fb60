import JourneyPlanner.Journey.Basic
import Mathlib.Data.List.Chain

/-!
Legs that follow from each other. A leg joins the one before it when it starts at the stop where
that one ends, and not before it ends; only a ride after another ride may be waited for. A journey
whose legs join, in the right order, is sound.
-/

namespace JourneyPlanner.Journey

namespace Leg

def isWalk : Leg → Bool
  | walk .. => true
  | _ => false

/-- How a leg goes on from the one before it; `ridden` tells whether there was a ride until then. -/
structure Joins (ridden : Bool) (previous next : Leg) : Prop where
  atStop : next.startStop? = previous.endStop?
  notBefore : previous.arrival ≤ next.departure
  atOnce : next.isRide = false ∨ ridden = false → next.departure = previous.arrival
  rested : previous.isWalk = true → next.isWalk = false

end Leg

/-- Each leg joins the one before it. -/
def Joined (legs : List Leg) : Prop :=
  ∀ before previous next after, legs = before ++ previous :: next :: after →
    Leg.Joins ((before ++ [previous]).any Leg.isRide) previous next

theorem joined_singleton (leg : Leg) : Joined [leg] := by
  intro before previous next after equal
  have length := congrArg List.length equal
  simp at length
  omega

theorem Joined.concat {legs : List Leg} {last next : Leg} (h : Joined (legs ++ [last]))
    (joins : Leg.Joins ((legs ++ [last]).any Leg.isRide) last next) :
    Joined (legs ++ [last] ++ [next]) := by
  intro before previous later after equal
  rcases List.eq_nil_or_concat after with rfl | ⟨inner, final, rfl⟩
  · have parts : legs ++ [last] ++ [next] = (before ++ [previous]) ++ [later] := by
      simpa using equal
    obtain ⟨front, rfl⟩ := List.append_singleton_inj.1 parts
    obtain ⟨rfl, rfl⟩ := List.append_singleton_inj.1 front
    exact joins
  · have parts : legs ++ [last] ++ [next] = (before ++ previous :: later :: inner) ++ [final] := by
      simpa using equal
    exact h before previous later inner (List.append_singleton_inj.1 parts).1

theorem chainFlaw?_eq_none_iff {legs : List Leg} {position : Nat} :
    chainFlaw? position legs = none ↔ legs.IsChain fun previous next =>
      previous.arrival ≤ next.departure ∧ next.startStop? = previous.endStop? := by
  induction legs generalizing position with
  | nil => exact iff_of_true rfl List.isChain_nil
  | cons previous legs ih =>
      cases legs with
      | nil => exact iff_of_true rfl (List.isChain_singleton _)
      | cons next rest =>
          rw [chainFlaw?, List.isChain_cons_cons, ← ih]
          split
          next early => exact iff_of_false nofun fun links => Int.not_le.2 early links.1.1
          next onTime =>
            split
            next apart => exact iff_of_false nofun fun links => apart links.1.2
            next atStop =>
              exact (and_iff_right ⟨Int.not_lt.1 onTime, not_not.1 atStop⟩).symm

theorem Joined.chainFlaw?_eq_none {legs : List Leg} (h : Joined legs) (position : Nat) :
    chainFlaw? position legs = none := by
  rw [chainFlaw?_eq_none_iff, List.isChain_iff_forall_rel_of_append_cons_cons]
  intro previous next before after equal
  have joins := h before previous next after equal
  exact ⟨joins.notBefore, joins.atStop⟩

theorem flaw?_eq_none_iff {walkOnly : Bool} {j : Journey} : j.flaw? walkOnly = none ↔
    (j.legs.head?.any Leg.isAccess = true ∧ j.legs.getLast?.any Leg.isEgress = true) ∧
    (walkOnly = true ∨ ∃ leg ∈ j.legs, leg.isRide = true) ∧
    (∀ leg ∈ j.legs, leg.isBackward = false) ∧ chainFlaw? 0 j.legs = none := by
  have ridden : (!walkOnly && j.nbOfRides == 0) = false ↔
      walkOnly = true ∨ ∃ leg ∈ j.legs, leg.isRide = true := by
    rw [Bool.and_eq_false_iff, Bool.not_eq_false', beq_eq_false_iff_ne, ← Nat.pos_iff_ne_zero,
      nbOfRides, List.countP_pos_iff]
  rw [← Bool.and_eq_true, ← ridden, ← List.findIdx?_eq_none_iff, flaw?]
  split
  next malformed => exact iff_of_false nofun fun parts => by simp [parts.1] at malformed
  next ends =>
    split
    next none => exact iff_of_false nofun fun parts => by simp [parts.2.1] at none
    next some =>
      split
      next found => exact iff_of_false nofun fun parts => by simp [parts.2.2.1] at found
      next forward =>
        exact ⟨fun chain => ⟨by simpa using ends, by simpa using some, forward, chain⟩,
          fun parts => parts.2.2.2⟩

/-- Neither end of a leg is later than that of another one. -/
def Leg.NotAfter (leg other : Leg) : Prop :=
  leg.departure ≤ other.departure ∧ leg.arrival ≤ other.arrival

instance : Trans Leg.NotAfter Leg.NotAfter Leg.NotAfter :=
  ⟨fun first second => ⟨Int.le_trans first.1 second.1, Int.le_trans first.2 second.2⟩⟩

theorem Joined.pairwise_notAfter {legs : List Leg} (h : Joined legs)
    (forward : ∀ leg ∈ legs, leg.departure ≤ leg.arrival) : legs.Pairwise Leg.NotAfter := by
  refine List.isChain_iff_pairwise.1 (List.isChain_iff_forall_rel_of_append_cons_cons.2 ?_)
  intro previous next before after equal
  have joins := h before previous next after equal
  have earlier := forward previous (by simp [equal])
  have later := forward next (by simp [equal])
  exact ⟨Int.le_trans earlier joins.notBefore, Int.le_trans joins.notBefore later⟩

theorem Joined.between {legs : List Leg} (h : Joined legs)
    (forward : ∀ leg ∈ legs, leg.departure ≤ leg.arrival) {start finish : SearchTime}
    (starts : legs.head?.map Leg.departure = some start)
    (ends : legs.getLast?.map Leg.arrival = some finish) {leg : Leg} (member : leg ∈ legs) :
    start ≤ leg.departure ∧ leg.arrival ≤ finish := by
  have pairwise := h.pairwise_notAfter forward
  constructor
  · cases legs with
    | nil => cases member
    | cons first rest =>
        obtain rfl : first.departure = start := by simpa using starts
        rcases List.mem_cons.1 member with rfl | later
        · exact Int.le_refl _
        · exact (List.rel_of_pairwise_cons pairwise later).1
  · rcases List.eq_nil_or_concat' legs with rfl | ⟨before, last, rfl⟩
    · cases member
    · obtain rfl : last.arrival = finish := by simpa using ends
      rcases List.mem_append.1 member with earlier | final
      · exact ((List.pairwise_append.1 pairwise).2.2 leg earlier last List.mem_cons_self).2
      · rw [List.mem_singleton.1 final]
        exact Int.le_refl _

theorem Joined.length_le_one {access egress : Leg} {middle : List Leg}
    (h : Joined (access :: middle ++ [egress])) (walks : ∀ leg ∈ middle, leg.isWalk = true) :
    middle.length ≤ 1 := by
  match middle with
  | [] => exact Nat.zero_le _
  | [_] => exact Nat.le_refl _
  | first :: second :: rest =>
      have joins := h [access] first second (rest ++ [egress]) rfl
      have stops := joins.rested (walks first List.mem_cons_self)
      rw [walks second (List.mem_cons_of_mem _ List.mem_cons_self)] at stops
      cases stops

/-- What a journey promises: a leg from the origin, rides and walks, and a leg to the destination,
which join; with vehicles the last of them is left where the destination is near. -/
structure IsProper (walkOnly : Bool) (j : Journey) : Prop where
  parts : ∃ access middle egress, j.legs = access :: middle ++ [egress] ∧
    access.isAccess = true ∧ egress.isEgress = true ∧
      (∀ leg ∈ middle, leg.isRide = true ∨ leg.isWalk = true) ∧
        if walkOnly then middle.length ≤ 1 ∧ ∀ leg ∈ middle, leg.isWalk = true
        else ∃ last ∈ middle.getLast?, last.isRide = true
  joined : Joined j.legs
  forward : ∀ leg ∈ j.legs, leg.isBackward = false
  departure : j.legs.head?.map Leg.departure = some j.departure
  arrival : j.legs.getLast?.map Leg.arrival = some j.arrival

theorem IsProper.isSound {walkOnly : Bool} {j : Journey} (h : j.IsProper walkOnly) :
    j.isSound walkOnly = true := by
  obtain ⟨access, middle, egress, legs, start, finish, -, rides⟩ := h.parts
  have first : j.legs.head? = some access := by rw [legs]; rfl
  have last : j.legs.getLast? = some egress := by rw [legs]; exact List.getLast?_concat
  have ridden : walkOnly = true ∨ ∃ leg ∈ j.legs, leg.isRide = true := by
    cases walkOnly with
    | true => exact .inl rfl
    | false =>
        simp only [Bool.false_eq_true, if_false] at rides
        obtain ⟨last, isLast, isRide⟩ := rides
        have inMiddle := List.mem_of_getLast? isLast
        exact .inr ⟨last, by simp [legs, inMiddle], isRide⟩
  rw [Journey.isSound, Option.isNone_iff_eq_none, flaw?_eq_none_iff]
  exact ⟨by simp [first, last, start, finish], ridden, h.forward, h.joined.chainFlaw?_eq_none 0⟩

end JourneyPlanner.Journey
