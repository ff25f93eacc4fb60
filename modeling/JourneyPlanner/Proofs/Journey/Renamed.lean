import JourneyPlanner.Proofs.Journey.Rides
import JourneyPlanner.Proofs.Journey.Shown
import JourneyPlanner.Proofs.Timetable.RunsAs
import Mathlib.Data.Set.Function

/-!
Journeys read off one tree with the lines of two timetables that differ in names alone. They are the
same journeys with other numbers of patterns. Journeys are compared by whether they board the same
patterns, not by which ones these are, so the same ones are shown, in the same order.
-/

namespace JourneyPlanner

namespace Journey

/-- The leg with the number of its pattern replaced. -/
def Leg.renamed (name : PatternIndex → PatternIndex) : Leg → Leg
  | ride pattern schedule date boardPosition debarkPosition boardStop debarkStop boardTime
      debarkTime =>
      ride (name pattern) schedule date boardPosition debarkPosition boardStop debarkStop boardTime
        debarkTime
  | leg => leg

def renamed (name : PatternIndex → PatternIndex) (j : Journey) : Journey :=
  { j with legs := j.legs.map (Leg.renamed name) }

variable {name back : PatternIndex → PatternIndex} {journeys kept : List Journey} {j k : Journey}

@[simp] theorem Leg.arrival_renamed (name : PatternIndex → PatternIndex) (leg : Leg) :
    (leg.renamed name).arrival = leg.arrival := by
  cases leg <;> rfl

theorem patterns_renamed (name : PatternIndex → PatternIndex) (j : Journey) :
    (j.renamed name).patterns = j.patterns.map name := by
  have leg : Leg.pattern? ∘ Leg.renamed name = fun leg => leg.pattern?.map name := by
    funext leg
    cases leg <;> rfl
  rw [patterns, patterns, renamed, List.filterMap_map, leg, List.map_filterMap]

theorem replaces_renamed (undone : ∀ p ∈ j.patterns, back (name p) = p)
    (undoneToo : ∀ p ∈ k.patterns, back (name p) = p) :
    (j.renamed name).replaces (k.renamed name) = j.replaces k := by
  have own {l : List PatternIndex} (undone : ∀ p ∈ l, back (name p) = p) :
      (l.map name).map back = l := by
    rw [List.map_map]
    exact (List.map_congr_left (g := id) undone).trans (List.map_id l)
  have same : (j.renamed name).hasSamePatterns (k.renamed name) = j.hasSamePatterns k := by
    rw [hasSamePatterns, hasSamePatterns, patterns_renamed, patterns_renamed, Bool.eq_iff_iff,
      beq_iff_eq, beq_iff_eq]
    refine ⟨fun equal => ?_, fun equal => by rw [equal]⟩
    rw [← own undone, equal, own undoneToo]
  rw [replaces, same]
  rfl

theorem foldl_keep_map {f : Journey → Journey}
    (same : ∀ j ∈ journeys, ∀ k ∈ journeys, (f j).replaces (f k) = j.replaces k) {l : List Journey}
    (given : ∀ k ∈ l, k ∈ journeys) (known : ∀ k ∈ kept, k ∈ journeys) :
    (l.map f).foldl keep (kept.map f) = (l.foldl keep kept).map f := by
  induction l generalizing kept with
  | nil => rfl
  | cons j l ih =>
      have here : j ∈ journeys := given j List.mem_cons_self
      have step : keep (kept.map f) (f j) = (keep kept j).map f := by
        have replaced : (kept.map f).any (·.replaces (f j)) = kept.any (·.replaces j) := by
          rw [List.any_map, Bool.eq_iff_iff, List.any_eq_true, List.any_eq_true]
          refine exists_congr fun k => and_congr_right fun member => ?_
          rw [Function.comp_apply, same k (known k member) j here]
        have stays : (kept.map f).filter (fun other => !(f j).replaces other) =
            (kept.filter fun other => !j.replaces other).map f := by
          rw [List.filter_map]
          refine congrArg (List.map f) (List.filter_congr fun k member => ?_)
          rw [Function.comp_apply, same j here k (known k member)]
        rw [keep, keep, replaced, stays]
        split
        · rfl
        · rw [List.map_append]
          rfl
      rw [List.map_cons, List.foldl_cons, step]
      refine ih (fun k member => given k (List.mem_cons_of_mem _ member)) fun k member => ?_
      rcases mem_of_mem_keep member with old | rfl
      · exact known k old
      · exact here

theorem distinct_renamed (undone : ∀ j ∈ journeys, ∀ p ∈ j.patterns, back (name p) = p) :
    distinct (journeys.map (renamed name)) = (distinct journeys).map (renamed name) := by
  have same : ∀ j ∈ journeys, ∀ k ∈ journeys,
      (j.renamed name).replaces (k.renamed name) = j.replaces k :=
    fun j member k among => replaces_renamed (undone j member) (undone k among)
  have nothing : ∀ k ∈ ([] : List Journey), k ∈ journeys := fun _ none => by cases none
  have kept := foldl_keep_map same (fun _ member => member) nothing
  have sorted := List.map_mergeSort (r := shownBefore) (s := shownBefore) (f := renamed name)
    (l := journeys.foldl keep []) fun _ _ _ _ => rfl
  rw [distinct, distinct, sorted, ← kept]
  rfl

end Journey

namespace Search

/-- The searches have the same query and the same lines without names, and the second one numbers
by `name` the patterns that the first one has lines of. -/
structure IsRenaming (name : PatternIndex → PatternIndex) (c d : Context) : Prop where
  query_eq : d.query = c.query
  line_eq : ∀ line, (d.timetable.line line).unnamed = (c.timetable.line line).unnamed
  patternIndex_eq : ∀ line < c.timetable.nbOfLines,
    (d.timetable.line line).patternIndex = name (c.timetable.line line).patternIndex

theorem exists_isRenaming {c d : Context} (query_eq : d.query = c.query)
    (alike : c.timetable.RunsAs d.timetable)
    (apart : Set.InjOn (fun line => (c.timetable.line line).patternIndex)
      {line | line < c.timetable.nbOfLines})
    (apartToo : Set.InjOn (fun line => (d.timetable.line line).patternIndex)
      {line | line < d.timetable.nbOfLines}) :
    ∃ name back : PatternIndex → PatternIndex, IsRenaming name c d ∧
      ∀ line < c.timetable.nbOfLines,
        back (name (c.timetable.line line).patternIndex) =
          (c.timetable.line line).patternIndex := by
  let own (line : LineIndex) : PatternIndex := (c.timetable.line line).patternIndex
  let other (line : LineIndex) : PatternIndex := (d.timetable.line line).patternIndex
  let lines := {line | line < c.timetable.nbOfLines}
  rw [alike.nbOfLines_eq] at apartToo
  -- A pattern is renamed by way of its line, which it tells.
  let name (p : PatternIndex) : PatternIndex := other (Function.invFunOn own lines p)
  let back (p : PatternIndex) : PatternIndex := own (Function.invFunOn other lines p)
  have named (line : LineIndex) (inside : line < c.timetable.nbOfLines) :
      name (own line) = other line :=
    congrArg other (apart.leftInvOn_invFunOn inside)
  have namedBack (line : LineIndex) (inside : line < c.timetable.nbOfLines) :
      back (other line) = own line :=
    congrArg own (apartToo.leftInvOn_invFunOn inside)
  refine ⟨name, back, ⟨query_eq, alike.line_eq, fun line inside => (named line inside).symm⟩,
    fun line inside => ?_⟩
  change back (name (own line)) = own line
  rw [named line inside, namedBack line inside]

end Search

namespace Journey

open Search

variable {name back : PatternIndex → PatternIndex} {c d : Context} {s : SearchState}

theorem legOf_renamed (h : IsRenaming name c d) {tree : JourneyTree} {bound i : NodeIndex}
    (follows : Follows c tree bound (tree.node i)) (time : SearchTime) :
    legOf d tree time i = (legOf c tree time i).renamed name := by
  generalize equal : tree.node i = node at follows
  cases follows with
  | access =>
      simp only [legOf, equal, h.query_eq]
      rfl
  | walk =>
      simp only [legOf, equal]
      rfl
  | @ride line o position older boarded atStop ahead inside inTime =>
      have alike := h.line_eq line
      simp only [legOf, equal, rideNode, Leg.renamed, Line.serviceDate_eq alike,
        Line.stopAt_eq alike, Line.debarkTime_eq alike,
        h.patternIndex_eq line (Timetable.lt_nbOfLines inside)]

theorem legsFrom_renamed (h : IsRenaming name c d) {tree : JourneyTree} {nodes : List NodeIndex}
    (each : ∀ i ∈ nodes, ∀ time, legOf d tree time i = (legOf c tree time i).renamed name)
    (egress : Nat) (time : SearchTime) :
    legsFrom d tree egress time nodes =
      (legsFrom c tree egress time nodes).map (Leg.renamed name) := by
  induction nodes generalizing time with
  | nil =>
      rw [legsFrom, legsFrom, h.query_eq]
      rfl
  | cons i rest ih =>
      rw [legsFrom, legsFrom, List.map_cons, each i List.mem_cons_self, Leg.arrival_renamed,
        ih fun j among => each j (List.mem_cons_of_mem _ among)]

theorem ofArrived_renamed (h : IsRenaming name c d) (consistent : Consistent c s)
    {arrived : Arrived × ArrivalCriteria} (member : arrived ∈ s.arrived) :
    ofArrived d s.tree arrived = (ofArrived c s.tree arrived).renamed name := by
  obtain ⟨_, arrival⟩ := consistent.arrived arrived member
  have each : ∀ i ∈ s.tree.lineage arrived.1.node, ∀ time,
      legOf d s.tree time i = (legOf c s.tree time i).renamed name := by
    intro i among time
    have older := Nat.lt_of_le_of_lt (JourneyTree.le_of_mem_lineage among) arrival.older
    exact legOf_renamed h (consistent.follows i older) time
  simp only [ofArrived, legsFrom_renamed h each]
  rfl

theorem extract_renamed (h : IsRenaming name c d) (regular : IsRegular c) (regularToo : IsRegular d)
    (consistent : Consistent c s) (consistentToo : Consistent d s) :
    extract d s (d.query.maxBoardings == 0) =
      (extract c s (c.query.maxBoardings == 0)).map (renamed name) := by
  rw [extract_eq consistent regular, extract_eq consistentToo regularToo, List.map_map]
  exact List.map_congr_left fun arrived member => ofArrived_renamed h consistent member

theorem exists_line_of_mem_patterns (consistent : Consistent c s) {walkOnly : Bool} {j : Journey}
    (member : j ∈ extract c s walkOnly) {p : PatternIndex} (among : p ∈ j.patterns) :
    ∃ line < c.timetable.nbOfLines, (c.timetable.line line).patternIndex = p := by
  obtain ⟨leg, inLegs, boards⟩ := List.mem_filterMap.1 among
  have ride : leg.isRide = true := by
    cases leg with
    | ride => rfl
    | access => cases boards
    | walk => cases boards
    | egress => cases boards
  obtain ⟨line, _, _, onLine⟩ := exists_isRideOn_of_mem consistent member inLegs ride
  rw [onLine.leg_eq] at boards
  exact ⟨line, Timetable.lt_nbOfLines onLine.inside, Option.some.inj boards⟩

end Journey

end JourneyPlanner
