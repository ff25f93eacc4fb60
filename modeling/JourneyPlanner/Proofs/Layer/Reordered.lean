import JourneyPlanner.Proofs.Layer.Days
import Mathlib.Data.List.Perm.Basic

/-!
A network whose stopping patterns are listed in another order. It compiles as well, to a layer with
the same stops, footpaths and calendar. The trip patterns have other indices there, but each of them
runs its schedules on the same dates.
-/

namespace JourneyPlanner

theorem mapM_of_forall₂ {ε α β : Type} {f : α → Except ε β} {l : List α} {results : List β}
    (h : List.Forall₂ (fun a b => f a = .ok b) l results) : l.mapM f = .ok results := by
  induction h with
  | nil => rfl
  | cons first _ ih =>
      rw [List.mapM_cons, first, ih]
      rfl

theorem exists_mapM_of_perm {ε α β : Type} {f : α → Except ε β} {l m : List α} {results : List β}
    (perm : m.Perm l) (h : l.mapM f = .ok results) :
    ∃ others, m.mapM f = .ok others ∧ others.Perm results := by
  obtain ⟨others, related, same⟩ := List.perm_comp_forall₂ perm (forall₂_of_mapM h)
  exact ⟨others, mapM_of_forall₂ related, same⟩

namespace Layer

/-- The schedules of a pattern that run on a date, if there are any. -/
def schedulesOn? (l : Layer) (date : Date) (pattern : PatternIndex) : Option (List Nat) :=
  ((l.runningOn date).find? (·.pattern == pattern)).map RunningPattern.schedules

/-- The layers differ in the indices of their patterns only. -/
structure IsReordering (l k : Layer) : Prop where
  stops : k.stops = l.stops
  footpaths : k.footpaths = l.footpaths
  calendar : k.calendar = l.calendar
  patterns : ∀ (i : PatternIndex) (p : TripPattern), l.patterns[i]? = some p →
    ∃ j : PatternIndex, k.patterns[j]? = some p ∧
      ∀ date, k.schedulesOn? date j = l.schedulesOn? date i
  patternsBack : ∀ (i : PatternIndex) (p : TripPattern), k.patterns[i]? = some p →
    ∃ j : PatternIndex, l.patterns[j]? = some p ∧
      ∀ date, l.schedulesOn? date j = k.schedulesOn? date i

namespace Build

/-- The schedules of a trip pattern that run on a day of the calendar. -/
def runningSchedules (services : Services) (day : Nat) (pattern : TripPattern) : List Nat :=
  (List.range pattern.schedules.size).filter fun schedule =>
    runs services day (pattern.schedule schedule)

/-- The trip patterns with some schedules chosen of each, those without any left out. -/
def listing (chosen : TripPattern → List Nat) (patterns : List TripPattern) : List RunningPattern :=
  patterns.zipIdx.filterMap fun (pattern, index) =>
    if (chosen pattern).isEmpty then none else some ⟨index, chosen pattern⟩

theorem runningOnDay_eq (patterns : List TripPattern) (services : Services) (day : Nat) :
    runningOnDay patterns services day = listing (runningSchedules services day) patterns := rfl

theorem find?_listing {chosen : TripPattern → List Nat} {patterns : List TripPattern}
    {index : PatternIndex} {pattern : TripPattern} (known : patterns[index]? = some pattern) :
    ((listing chosen patterns).find? (·.pattern == index)).map RunningPattern.schedules =
      if (chosen pattern).isEmpty then none else some (chosen pattern) := by
  cases found : (listing chosen patterns).find? (·.pattern == index) with
  | none =>
      split
      · rfl
      · next some =>
          have member : ⟨index, chosen pattern⟩ ∈ listing chosen patterns :=
            List.mem_filterMap.2
              ⟨(pattern, index), List.mem_zipIdx_iff_getElem?.2 known, if_neg some⟩
          exact absurd (beq_self_eq_true index) (List.find?_eq_none.1 found _ member)
  | some running =>
      obtain ⟨⟨other, position⟩, member, made⟩ :=
        List.mem_filterMap.1 (List.mem_of_find?_eq_some found)
      have at' : patterns[position]? = some other := List.mem_zipIdx_iff_getElem?.1 member
      have same : (running.pattern == index) = true :=
        List.find?_some (p := fun running : RunningPattern => running.pattern == index) found
      simp only at made
      split at made
      · cases made
      · next some =>
          cases made
          obtain rfl : position = index := eq_of_beq same
          obtain rfl : pattern = other := Option.some.inj (known.symm.trans at')
          exact (if_neg some).symm

theorem isReordering_of_perm {stops : Array Stop} {patterns others : List TripPattern}
    {footpaths : Array (Array Footpath)} {serviceIds : Array String} {services : Services}
    {days : List Nat} (perm : others.Perm patterns) :
    let layer (patterns : List TripPattern) : Layer :=
      ⟨stops, patterns.toArray, footpaths, serviceIds, services.serviceDays, services.daySets,
        services.calendar, (days.map (runningOnDay patterns services)).toArray⟩
    (layer patterns).IsReordering (layer others) := by
  intro layer
  have listed {left right : List TripPattern} {i j : PatternIndex} {p : TripPattern}
      (here : left[i]? = some p) (there : right[j]? = some p) (date : Date) :
      (layer right).schedulesOn? date j = (layer left).schedulesOn? date i := by
    simp only [schedulesOn?, runningOn, layer, Array.getD_eq_getD_getElem?, List.getElem?_toArray,
      List.getElem?_map]
    split
    · next day _ =>
        cases days[day]? with
        | none => rfl
        | some day =>
            simp only [Option.map_some, Option.getD_some, runningOnDay_eq, find?_listing here,
              find?_listing there]
    · rfl
  have matched {left right : List TripPattern} (perm : right.Perm left) (i : PatternIndex)
      (p : TripPattern) (known : (layer left).patterns[i]? = some p) :
      ∃ j : PatternIndex, (layer right).patterns[j]? = some p ∧
        ∀ date, (layer right).schedulesOn? date j = (layer left).schedulesOn? date i := by
    have here : left[i]? = some p := by simpa [layer] using known
    obtain ⟨j, there⟩ := List.mem_iff_getElem?.1 (perm.mem_iff.2 (List.mem_of_getElem? here))
    exact ⟨j, by simpa [layer] using there, listed here there⟩
  exact ⟨rfl, rfl, rfl, matched perm, matched perm.symm⟩

end Build

theorem exists_build_of_perm {network : Network} {layer : Layer} {patterns : Array StopPattern}
    (built : Layer.build network = .ok layer)
    (perm : patterns.toList.Perm network.patterns.toList) :
    ∃ other, Layer.build { network with patterns := patterns } = .ok other ∧
      layer.IsReordering other := by
  obtain ⟨services, compiled, footpaths, served, made, connected, rfl⟩ := build_eq_ok.1 built
  obtain ⟨parts, each, rfl⟩ := Build.patterns_eq_ok.1 made
  obtain ⟨others, eachToo, same⟩ := exists_mapM_of_perm perm each
  have compiledToo : Build.patterns { network with patterns := patterns } = .ok others.flatten :=
    Build.patterns_eq_ok.2 ⟨others, eachToo, rfl⟩
  exact ⟨_, build_eq_ok.2 ⟨services, _, footpaths, served, compiledToo, connected, rfl⟩,
    Build.isReordering_of_perm same.flatten⟩

end Layer

end JourneyPlanner
