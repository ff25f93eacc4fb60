import JourneyPlanner.Proofs.Filtering
import JourneyPlanner.Proofs.Layer.Days
import JourneyPlanner.Proofs.Request.StreetLegs
import Mathlib.Data.List.Induction

/-!
Which walk is kept for each stop. The stops of the legs are those that the layer knows among the
reaches, in the order in which they come first; the leg of a stop is that of the first of its shortest
reaches, and it is found at its stop and nowhere else. Reaches of unknown stops make no difference.
-/

namespace JourneyPlanner.StreetLegs

/-- A leg with what a reach says, at the stop that the layer knows by the name in it. -/
structure IsLegOf (layer : Layer) (reach : Reach) (leg : StreetLeg) : Prop where
  stop : layer.stopIndex? reach.stopId = some leg.stop
  duration : leg.duration = reach.duration
  distance : leg.distance = reach.distance
  cost : leg.cost = reach.cost
  geometry : leg.geometry = reach.geometry

/-- A leg among others, longer than none of its stop and shorter than the earlier ones. -/
def IsFirstShortest (legs : List StreetLeg) (leg : StreetLeg) : Prop :=
  ∃ before after, legs = before ++ leg :: after ∧
    (∀ other ∈ before, other.stop = leg.stop → leg.duration < other.duration) ∧
    ∀ other ∈ after, other.stop = leg.stop → leg.duration ≤ other.duration

variable {s : StreetLegs} {legs : List StreetLeg} {leg new : StreetLeg} {stop : StopIndex}
  {index : Nat} {layer : Layer} {reaches : List Reach} {reach : Reach}

theorem ofReach?_eq_some_iff : ofReach? layer reach = some leg ↔ IsLegOf layer reach leg := by
  rw [ofReach?, Option.map_eq_some_iff]
  constructor
  · rintro ⟨stop, known, rfl⟩
    exact ⟨known, rfl, rfl, rfl, rfl⟩
  · obtain ⟨stop, duration, distance, cost, geometry⟩ := leg
    rintro ⟨known, rfl, rfl, rfl, rfl⟩
    exact ⟨stop, known, rfl⟩

theorem ofReach?_of_known (known : layer.stopIndex? reach.stopId = some stop) :
    ofReach? layer reach =
      some ⟨stop, reach.duration, reach.distance, reach.cost, reach.geometry⟩ := by
  rw [ofReach?, known, Option.map_some]

theorem atStop?_eq_some_iff :
    s.atStop? stop = some (index, leg) ↔ s.legs[index]? = some leg ∧ leg.stop = stop := by
  constructor
  · exact fun found => ⟨getElem?_of_atStop? found, (atStop?_spec found).2.2⟩
  · rintro ⟨there, rfl⟩
    have found : s.indexAt? leg.stop = some index :=
      indexAt?_eq_some_iff.2 (by rw [there, Option.map_some])
    rw [atStop?, found, Option.map_some, leg_of_getElem? there]

theorem atStop?_eq_none_iff : s.atStop? stop = none ↔ stop ∉ s.stops := by
  rw [atStop?, Option.map_eq_none_iff, indexAt?_eq_none]

theorem IsFirstShortest.le (h : IsFirstShortest legs leg) {other : StreetLeg}
    (member : other ∈ legs) (same : other.stop = leg.stop) : leg.duration ≤ other.duration := by
  obtain ⟨before, after, rfl, longer, notShorter⟩ := h
  rcases List.mem_append.1 member with earlier | later
  · exact Nat.le_of_lt (longer other earlier same)
  · rcases List.mem_cons.1 later with rfl | later
    · exact Nat.le_refl _
    · exact notShorter other later same

theorem IsFirstShortest.concat (h : IsFirstShortest legs leg)
    (notShorter : new.stop = leg.stop → leg.duration ≤ new.duration) :
    IsFirstShortest (legs ++ [new]) leg := by
  obtain ⟨before, after, rfl, longer, rest⟩ := h
  refine ⟨before, after ++ [new], by simp, longer, fun other member same => ?_⟩
  rcases List.mem_append.1 member with old | last
  · exact rest other old same
  · rw [List.mem_singleton.1 last] at same ⊢
    exact notShorter same

theorem isFirstShortest_concat_self
    (longer : ∀ other ∈ legs, other.stop = new.stop → new.duration < other.duration) :
    IsFirstShortest (legs ++ [new]) new :=
  ⟨legs, [], rfl, longer, List.forall_mem_nil _⟩

theorem add_of_known (member : leg ∈ s.legs) (same : leg.stop = new.stop) :
    ∃ index, s.legs[index]? = some leg ∧ (s.add new).legs =
      if new.duration < leg.duration then s.legs.setIfInBounds index new else s.legs := by
  obtain ⟨index, found⟩ := atStop?_of_mem member
  obtain ⟨there, known, equal⟩ := Option.map_eq_some_iff.1 found
  obtain ⟨rfl, here⟩ := Prod.mk.inj equal
  rcases add_cases s new with ⟨outside, -⟩ | ⟨-, unknown, -⟩ | ⟨place, foundToo, added⟩
  · exact absurd (same ▸ stop_lt_of_mem member) (Nat.not_lt.2 outside)
  · exact absurd (exists_indexAt?_iff.1 ⟨there, same ▸ known⟩) unknown
  · obtain rfl : there = place := Option.some.inj (known.symm.trans (same ▸ foundToo))
    exact ⟨there, getElem?_of_atStop? found, by rw [added, here]⟩

theorem isFirstShortest_add (complete : ∀ other ∈ legs, other.stop ∈ s.stops)
    (shortest : ∀ leg ∈ s.legs, IsFirstShortest legs leg) :
    ∀ leg ∈ (s.add new).legs, IsFirstShortest (legs ++ [new]) leg := by
  intro leg member
  rcases eq_or_mem_of_mem_add member with rfl | old
  · -- The added leg is there: its stop had none, or had a longer one.
    by_cases known : leg.stop ∈ s.stops
    · obtain ⟨current, isLeg, same⟩ := List.mem_map.1 known
      have isLeg := Array.mem_toList_iff.1 isLeg
      obtain ⟨index, there, added⟩ := add_of_known isLeg same
      by_cases shorter : leg.duration < current.duration
      · refine isFirstShortest_concat_self fun other among sameStop => ?_
        exact Nat.lt_of_lt_of_le shorter
          ((shortest current isLeg).le among (sameStop.trans same.symm))
      · rw [added, if_neg shorter] at member
        exact (shortest leg member).concat fun _ => Nat.le_refl _
    · refine isFirstShortest_concat_self fun other among sameStop => ?_
      exact absurd (sameStop ▸ complete other among) known
  · refine (shortest leg old).concat fun same => ?_
    obtain ⟨index, there, added⟩ := add_of_known old same.symm
    refine Nat.le_of_not_lt fun (shorter : new.duration < leg.duration) => ?_
    -- A longer leg gave way to the added one, and there is one leg at a stop.
    have inside : index < s.legs.size := (Array.getElem?_eq_some_iff.1 there).1
    have replaced : new ∈ (s.add new).legs := by
      rw [added, if_pos shorter]
      exact Array.mem_setIfInBounds inside
    have equal := eq_of_stop_eq member replaced same.symm
    exact Nat.lt_irrefl _ (equal ▸ shorter)

theorem isFirstShortest_of_mem_ofLegs {nbOfStops : Nat} {legs : List StreetLeg}
    (inside : ∀ leg ∈ legs, leg.stop < nbOfStops) :
    ∀ leg ∈ (ofLegs nbOfStops legs).legs, IsFirstShortest legs leg := by
  induction legs using List.reverseRecOn with
  | nil => exact fun leg none => absurd none (Array.not_mem_empty leg)
  | append_singleton legs new ih =>
      have known : ∀ leg ∈ legs, leg.stop < nbOfStops :=
        fun leg member => inside leg (List.mem_append_left _ member)
      have complete : ∀ other ∈ legs, other.stop ∈ (ofLegs nbOfStops legs).stops := by
        intro other member
        rw [stops_ofLegs known]
        exact List.mem_eraseDups.2 (List.mem_map_of_mem member)
      rw [ofLegs, List.foldl_append, List.foldl_cons, List.foldl_nil, ← ofLegs]
      exact isFirstShortest_add complete (ih known)

/-- A leg is that of a reach that is longer than none of its stop and shorter than the earlier ones. -/
def IsOfFirstShortest (layer : Layer) (reaches : List Reach) (leg : StreetLeg) : Prop :=
  ∃ before reach after, reaches = before ++ reach :: after ∧ IsLegOf layer reach leg ∧
    (∀ other ∈ before, layer.stopIndex? other.stopId = some leg.stop →
      reach.duration < other.duration) ∧
    ∀ other ∈ after, layer.stopIndex? other.stopId = some leg.stop →
      reach.duration ≤ other.duration

theorem isOfFirstShortest_of_mem (member : leg ∈ (ofReaches layer reaches).legs) :
    IsOfFirstShortest layer reaches leg := by
  have of_known {other : Reach} {others : List Reach} (among : other ∈ others)
      (known : layer.stopIndex? other.stopId = some leg.stop) :
      ∃ otherLeg ∈ others.filterMap (ofReach? layer),
        otherLeg.stop = leg.stop ∧ otherLeg.duration = other.duration :=
    ⟨_, List.mem_filterMap.2 ⟨other, among, ofReach?_of_known known⟩, rfl, rfl⟩
  obtain ⟨before, after, split, longer, notShorter⟩ :=
    isFirstShortest_of_mem_ofLegs (fun leg => stop_lt_of_mem_filterMap) leg member
  obtain ⟨first, rest, rfl, rfl, others⟩ := List.filterMap_eq_append_iff.1 split
  obtain ⟨skipped, reach, last, rfl, unknown, made, rfl⟩ := List.filterMap_eq_cons_iff.1 others
  have isLeg := ofReach?_eq_some_iff.1 made
  refine ⟨first ++ skipped, reach, last, by simp, isLeg, fun other among known => ?_,
    fun other among known => ?_⟩
  · rcases List.mem_append.1 among with earlier | passed
    · obtain ⟨otherLeg, memberToo, same, duration⟩ := of_known earlier known
      have less := longer otherLeg memberToo same
      rwa [duration, isLeg.duration] at less
    · have made := (ofReach?_of_known known).symm.trans (unknown other passed)
      cases made
  · obtain ⟨otherLeg, memberToo, same, duration⟩ := of_known among known
    have le := notShorter otherLeg memberToo same
    rwa [duration, isLeg.duration] at le

/-- The legs of some reaches. There is one for each stop that the layer knows among them, in the order
in which the stops come first; each one has what the first of the shortest reaches of its stop says;
the table has an entry for each stop of the layer, with an index where the leg of that index is of
the stop; a stop has a leg where the leg is, and none when no reach leads there; and reaches of stops
that the layer does not know may be left out. -/
theorem ofReaches_exact (layer : Layer) (reaches : List Reach) :
    let s := ofReaches layer reaches
    s.stops = (reaches.filterMap fun reach => layer.stopIndex? reach.stopId).eraseDups ∧
      s.stops.Nodup ∧
      (∀ leg ∈ s.legs, IsOfFirstShortest layer reaches leg) ∧
      s.legAtStop.size = layer.nbOfStops ∧
      (∀ stop index, s.legAtStop[stop]? = some (some index) ↔
        s.legs[index]?.map StreetLeg.stop = some stop) ∧
      (∀ stop index leg, s.atStop? stop = some (index, leg) ↔
        s.legs[index]? = some leg ∧ leg.stop = stop) ∧
      (∀ stop, s.atStop? stop = none ↔
        ∀ reach ∈ reaches, layer.stopIndex? reach.stopId ≠ some stop) ∧
      ofReaches layer (reaches.filter fun reach => (layer.stopIndex? reach.stopId).isSome) = s := by
  refine ⟨stops_ofReaches layer reaches, nodup_stops _, fun leg => isOfFirstShortest_of_mem,
    size_legAtStop_ofLegs .., inverse _, fun stop index leg => atStop?_eq_some_iff,
    fun stop => ?_, ?_⟩
  · rw [atStop?_eq_none_iff, stops_ofReaches, List.mem_eraseDups, List.mem_filterMap]
    simp
  · have known : (fun reach => if (layer.stopIndex? reach.stopId).isSome = true then
        ofReach? layer reach else none) = ofReach? layer := by
      funext reach
      rw [ofReach?]
      cases layer.stopIndex? reach.stopId <;> rfl
    rw [ofReaches, ofReaches, List.filterMap_filter, known]

/-- Three reaches of one stop, two of them as short, and reaches of another stop and of none. -/
def repeated : List Reach :=
  [⟨"b", .ofSeconds 60, 1, none, none⟩, ⟨"x", .ofSeconds 5, 2, none, none⟩,
    ⟨"a", .ofSeconds 20, 3, none, none⟩, ⟨"b", .ofSeconds 30, 4, some .zero, none⟩,
    ⟨"b", .ofSeconds 30, 5, none, none⟩]

theorem ofReaches_exact_repeated : ∃ layer leg, Layer.build .shuttle = .ok layer ∧
    (ofReaches layer repeated).stops = [1, 0] ∧
      (ofReaches layer repeated).atStop? 1 = some (0, leg) ∧ leg.cost = some .zero ∧
        (ofReaches layer repeated).legs[0]? = some leg ∧ IsOfFirstShortest layer repeated leg := by
  have found : (Layer.build .shuttle).toOption.any (fun layer =>
      (repeated.filterMap fun reach => layer.stopIndex? reach.stopId).eraseDups == [1, 0] &&
        ((ofReaches layer repeated).atStop? 1).any fun (index, leg) =>
          decide (index = 0) && decide (leg.cost = some .zero)) = true := by decide +kernel
  obtain ⟨layer, built, found⟩ := exists_ok_of_any found
  obtain ⟨stops, found⟩ := Bool.and_eq_true_iff.1 found
  obtain ⟨⟨index, leg⟩, atStop, found⟩ := (Option.any_eq_true _ _).1 found
  simp only [Bool.and_eq_true, decide_eq_true_eq] at found
  obtain ⟨rfl, cost⟩ := found
  obtain ⟨order, -, shortest, -, -, found, -⟩ := ofReaches_exact layer repeated
  obtain ⟨there, -⟩ := (found 1 0 leg).1 atStop
  exact ⟨layer, leg, built, order.trans (eq_of_beq stops), atStop, cost, there,
    shortest leg (Array.mem_of_getElem? there)⟩

end JourneyPlanner.StreetLegs
