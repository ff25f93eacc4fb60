import JourneyPlanner.Proofs.Filtering
import JourneyPlanner.Street
import Mathlib.Data.List.Induction
import Mathlib.Data.List.Nodup

/-!
The legs at one end of a search. No two of them are of one stop, so the leg of a stop is the only
one there is. Reaches of pairwise distinct stops give the same legs in any order, and reaches of
further stops leave the legs there are alone.
-/

namespace JourneyPlanner.StreetLegs

def stops (s : StreetLegs) : List StopIndex :=
  s.legs.toList.map StreetLeg.stop

theorem getElem?_legs {s : StreetLegs} {index : Nat} (inside : index < s.size) :
    s.legs[index]? = some (s.leg index) := by
  have inside : index < s.legs.size := inside
  simp [leg, inside]

theorem leg_of_getElem? {s : StreetLegs} {index : Nat} {leg : StreetLeg}
    (known : s.legs[index]? = some leg) : s.leg index = leg := by
  rw [StreetLegs.leg, Array.getD_eq_getD_getElem?, known, Option.getD_some]

theorem indexAt?_eq_some_iff {s : StreetLegs} {stop : StopIndex} {index : Nat} :
    s.indexAt? stop = some index ↔ s.legs[index]?.map StreetLeg.stop = some stop := by
  rw [indexAt?, Option.join_eq_some_iff, s.inverse]

theorem indexAt?_eq_some {s : StreetLegs} {stop : StopIndex} {index : Nat}
    (h : s.indexAt? stop = some index) : ∃ inside : index < s.legs.size,
      s.legs[index].stop = stop := by
  obtain ⟨leg, found, same⟩ := Option.map_eq_some_iff.1 (indexAt?_eq_some_iff.1 h)
  obtain ⟨inside, rfl⟩ := Array.getElem?_eq_some_iff.1 found
  exact ⟨inside, same⟩

theorem exists_indexAt?_iff {s : StreetLegs} {stop : StopIndex} :
    (∃ index, s.indexAt? stop = some index) ↔ stop ∈ s.stops := by
  simp only [indexAt?_eq_some_iff, stops, List.mem_iff_getElem?, List.getElem?_map,
    Array.getElem?_toList]

theorem indexAt?_eq_none {s : StreetLegs} {stop : StopIndex} :
    s.indexAt? stop = none ↔ stop ∉ s.stops := by
  rw [← exists_indexAt?_iff, ← Option.isSome_iff_exists, Option.not_isSome_iff_eq_none]

theorem nodup_stops (s : StreetLegs) : s.stops.Nodup := by
  rw [List.nodup_iff_getElem?_ne_getElem?]
  intro first second less inside same
  have known : s.stops[second]? = some s.stops[second] := List.getElem?_eq_getElem inside
  have atSecond : s.indexAt? s.stops[second] = some second := by
    rw [indexAt?_eq_some_iff, ← known, stops, List.getElem?_map, Array.getElem?_toList]
  have atFirst : s.indexAt? s.stops[second] = some first := by
    rw [indexAt?_eq_some_iff, ← known, ← same, stops, List.getElem?_map, Array.getElem?_toList]
  have equal : first = second := Option.some.inj (atFirst.symm.trans atSecond)
  exact Nat.ne_of_lt less equal

theorem eq_of_stop_eq {s : StreetLegs} {leg other : StreetLeg} (member : leg ∈ s.legs)
    (memberToo : other ∈ s.legs) (same : leg.stop = other.stop) : leg = other :=
  List.inj_on_of_nodup_map s.nodup_stops (Array.mem_toList_iff.2 member)
    (Array.mem_toList_iff.2 memberToo) same

theorem stop_lt_of_mem {s : StreetLegs} {leg : StreetLeg} (member : leg ∈ s.legs) :
    leg.stop < s.legAtStop.size := by
  obtain ⟨index, inside, rfl⟩ := Array.getElem_of_mem member
  have entry := (s.inverse s.legs[index].stop index).2 (by simp [inside])
  exact (Array.getElem?_eq_some_iff.1 entry).1

theorem getElem?_of_atStop? {s : StreetLegs} {stop : StopIndex} {index : Nat} {leg : StreetLeg}
    (h : s.atStop? stop = some (index, leg)) : s.legs[index]? = some leg := by
  obtain ⟨found, known, made⟩ := Option.map_eq_some_iff.1 h
  cases made
  exact getElem?_legs (indexAt?_eq_some known).1

theorem atStop?_spec {s : StreetLegs} {stop : StopIndex} {index : Nat} {leg : StreetLeg}
    (h : s.atStop? stop = some (index, leg)) :
    s.leg index = leg ∧ leg ∈ s.legs ∧ leg.stop = stop := by
  obtain ⟨found, known, made⟩ := Option.map_eq_some_iff.1 h
  cases made
  obtain ⟨inside, same⟩ := indexAt?_eq_some known
  have there := getElem?_legs inside
  refine ⟨rfl, Array.mem_of_getElem? there, ?_⟩
  rw [Array.getElem?_eq_getElem inside] at there
  rw [← Option.some.inj there]
  exact same

theorem add_cases (s : StreetLegs) (leg : StreetLeg) :
    (s.legAtStop.size ≤ leg.stop ∧ s.add leg = s) ∨
      (leg.stop < s.legAtStop.size ∧ leg.stop ∉ s.stops ∧
        (s.add leg).legs = s.legs.push leg) ∨
      ∃ index, s.indexAt? leg.stop = some index ∧ (s.add leg).legs =
        if leg.duration < (s.leg index).duration then s.legs.setIfInBounds index leg
        else s.legs := by
  simp only [add]
  split
  · next outside => exact .inl ⟨Array.getElem?_eq_none_iff.1 outside, rfl⟩
  · next unknown =>
      have inside := (Array.getElem?_eq_some_iff.1 unknown).1
      refine .inr (.inl ⟨inside, indexAt?_eq_none.1 ?_, rfl⟩)
      rw [indexAt?, unknown, Option.join_some]
  · next index known =>
      refine .inr (.inr ⟨index, ?_, (apply_ite legs _ _ _)⟩)
      rw [indexAt?, known, Option.join_some]

@[simp]
theorem size_legAtStop_add (s : StreetLegs) (leg : StreetLeg) :
    (s.add leg).legAtStop.size = s.legAtStop.size := by
  simp only [add]
  split
  · rfl
  · exact Array.size_setIfInBounds
  · split <;> rfl

theorem size_legAtStop_ofLegs (nbOfStops : Nat) (legs : List StreetLeg) :
    (ofLegs nbOfStops legs).legAtStop.size = nbOfStops := by
  have nothing : (empty nbOfStops).legAtStop.size = nbOfStops := Array.size_replicate
  exact List.foldlRecOn (motive := fun s => s.legAtStop.size = nbOfStops) legs add nothing
    fun s same leg _ => (size_legAtStop_add s leg).trans same

theorem stops_add {s : StreetLegs} {leg : StreetLeg} (inside : leg.stop < s.legAtStop.size) :
    (s.add leg).stops = if leg.stop ∈ s.stops then s.stops else s.stops ++ [leg.stop] := by
  rcases add_cases s leg with ⟨outside, -⟩ | ⟨-, unknown, added⟩ | ⟨index, found, added⟩
  · exact absurd inside (Nat.not_lt.2 outside)
  · rw [if_neg unknown, stops, added]
    simp [stops]
  · obtain ⟨among, same⟩ := indexAt?_eq_some found
    have known : index < s.stops.length := by simpa [stops] using among
    have old : s.stops[index] = leg.stop := by simpa [stops] using same
    have has : leg.stop ∈ s.stops := old ▸ List.getElem_mem known
    rw [if_pos has, stops, added]
    split
    · have set : (s.legs.setIfInBounds index leg).toList.map StreetLeg.stop =
          s.stops.set index leg.stop := by
        simp [stops, List.map_set]
      rw [set, ← old, List.set_getElem_self]
    · rfl

theorem atStop?_of_mem {s : StreetLegs} {leg : StreetLeg} (member : leg ∈ s.legs) :
    ∃ index, s.atStop? leg.stop = some (index, leg) := by
  obtain ⟨index, inside, rfl⟩ := Array.getElem_of_mem member
  have found : s.indexAt? s.legs[index].stop = some index :=
    indexAt?_eq_some_iff.2 (by simp [inside])
  exact ⟨index, by simp [atStop?, found, leg, inside]⟩

variable {layer : Layer} {reaches : List Reach}

theorem stopId_of_ofReach? {reach : Reach} {leg : StreetLeg}
    (h : ofReach? layer reach = some leg) :
    ∃ stop, layer.stops[leg.stop]? = some stop ∧ stop.id = reach.stopId := by
  obtain ⟨index, found, rfl⟩ := Option.map_eq_some_iff.1 h
  obtain ⟨inside, same, -⟩ := Array.findIdx?_eq_some_iff_getElem.1 found
  exact ⟨_, Array.getElem?_eq_getElem inside, eq_of_beq same⟩

theorem stopId_eq_of_ofReach? {reach other : Reach} {leg otherLeg : StreetLeg}
    (made : ofReach? layer reach = some leg) (madeToo : ofReach? layer other = some otherLeg)
    (same : leg.stop = otherLeg.stop) : reach.stopId = other.stopId := by
  obtain ⟨stop, known, id⟩ := stopId_of_ofReach? made
  obtain ⟨stopToo, knownToo, idToo⟩ := stopId_of_ofReach? madeToo
  rw [← same, known, Option.some.injEq] at knownToo
  rw [← id, ← idToo, knownToo]

theorem eq_or_mem_of_mem_add {s : StreetLegs} {new leg : StreetLeg}
    (member : leg ∈ (s.add new).legs) : leg = new ∨ leg ∈ s.legs := by
  rcases add_cases s new with ⟨-, same⟩ | ⟨-, -, added⟩ | ⟨index, -, added⟩
  · exact .inr (same ▸ member)
  · exact (Array.mem_push.1 (added ▸ member)).symm
  · rw [added] at member
    split at member
    · exact (Array.mem_or_eq_of_mem_setIfInBounds member).symm
    · exact .inr member

theorem exists_reach_of_mem_ofReaches {leg : StreetLeg}
    (member : leg ∈ (ofReaches layer reaches).legs) :
    ∃ reach ∈ reaches, ofReach? layer reach = some leg := by
  let Known (s : StreetLegs) : Prop :=
    ∀ leg ∈ s.legs, ∃ reach ∈ reaches, ofReach? layer reach = some leg
  have nothing : Known (empty layer.nbOfStops) :=
    fun leg none => absurd none (Array.not_mem_empty leg)
  refine List.foldlRecOn (motive := Known) _ add nothing (fun s known new made => ?_) leg member
  intro leg among
  rcases eq_or_mem_of_mem_add among with rfl | old
  · exact List.mem_filterMap.1 made
  · exact known leg old

theorem stop_lt_of_mem_filterMap {leg : StreetLeg}
    (member : leg ∈ reaches.filterMap (ofReach? layer)) : leg.stop < layer.nbOfStops := by
  obtain ⟨reach, -, made⟩ := List.mem_filterMap.1 member
  obtain ⟨stop, inLayer, -⟩ := stopId_of_ofReach? made
  exact (Array.getElem?_eq_some_iff.1 inLayer).1

theorem stop_lt_of_mem_ofReaches {leg : StreetLeg} (member : leg ∈ (ofReaches layer reaches).legs) :
    leg.stop < layer.nbOfStops :=
  Nat.lt_of_lt_of_eq (stop_lt_of_mem member) (size_legAtStop_ofLegs ..)

theorem mem_add_of_ne {s : StreetLegs} {new leg : StreetLeg} (member : leg ∈ s.legs)
    (other : leg.stop ≠ new.stop) : leg ∈ (s.add new).legs := by
  rcases add_cases s new with ⟨-, same⟩ | ⟨-, -, added⟩ | ⟨index, known, added⟩
  · rwa [same]
  · rw [added]
    exact Array.mem_push_of_mem _ member
  · rw [added]
    split
    · obtain ⟨inside, same⟩ := indexAt?_eq_some known
      obtain ⟨i, among, rfl⟩ := Array.getElem_of_mem member
      have apart : index ≠ i := by
        rintro rfl
        exact other same
      refine Array.mem_of_getElem (i := i) (h := by simpa using among) ?_
      exact Array.getElem_setIfInBounds_ne among apart
    · exact member

theorem stops_ofLegs {nbOfStops : Nat} {legs : List StreetLeg}
    (inside : ∀ leg ∈ legs, leg.stop < nbOfStops) :
    (ofLegs nbOfStops legs).stops = (legs.map StreetLeg.stop).eraseDups := by
  induction legs using List.reverseRecOn with
  | nil => rfl
  | append_singleton legs new ih =>
      have known := ih fun leg member => inside leg (List.mem_append_left _ member)
      have last : new.stop < (ofLegs nbOfStops legs).legAtStop.size := by
        rw [size_legAtStop_ofLegs]
        exact inside new List.mem_concat_self
      have added : (ofLegs nbOfStops (legs ++ [new])).stops =
          ((ofLegs nbOfStops legs).add new).stops := by
        rw [ofLegs, List.foldl_append, List.foldl_cons, List.foldl_nil, ← ofLegs]
      rw [added, stops_add last, known, List.map_append, List.map_cons, List.map_nil,
        eraseDups_concat]
      simp only [List.mem_eraseDups]

theorem stops_ofReaches (layer : Layer) (reaches : List Reach) : (ofReaches layer reaches).stops =
    (reaches.filterMap fun reach => layer.stopIndex? reach.stopId).eraseDups := by
  have stop : (fun reach => (ofReach? layer reach).map StreetLeg.stop) =
      fun reach => layer.stopIndex? reach.stopId := by
    funext reach
    rw [ofReach?, Option.map_map]
    exact congrFun Option.map_id _
  rw [ofReaches, stops_ofLegs fun leg => stop_lt_of_mem_filterMap, List.map_filterMap, stop]

theorem mem_ofReaches_append {more : List Reach} {leg : StreetLeg}
    (new : ∀ reach ∈ more, reach.stopId ∉ reaches.map Reach.stopId)
    (member : leg ∈ (ofReaches layer reaches).legs) :
    leg ∈ (ofReaches layer (reaches ++ more)).legs := by
  obtain ⟨reach, asked, made⟩ := exists_reach_of_mem_ofReaches member
  rw [ofReaches, ofLegs, List.filterMap_append, List.foldl_append]
  refine List.foldlRecOn (motive := fun s => leg ∈ s.legs) _ add member fun s stays added among => ?_
  obtain ⟨other, asks, gives⟩ := List.mem_filterMap.1 among
  refine mem_add_of_ne stays fun same => new other asks ?_
  exact List.mem_map.2 ⟨reach, asked, stopId_eq_of_ofReach? made gives same⟩

theorem ofReaches_congr {other : Layer} (same : other.stops = layer.stops) (reaches : List Reach) :
    ofReaches other reaches = ofReaches layer reaches := by
  have each : ofReach? other = ofReach? layer := by
    funext reach
    simp only [ofReach?, Layer.stopIndex?, same]
  rw [ofReaches, ofReaches, each, Layer.nbOfStops, Layer.nbOfStops, same]

theorem foldl_add_of_nodup {s : StreetLegs} {legs : List StreetLeg}
    (inside : ∀ leg ∈ legs, leg.stop < s.legAtStop.size) (h : (s.stops ++ legs.map StreetLeg.stop).Nodup) :
    (legs.foldl add s).legs.toList = s.legs.toList ++ legs := by
  induction legs generalizing s with
  | nil => rw [List.foldl_nil, List.append_nil]
  | cons leg rest ih =>
      have new : leg.stop ∉ s.stops := fun old =>
        (List.nodup_append.1 h).2.2 _ old _ List.mem_cons_self rfl
      have added : (s.add leg).legs = s.legs.push leg := by
        rcases add_cases s leg with ⟨outside, -⟩ | ⟨-, -, added⟩ | ⟨index, found, -⟩
        · exact absurd (inside leg List.mem_cons_self) (Nat.not_lt.2 outside)
        · exact added
        · exact absurd (exists_indexAt?_iff.1 ⟨index, found⟩) new
      rw [List.foldl_cons, ih]
      · simp [added]
      · simpa using fun other member => inside other (List.mem_cons_of_mem _ member)
      · simpa [stops, added] using h

theorem legs_ofReaches (distinct : (reaches.map Reach.stopId).Nodup) :
    (ofReaches layer reaches).legs.toList = reaches.filterMap (ofReach? layer) := by
  rw [ofReaches, ofLegs, foldl_add_of_nodup]
  · rfl
  · intro leg member
    exact Nat.lt_of_lt_of_eq (stop_lt_of_mem_filterMap member) Array.size_replicate.symm
  · refine List.pairwise_map.2 ?_
    refine List.Pairwise.filterMap _ ?_ (List.pairwise_map.1 distinct)
    intro first second different leg made other madeToo same
    exact different (stopId_eq_of_ofReach? made madeToo same)

theorem legs_perm_ofReaches (layer : Layer) {others : List Reach}
    (distinct : (reaches.map Reach.stopId).Nodup) (perm : others.Perm reaches) :
    (ofReaches layer others).legs.toList.Perm (ofReaches layer reaches).legs.toList := by
  rw [legs_ofReaches distinct, legs_ofReaches ((perm.map Reach.stopId).nodup_iff.2 distinct)]
  exact perm.filterMap _

end JourneyPlanner.StreetLegs
