import JourneyPlanner.Network.Basic
import Mathlib.Data.List.Nodup

/-!
However a network is put together, its identifiers are unique, each in its own kind: an element is
refused when there is one of its identifier, and a new trip leaves the identifiers alone.
-/

namespace JourneyPlanner.Network

/-- The networks that the additions make. -/
inductive IsPutTogether : Network → Prop
  | empty : IsPutTogether .empty
  | stop {n m : Network} {stop : Stop} (before : IsPutTogether n) (added : n.addStop stop = .ok m) :
      IsPutTogether m
  | route {n m : Network} {route : Route} (before : IsPutTogether n)
      (added : n.addRoute route = .ok m) : IsPutTogether m
  | service {n m : Network} {service : Service} (before : IsPutTogether n)
      (added : n.addService service = .ok m) : IsPutTogether m
  | pattern {n m : Network} {pattern : StopPattern} (before : IsPutTogether n)
      (added : n.addPattern pattern = .ok m) : IsPutTogether m
  | trip {n m : Network} {patternId : String} {trip : Trip} (before : IsPutTogether n)
      (added : n.addTrip patternId trip = .ok m) : IsPutTogether m
  | connection {n : Network} (connection : Connection) (before : IsPutTogether n) :
      IsPutTogether (n.addConnection connection)

theorem nodup_push {α : Type} {id : α → String} {a : Array α} {x : α}
    (distinct : (a.toList.map id).Nodup) (new : ¬a.any (fun y => id y == id x) = true) :
    ((a.push x).toList.map id).Nodup := by
  have apart : id x ∉ a.toList.map id := by
    intro member
    obtain ⟨y, among, same⟩ := List.mem_map.1 member
    exact new (Array.any_eq_true'.2 ⟨y, Array.mem_toList_iff.1 among, beq_iff_eq.2 same⟩)
  rw [Array.toList_push, List.map_append, List.map_singleton, List.nodup_append]
  refine ⟨distinct, List.nodup_singleton _, fun y member z last => ?_⟩
  rw [List.mem_singleton.1 last]
  exact ne_of_mem_of_not_mem member apart

theorem map_modify_id {α : Type} {id : α → String} (a : Array α) (index : Nat) {f : α → α}
    (same : ∀ x, id (f x) = id x) : (a.modify index f).toList.map id = a.toList.map id := by
  refine List.ext_getElem? fun j => ?_
  rw [Array.toList_modify, List.getElem?_map, List.getElem?_map, List.getElem?_modify]
  cases a.toList[j]? with
  | none => rfl
  | some x =>
      by_cases changed : index = j
      · simp [changed, same]
      · simp [changed]

namespace IsPutTogether

theorem hasUniqueIds {n : Network} (h : n.IsPutTogether) : n.HasUniqueIds := by
  induction h with
  | empty => exact ⟨List.nodup_nil, List.nodup_nil, List.nodup_nil, List.nodup_nil⟩
  | stop _ added ih =>
      rw [addStop] at added
      split at added
      · cases added
      · next new =>
          cases added
          exact ⟨nodup_push ih.1 new, ih.2⟩
  | route _ added ih =>
      rw [addRoute] at added
      split at added
      · cases added
      · next new =>
          cases added
          exact ⟨ih.1, nodup_push ih.2.1 new, ih.2.2⟩
  | service _ added ih =>
      rw [addService] at added
      split at added
      · cases added
      · next new =>
          cases added
          exact ⟨ih.1, ih.2.1, nodup_push ih.2.2.1 new, ih.2.2.2⟩
  | pattern _ added ih =>
      rw [addPattern] at added
      split at added
      · cases added
      · next new =>
          cases added
          exact ⟨ih.1, ih.2.1, ih.2.2.1, nodup_push ih.2.2.2 new⟩
  | trip _ added ih =>
      rw [addTrip] at added
      split at added
      · cases added
      · split at added
        · cases added
        · cases added
          refine ⟨ih.1, ih.2.1, ih.2.2.1, ?_⟩
          rw [map_modify_id]
          · exact ih.2.2.2
          · exact fun _ => rfl
  | connection _ _ ih => exact ih

end IsPutTogether

end JourneyPlanner.Network
