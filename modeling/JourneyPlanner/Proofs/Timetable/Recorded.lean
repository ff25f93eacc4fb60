import JourneyPlanner.Proofs.Timetable.InRange
import JourneyPlanner.Proofs.Timetable.Touched

/-!
Insertions, drains and clears in any order. What is held after them are the places inserted since the
last drain or clear: each line once, in the order of first insertion and with the smallest of its
positions; and nothing is left behind that would keep a line from being met again. For a timetable of
a layer these are, at some stops, the lines that visit one of them before their last position.
-/

namespace JourneyPlanner

namespace TouchedLines

inductive Operation where
  | insert (line : LineIndex) (position : Nat)
  | drain
  | clear

/-- The place that is inserted, if one is. -/
def Operation.place? : Operation → Option (LineIndex × Nat)
  | .insert line position => some (line, position)
  | .drain | .clear => none

def perform (t : TouchedLines) : Operation → TouchedLines
  | .insert line position => t.insert line position
  | .drain => t.drain.2
  | .clear => t.clear

/-- The tables after some operations, which are empty at first. -/
def run (operations : List Operation) : TouchedLines :=
  operations.foldl perform empty

/-- The places inserted since the last drain or clear, in their order. -/
def pending (operations : List Operation) : List (LineIndex × Nat) :=
  (operations.reverse.takeWhile fun operation => operation.place?.isSome).reverse.filterMap
    Operation.place?

variable {t : TouchedLines} {operations : List Operation} {places : List (LineIndex × Nat)}

theorem Holds.perform (h : t.Holds (pending operations)) (operation : Operation) :
    (t.perform operation).Holds (pending (operations ++ [operation])) := by
  cases operation with
  | insert line position =>
      have more : pending (operations ++ [.insert line position]) =
          pending operations ++ [(line, position)] := by
        simp [pending, Operation.place?]
      exact more ▸ h.insert line position
  | drain =>
      have nothing : pending (operations ++ [.drain]) = [] := by simp [pending, Operation.place?]
      rw [nothing, TouchedLines.perform, h.drain_eq]
      exact holds_empty
  | clear =>
      have nothing : pending (operations ++ [.clear]) = [] := by simp [pending, Operation.place?]
      rw [nothing, TouchedLines.perform, h.clear_eq]
      exact holds_empty

theorem holds_run (operations : List Operation) : (run operations).Holds (pending operations) := by
  induction operations using List.reverseRecOn with
  | nil => exact holds_empty
  | append_singleton operations operation ih =>
      rw [run, List.foldl_append]
      exact ih.perform operation

theorem Holds.isEmpty_iff (h : t.Holds places) : t.isEmpty = true ↔ places = [] := by
  rw [isEmpty, h.lines]
  cases places <;> simp [List.eraseDups_cons]

theorem Holds.size_eq (h : t.Holds places) : t.size = t.entries.length := by
  rw [size, h.lines, ← h.map_entries, List.length_map]

theorem drain_insert_empty (line : LineIndex) (position : Nat) :
    (empty.insert line position).drain.1 = [(line, position)] := by
  rw [insert_of_none rfl]
  simp [drain, takeSlots, empty]

end TouchedLines

namespace Timetable

variable {network : Network} {layer : Layer} {date : Date} {dayRange : Nat}
  {filters : PatternFilters} {speed : Float} {t : Timetable}

theorem mem_linesAt (built : Layer.build network = .ok layer)
    (made : build layer date dayRange filters speed = .ok t) {stop : StopIndex} {line : LineIndex}
    {position : Nat} : (line, position) ∈ t.linesAt stop ↔ line < t.nbOfLines ∧
      position < (t.line line).nbOfPositions ∧ (t.line line).stopAt position = stop := by
  have inRange := Layer.inRange_build built
  obtain ⟨-, spec⟩ := build_spec made
  by_cases known : stop < layer.nbOfStops
  · exact spec.linesAt stop known line position
  · refine iff_of_false (fun listed => ?_) fun ⟨inside, within, visit⟩ => known ?_
    · have outside : t.stopLines.size ≤ stop := by
        rw [(inRange_build made inRange).stopLines, nbOfStops, spec.layer_eq]
        exact Nat.le_of_not_lt known
      rw [linesAt, Array.getD_eq_getD_getElem?, Array.getElem?_eq_none outside] at listed
      cases listed
    · rw [← visit]
      exact ((spec.lines line inside).inRange inRange).stops _
        (Array.mem_of_getElem? (Line.getElem?_stops within))

theorem mem_positionsOf_boardableAt (built : Layer.build network = .ok layer)
    (made : build layer date dayRange filters speed = .ok t) (stops : List StopIndex)
    (line : LineIndex) (position : Nat) :
    position ∈ TouchedLines.positionsOf (stops.flatMap t.boardableAt) line ↔ line < t.nbOfLines ∧
      position + 1 < (t.line line).nbOfPositions ∧ (t.line line).stopAt position ∈ stops := by
  simp only [TouchedLines.positionsOf, Set.mem_ofPred_eq, List.mem_flatMap, boardableAt,
    List.mem_filter, mem_linesAt built made, decide_eq_true_eq]
  constructor
  · rintro ⟨stop, member, ⟨inside, -, rfl⟩, notLast⟩
    exact ⟨inside, notLast, member⟩
  · rintro ⟨inside, notLast, member⟩
    exact ⟨_, member, ⟨inside, Nat.lt_of_succ_lt notLast, rfl⟩, notLast⟩

theorem mem_entries_touch (built : Layer.build network = .ok layer)
    (made : build layer date dayRange filters speed = .ok t) (stops : List StopIndex)
    {line : LineIndex} {first : Nat} :
    (line, first) ∈ (t.touch stops .empty).entries ↔ line < t.nbOfLines ∧ IsLeast {position |
      position + 1 < (t.line line).nbOfPositions ∧ (t.line line).stopAt position ∈ stops} first := by
  rw [(t.holds_touch stops).mem_entries]
  have recorded := mem_positionsOf_boardableAt built made stops line
  constructor
  · rintro ⟨member, lower⟩
    obtain ⟨inside, here⟩ := (recorded first).1 member
    exact ⟨inside, here, fun position there => lower ((recorded position).2 ⟨inside, there⟩)⟩
  · rintro ⟨inside, here, lower⟩
    exact ⟨(recorded first).2 ⟨inside, here⟩, fun position member =>
      lower ((recorded position).1 member).2⟩

/-- The touched lines after insertions, drains and clears in any order, and those at some stops. What is
drained are the lines inserted since the last drain or clear, each once, in the order of first
insertion and with its smallest position; a drain and a clear leave nothing, and any line can be
inserted afterwards. At some stops the lines of a timetable that visit one of them before their last
position are touched, each once and with the smallest such position, and no other lines are. -/
theorem touched_exact :
    (∀ operations : List TouchedLines.Operation,
      let t := TouchedLines.run operations
      let places := TouchedLines.pending operations
      t.drain.1.map (·.1) = (places.map (·.1)).eraseDups ∧
        (∀ line first, (line, first) ∈ t.drain.1 ↔
          IsLeast {position | (line, position) ∈ places} first) ∧
        t.size = t.drain.1.length ∧ (t.isEmpty = true ↔ places = []) ∧
        t.drain.2 = .empty ∧ t.clear = .empty ∧
        ∀ line position, (t.drain.2.insert line position).drain.1 = [(line, position)] ∧
          (t.clear.insert line position).drain.1 = [(line, position)]) ∧
    ∀ (network : Network) (layer : Layer) (date : Date) (dayRange : Nat) (filters : PatternFilters)
      (speed : Float) (t : Timetable), Layer.build network = .ok layer →
        build layer date dayRange filters speed = .ok t → ∀ stops : List StopIndex,
          let drained := (t.touch stops .empty).drain.1
          (drained.map (·.1)).Nodup ∧ ∀ line first, (line, first) ∈ drained ↔
            line < t.nbOfLines ∧ IsLeast {position |
              position + 1 < (t.line line).nbOfPositions ∧ (t.line line).stopAt position ∈ stops}
                first := by
  refine ⟨fun operations => ?_, fun network layer date dayRange filters speed t built made stops =>
    ⟨t.nodup_touch stops, fun line first => mem_entries_touch built made stops⟩⟩
  have holds := TouchedLines.holds_run operations
  have drained : (TouchedLines.run operations).drain.2 = .empty := by rw [holds.drain_eq]
  refine ⟨holds.map_entries, fun line first => holds.mem_entries, holds.size_eq, holds.isEmpty_iff,
    drained, holds.clear_eq, fun line position => ?_⟩
  rw [drained, holds.clear_eq]
  exact ⟨TouchedLines.drain_insert_empty line position, TouchedLines.drain_insert_empty line position⟩

theorem touched_exact_relay : ∃ layer t, Layer.build .relay = .ok layer ∧
    build layer ⟨100⟩ 3 {} 1 = .ok t ∧ (0, 0) ∈ (t.touch [3, 0, 0] .empty).drain.1 ∧
      (2, 0) ∈ (t.touch [3, 0, 0] .empty).drain.1 ∧
        ∀ position, (1, position) ∉ (t.touch [3, 0, 0] .empty).drain.1 := by
  have found : (Layer.build .relay).toOption.any (fun layer =>
      (build layer ⟨100⟩ 3 {} 1).toOption.any fun t =>
        decide (2 < t.nbOfLines ∧ (t.line 0).nbOfPositions = 2 ∧ (t.line 0).stopAt 0 = 0 ∧
          (t.line 1).nbOfPositions = 2 ∧ (t.line 1).stopAt 0 = 2 ∧
            (t.line 2).nbOfPositions = 2 ∧ (t.line 2).stopAt 0 = 0)) = true := by
    decide +kernel
  obtain ⟨layer, built, found⟩ := exists_ok_of_any found
  obtain ⟨t, made, found⟩ := exists_ok_of_any found
  obtain ⟨lines, positions, start, middle, change, positionsToo, startToo⟩ := of_decide_eq_true found
  have touched := (touched_exact.2 _ _ _ _ _ _ t built made [3, 0, 0]).2
  refine ⟨layer, t, built, made, (touched 0 0).2 ⟨Nat.zero_lt_of_lt lines, ⟨?_, ?_⟩, fun _ _ => Nat.zero_le _⟩,
    (touched 2 0).2 ⟨lines, ⟨?_, ?_⟩, fun _ _ => Nat.zero_le _⟩, fun position member => ?_⟩
  · rw [positions]
    decide
  · rw [start]
    decide
  · rw [positionsToo]
    decide
  · rw [startToo]
    decide
  · obtain ⟨-, ⟨notLast, visited⟩, -⟩ := (touched 1 position).1 member
    rw [middle] at notLast
    obtain rfl : position = 0 := by omega
    rw [change] at visited
    revert visited
    decide

end Timetable

end JourneyPlanner
