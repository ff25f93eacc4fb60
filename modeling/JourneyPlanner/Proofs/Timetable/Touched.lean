import JourneyPlanner.Proofs.Filtering
import JourneyPlanner.Proofs.Timetable.Trips
import JourneyPlanner.Timetable.Touched
import Mathlib.Data.List.Induction
import Mathlib.Order.Bounds.Basic

/-!
The lines that were touched are kept in two tables, the slots and the list of the lines, and these
agree: the slots of the lines listed are filled and no others are. After some places were recorded the
lines are listed in the order in which they come first, each slot has the smallest position of its
line, and a drain gives just that and empties all slots. So a line that can be boarded at some stops
is among the lines touched there, with a first position that is not behind the place where it can be
boarded; no line is touched twice, and only lines of the timetable are.
-/

namespace JourneyPlanner

namespace TouchedLines

variable {t : TouchedLines} {places : List (LineIndex × Nat)} {line other : LineIndex}
  {position least : Nat} {slot : Option Nat} {first : LineIndex → Option Nat}

/-- The positions of a line among some places. -/
def positionsOf (places : List (LineIndex × Nat)) (line : LineIndex) : Set Nat :=
  {position | (line, position) ∈ places}

/-- The tables hold some places: the lines in the order in which they come first, and in the slots of
these lines and of no others the smallest position. -/
structure Holds (t : TouchedLines) (places : List (LineIndex × Nat)) : Prop where
  lines : t.lines = (places.map (·.1)).eraseDups
  filled : ∀ line, (t.first line).isSome = true ↔ line ∈ t.lines
  least : ∀ line position, t.first line = some position → IsLeast (positionsOf places line) position

@[simp] theorem setSlot_self : setSlot first line slot line = slot :=
  if_pos rfl

theorem setSlot_of_ne (differs : other ≠ line) : setSlot first line slot other = first other :=
  if_neg differs

theorem insert_of_some (filled : t.first line = some least) :
    t.insert line position = ⟨setSlot t.first line (some (min position least)), t.lines⟩ := by
  simp only [insert, filled]
  split
  · next lower => rw [Nat.min_eq_left (Nat.le_of_lt lower)]
  · next notLower =>
      have same : setSlot t.first line (some (min position least)) = t.first := by
        funext other
        by_cases here : other = line
        · rw [here, setSlot_self, Nat.min_eq_right (Nat.le_of_not_lt notLower), filled]
        · rw [setSlot_of_ne here]
      rw [same]

theorem insert_of_none (vacant : t.first line = none) :
    t.insert line position = ⟨setSlot t.first line (some position), t.lines ++ [line]⟩ := by
  rw [insert, vacant]

theorem positionsOf_concat_self :
    positionsOf (places ++ [(line, position)]) line = Insert.insert position (positionsOf places line) := by
  ext other
  simp [positionsOf, or_comm]

theorem positionsOf_concat_of_ne (differs : other ≠ line) :
    positionsOf (places ++ [(line, position)]) other = positionsOf places other := by
  ext place
  simp [positionsOf, differs]

theorem holds_empty : empty.Holds [] :=
  ⟨rfl, fun _ => by simp [empty], fun _ _ none => by cases none⟩

namespace Holds

theorem mem_lines (h : t.Holds places) : line ∈ t.lines ↔ line ∈ places.map (·.1) := by
  rw [h.lines, List.mem_eraseDups]

theorem mem_lines_iff_filled (h : t.Holds places) :
    line ∈ t.lines ↔ ∃ position, t.first line = some position := by
  rw [← h.filled, Option.isSome_iff_exists]

theorem first_eq_none_iff (h : t.Holds places) : t.first line = none ↔ line ∉ t.lines := by
  rw [← h.filled, Option.not_isSome_iff_eq_none]

theorem first_eq_some_iff (h : t.Holds places) :
    t.first line = some position ↔ IsLeast (positionsOf places line) position := by
  refine ⟨h.least line position, fun least => ?_⟩
  have listed : line ∈ t.lines := h.mem_lines.2 (List.mem_map_of_mem least.1)
  obtain ⟨found, slot⟩ := h.mem_lines_iff_filled.1 listed
  rw [slot, (h.least line found slot).unique least]

theorem concat (h : t.Holds places)
    (isLeast : IsLeast (Insert.insert position (positionsOf places line)) least)
    {lines : List LineIndex}
    (listed : lines = if line ∈ t.lines then t.lines else t.lines ++ [line]) :
    Holds ⟨setSlot t.first line (some least), lines⟩ (places ++ [(line, position)]) := by
  have mem_lines (other : LineIndex) : other ∈ lines ↔ other = line ∨ other ∈ t.lines := by
    rw [listed]
    split
    · next old => exact ⟨.inr, fun either => either.elim (fun here => here ▸ old) id⟩
    · rw [List.mem_append, List.mem_singleton, or_comm]
  refine ⟨?_, fun other => ?_, fun other found slot => ?_⟩
  · simp only [listed, h.lines, List.mem_eraseDups, List.map_append, List.map_cons, List.map_nil,
      eraseDups_concat]
  · by_cases here : other = line
    · simp [mem_lines, here]
    · simp [mem_lines, setSlot_of_ne here, here, h.filled]
  · by_cases here : other = line
    · subst here
      obtain rfl : least = found := by simpa using slot
      rwa [positionsOf_concat_self]
    · rw [positionsOf_concat_of_ne here]
      exact h.least other found ((setSlot_of_ne here).symm.trans slot)

theorem insert (h : t.Holds places) (line : LineIndex) (position : Nat) :
    (t.insert line position).Holds (places ++ [(line, position)]) := by
  cases slot : t.first line with
  | none =>
      have new : line ∉ t.lines := h.first_eq_none_iff.1 slot
      have nothing : positionsOf places line = ∅ := by
        refine Set.eq_empty_of_forall_notMem fun position member => new ?_
        exact h.mem_lines.2 (List.mem_map_of_mem member)
      have isLeast : IsLeast (Insert.insert position (positionsOf places line)) position := by
        rw [nothing, insert_empty_eq]
        exact isLeast_singleton
      rw [insert_of_none slot]
      exact h.concat isLeast (if_neg new).symm
  | some first =>
      have old : line ∈ t.lines := h.mem_lines_iff_filled.2 ⟨_, slot⟩
      rw [insert_of_some slot]
      exact h.concat ((h.least line first slot).insert position) (if_pos old).symm

end Holds

theorem holds_foldl_insert (places : List (LineIndex × Nat)) :
    (places.foldl (fun touched (line, position) => touched.insert line position) empty).Holds
      places := by
  induction places using List.reverseRecOn with
  | nil => exact holds_empty
  | append_singleton places place ih =>
      rw [List.foldl_append]
      exact ih.insert place.1 place.2

theorem foldl_setSlot (lines : List LineIndex) (first : LineIndex → Option Nat) :
    lines.foldl (fun first line => setSlot first line none) first =
      fun line => if line ∈ lines then none else first line := by
  induction lines generalizing first with
  | nil => simp
  | cons head rest ih =>
      rw [List.foldl_cons, ih]
      funext line
      simp only [List.mem_cons, setSlot]
      grind

theorem takeSlots_eq {lines : List LineIndex} (distinct : lines.Nodup)
    (first : LineIndex → Option Nat) : takeSlots lines first =
      (lines.filterMap fun line => (first line).map fun position => (line, position),
        lines.foldl (fun first line => setSlot first line none) first) := by
  induction lines generalizing first with
  | nil => rfl
  | cons head rest ih =>
      obtain ⟨new, distinct⟩ := List.nodup_cons.1 distinct
      have others : (rest.filterMap fun line => (setSlot first head none line).map fun position =>
          (line, position)) = rest.filterMap fun line => (first line).map fun position =>
            (line, position) := by
        refine List.filterMap_congr fun line member => ?_
        rw [setSlot_of_ne (ne_of_mem_of_not_mem member new)]
      rw [takeSlots, ih distinct, others, List.filterMap_cons]
      cases first head <;> rfl

namespace Holds

theorem clear_eq (h : t.Holds places) : t.clear = empty := by
  have vacant : (fun line => if line ∈ t.lines then none else t.first line) = fun _ => none := by
    funext line
    by_cases listed : line ∈ t.lines
    · rw [if_pos listed]
    · rw [if_neg listed, h.first_eq_none_iff.2 listed]
  rw [clear, foldl_setSlot, vacant]
  rfl

theorem drain_eq (h : t.Holds places) : t.drain =
    (t.lines.filterMap fun line => (t.first line).map fun position => (line, position), empty) := by
  have distinct : t.lines.Nodup := h.lines ▸ nodup_eraseDups _
  rw [drain, takeSlots_eq distinct, ← h.clear_eq]
  rfl

theorem mem_entries (h : t.Holds places) :
    (line, position) ∈ t.entries ↔ IsLeast (positionsOf places line) position := by
  rw [← h.first_eq_some_iff, entries, h.drain_eq, List.mem_filterMap]
  constructor
  · rintro ⟨other, -, taken⟩
    obtain ⟨found, slot, equal⟩ := Option.map_eq_some_iff.1 taken
    cases equal
    exact slot
  · intro slot
    have listed : line ∈ t.lines := h.mem_lines_iff_filled.2 ⟨_, slot⟩
    exact ⟨line, listed, by rw [slot, Option.map_some]⟩

theorem exists_mem_entries (h : t.Holds places) (member : (line, position) ∈ places) :
    ∃ first ≤ position, (line, first) ∈ t.entries := by
  have listed : line ∈ t.lines := h.mem_lines.2 (List.mem_map_of_mem member)
  obtain ⟨first, slot⟩ := h.mem_lines_iff_filled.1 listed
  have least := h.least line first slot
  exact ⟨first, least.2 member, h.mem_entries.2 least⟩

theorem map_entries (h : t.Holds places) :
    t.entries.map (·.1) = (places.map (·.1)).eraseDups := by
  rw [← h.lines, entries, h.drain_eq, List.map_filterMap]
  refine (List.filterMap_congr fun line listed => ?_).trans List.filterMap_some
  obtain ⟨position, slot⟩ := h.mem_lines_iff_filled.1 listed
  rw [slot]
  rfl

end Holds

end TouchedLines

namespace Timetable

variable {t : Timetable} {stops : List StopIndex} {stop : StopIndex} {line : LineIndex}
  {position : Nat}

theorem holds_touch (t : Timetable) (stops : List StopIndex) :
    (t.touch stops .empty).Holds (stops.flatMap t.boardableAt) :=
  TouchedLines.holds_foldl_insert _

theorem nodup_touch (t : Timetable) (stops : List StopIndex) :
    ((t.touch stops .empty).entries.map (·.1)).Nodup := by
  rw [(t.holds_touch stops).map_entries]
  exact nodup_eraseDups _

theorem lt_nbOfLines_of_mem_touch {entry : LineIndex × Nat}
    (h : entry ∈ (t.touch stops .empty).entries) : entry.1 < t.nbOfLines := by
  obtain ⟨stop, -, listed⟩ := List.mem_flatMap.1 ((t.holds_touch stops).mem_entries.1 h).1
  exact lt_nbOfLines (of_decide_eq_true (List.mem_filter.1 listed).2)

theorem exists_mem_touch (member : stop ∈ stops) (place : (line, position) ∈ t.linesAt stop)
    (notLast : position + 1 < (t.line line).nbOfPositions) :
    ∃ first ≤ position, (line, first) ∈ (t.touch stops .empty).entries :=
  (t.holds_touch stops).exists_mem_entries <|
    List.mem_flatMap.2 ⟨stop, member, List.mem_filter.2 ⟨place, decide_eq_true notLast⟩⟩

end Timetable

end JourneyPlanner
