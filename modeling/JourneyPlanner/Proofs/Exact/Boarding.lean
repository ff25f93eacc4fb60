import JourneyPlanner.Proofs.Checked.Timetable
import JourneyPlanner.Proofs.Exact.Time

/-!
The times of a line and the trip to board, with each time summed in the integers. On a line whose
days are among those that one search may scan, for somebody who waits near the start of the search
day, they are what they are with sums of 32 bits.
-/

namespace JourneyPlanner

/-- The days of a line are days that a search scans. -/
def Line.IsScanned (l : Line) : Prop :=
  ∀ index, Exact.IsScanned (l.day index).offset

theorem Line.isScanned_of_days {l : Line}
    (scanned : ∀ index < l.days.size, Exact.IsScanned (l.day index).offset) : l.IsScanned := by
  intro index
  by_cases inside : index < l.days.size
  · exact scanned index inside
  · rw [Line.day, Array.getD_eq_getD_getElem?, Array.getElem?_eq_none (Nat.not_lt.1 inside)]
    exact ⟨by decide, by decide⟩

namespace Exact

def boardTime (l : Line) (trip : TripOnDay) (position : Nat) : Option SearchTime :=
  ofServiceDay (l.day trip.day).offset ((l.schedule trip).departure position)

def debarkTime (l : Line) (trip : TripOnDay) (position : Nat) : Option SearchTime :=
  ofServiceDay (l.day trip.day).offset ((l.schedule trip).arrival position)

def earliestOnDay (l : Line) (day : ServiceDay) (waiting : SearchTime) (position : Nat) :
    Option (Option Nat) := do
  let target ← seconds? (waiting.seconds - day.offset)
  if l.pattern.fifo then
    return day.schedules[partitionPoint day.schedules
      (fun schedule => (l.departureAt position schedule : Int) < target) 0 day.schedules.size]?
  else
    return firstMinimum? (l.departureAt position) (day.schedules.toList.filter fun schedule =>
      target ≤ (l.departureAt position schedule : Int))

def earliestTrip (l : Line) (waiting : SearchTime) (position : Nat) :
    Option (Option (TripOnDay × SearchTime)) :=
  l.days.toList.zipIdx.foldlM (fun best (day, index) => do
    match ← earliestOnDay l day waiting position with
    | none => return best
    | some schedule =>
        let trip : TripOnDay := ⟨index, schedule⟩
        let time ← boardTime l trip position
        match best with
        | none => return some (trip, time)
        | some (_, earliest) => return if time < earliest then some (trip, time) else best) none

variable {l : Line}

theorem boardTime_eq (scanned : l.IsScanned) (trip : TripOnDay) (position : Nat) :
    boardTime l trip position = some (l.boardTime trip position) :=
  ofServiceDay_eq (scanned trip.day) _

theorem debarkTime_eq (scanned : l.IsScanned) (trip : TripOnDay) (position : Nat) :
    debarkTime l trip position = some (l.debarkTime trip position) :=
  ofServiceDay_eq (scanned trip.day) _

theorem isNear_boardTime (scanned : l.IsScanned) (trip : TripOnDay) (position : Nat) :
    (l.boardTime trip position).IsNear :=
  isNear_ofServiceDay (scanned trip.day) _

theorem isNear_debarkTime (scanned : l.IsScanned) (trip : TripOnDay) (position : Nat) :
    (l.debarkTime trip position).IsNear :=
  isNear_ofServiceDay (scanned trip.day) _

theorem earliestOnDay_eq {day : ServiceDay} (scanned : IsScanned day.offset) {waiting : SearchTime}
    (near : waiting.IsNear) (position : Nat) :
    earliestOnDay l day waiting position = some (l.earliestOnDay day waiting position) := by
  obtain ⟨low, high⟩ := near
  obtain ⟨first, last⟩ := scanned
  have exact : clampWord (waiting.seconds - day.offset) = waiting.seconds - day.offset :=
    clampWord_of_bounds (by omega) (by omega)
  rw [earliestOnDay, seconds?_eq (by omega) (by omega), Line.earliestOnDay, exact]
  simp only [Option.bind_eq_bind, Option.bind_some]
  split <;> rfl

theorem earliestTrip_eq (scanned : l.IsScanned) {waiting : SearchTime} (near : waiting.IsNear)
    (position : Nat) :
    earliestTrip l waiting position = some (l.earliestTrip waiting position) := by
  refine Checked.foldlM_eq (P := fun _ => True) trivial fun entry member best _ => ⟨?_, trivial⟩
  have listed : l.days[entry.2]? = some entry.1 := by
    simpa using List.mem_zipIdx_iff_getElem?.1 member
  have same : l.day entry.2 = entry.1 := by
    rw [Line.day, Array.getD_eq_getD_getElem?, listed, Option.getD_some]
  have onDay := earliestOnDay_eq (l := l) (same ▸ scanned entry.2) near position
  simp only [onDay, Option.bind_eq_bind, Option.bind_some]
  cases l.earliestOnDay entry.1 waiting position with
  | none => rfl
  | some schedule =>
      simp only [boardTime_eq scanned, Option.bind_some]
      cases best <;> rfl

end Exact

end JourneyPlanner
