import JourneyPlanner.Proofs.Timetable.InRange

/-!
The trip to board and its times, with each lookup checked: a lookup outside of its array ends the
computation. On a line whose indices are in range none does, and the checked computation gives what
the other one gives, so no default of a lookup is ever taken.
-/

namespace JourneyPlanner

namespace Checked

section

variable {α β σ : Type}

/-- The elements that pass a test which looks something up. -/
def filter (keep : α → Option Bool) (l : List α) : Option (List α) := do
  let tested ← l.mapM fun a => do return (a, ← keep a)
  return (tested.filter (·.2)).map (·.1)

/-- The results for those elements that have one, where looking for it looks something up. -/
def filterMap (f : α → Option (Option β)) (l : List α) : Option (List β) := do
  return (← l.mapM f).filterMap id

theorem mapM_eq {f : α → Option β} {g : α → β} {l : List α} (h : ∀ a ∈ l, f a = some (g a)) :
    l.mapM f = some (l.map g) := by
  induction l with
  | nil => rfl
  | cons a rest ih =>
      obtain ⟨first, others⟩ := List.forall_mem_cons.1 h
      rw [List.mapM_cons, first, ih others]
      rfl

theorem filter_eq {keep : α → Option Bool} {p : α → Bool} {l : List α}
    (h : ∀ a ∈ l, keep a = some (p a)) : filter keep l = some (l.filter p) := by
  have tested : (l.mapM fun a => do return (a, ← keep a)) = some (l.map fun a => (a, p a)) :=
    mapM_eq fun a member => by rw [h a member]; rfl
  rw [filter, tested]
  simp [List.filter_map, Function.comp_def]

theorem filterMap_eq {f : α → Option (Option β)} {g : α → Option β} {l : List α}
    (h : ∀ a ∈ l, f a = some (g a)) : filterMap f l = some (l.filterMap g) := by
  rw [filterMap, mapM_eq h]
  simp [List.filterMap_map]

theorem foldlM_eq {f : σ → α → Option σ} {g : σ → α → σ} {P : σ → Prop} {s : σ} {l : List α}
    (start : P s) (step : ∀ a ∈ l, ∀ t, P t → f t a = some (g t a) ∧ P (g t a)) :
    l.foldlM f s = some (l.foldl g s) := by
  induction l generalizing s with
  | nil => rfl
  | cons a rest ih =>
      obtain ⟨first, kept⟩ := step a List.mem_cons_self s start
      rw [List.foldlM_cons, first, List.foldl_cons]
      exact ih kept fun b among => step b (List.mem_cons_of_mem _ among)

end

/-- The event of a schedule at a position. -/
def event (l : Line) (schedule position : Nat) : Option StopEvent := do
  (← l.pattern.schedules[schedule]?).events[position]?

def departureAt (l : Line) (position schedule : Nat) : Option Nat := do
  return (← event l schedule position).departure.seconds

def boardTime (l : Line) (trip : TripOnDay) (position : Nat) : Option SearchTime := do
  let day ← l.days[trip.day]?
  return .ofServiceDay day.offset (← event l trip.schedule position).departure

def debarkTime (l : Line) (trip : TripOnDay) (position : Nat) : Option SearchTime := do
  let day ← l.days[trip.day]?
  return .ofServiceDay day.offset (← event l trip.schedule position).arrival

def partitionPoint (a : Array Nat) (holds : Nat → Option Bool) (low high : Nat) : Option Nat :=
  if low < high then do
    let middle := (low + high) / 2
    if ← holds (← a[middle]?) then partitionPoint a holds (middle + 1) high
    else partitionPoint a holds low middle
  else some low
termination_by high - low

def firstMinimum? (key : Nat → Option Nat) : List Nat → Option (Option Nat)
  | [] => some none
  | x :: rest => do
      return some (← rest.foldlM (fun best y => do
        return if (← key y) < (← key best) then y else best) x)

def earliestOnDay (l : Line) (day : ServiceDay) (waiting : SearchTime) (position : Nat) :
    Option (Option Nat) := do
  let target := clampWord (waiting.seconds - day.offset)
  if l.pattern.fifo then
    let first ← partitionPoint day.schedules (fun schedule => do
      return ((← departureAt l position schedule) : Int) < target) 0 day.schedules.size
    return day.schedules[first]?
  else
    firstMinimum? (departureAt l position) (← filter (fun schedule => do
      return target ≤ ((← departureAt l position schedule) : Int)) day.schedules.toList)

def earliestTrip (l : Line) (waiting : SearchTime) (position : Nat) :
    Option (Option (TripOnDay × SearchTime)) :=
  l.days.toList.zipIdx.foldlM (fun best (day, index) => do
    match ← earliestOnDay l day waiting position with
    | none => return best
    | some schedule =>
        let trip : TripOnDay := ⟨index, schedule⟩
        let time ← boardTime l trip position
        match best with
        | none => return some (trip, time)
        | some (_, earliest) => return if time < earliest then some (trip, time) else best) none

section

variable {l : Line} {layer : Layer} {position : Nat}

theorem event_eq (inRange : l.InRange layer) {schedule : Nat}
    (known : schedule < l.pattern.schedules.size) (inside : position < l.nbOfPositions) :
    event l schedule position =
      some ⟨(l.pattern.schedule schedule).arrival position,
        (l.pattern.schedule schedule).departure position⟩ := by
  have size := inRange.events _ (Array.getElem_mem known)
  have inEvents : position < l.pattern.schedules[schedule].events.size := size ▸ inside
  have same : l.pattern.schedule schedule = l.pattern.schedules[schedule] := by
    simp [TripPattern.schedule, known]
  rw [event, Array.getElem?_eq_getElem known, same]
  simp [Schedule.arrival, Schedule.departure, inEvents]

theorem departureAt_eq (inRange : l.InRange layer) {schedule : Nat}
    (known : schedule < l.pattern.schedules.size) (inside : position < l.nbOfPositions) :
    departureAt l position schedule = some (l.departureAt position schedule) := by
  rw [departureAt, event_eq inRange known inside]
  rfl

theorem boardTime_eq (inRange : l.InRange layer) {trip : TripOnDay} (day : trip.day < l.days.size)
    (known : trip.schedule < l.pattern.schedules.size) (inside : position < l.nbOfPositions) :
    boardTime l trip position = some (l.boardTime trip position) := by
  rw [boardTime, Line.getElem?_days day, event_eq inRange known inside]
  rfl

theorem debarkTime_eq (inRange : l.InRange layer) {trip : TripOnDay} (day : trip.day < l.days.size)
    (known : trip.schedule < l.pattern.schedules.size) (inside : position < l.nbOfPositions) :
    debarkTime l trip position = some (l.debarkTime trip position) := by
  rw [debarkTime, Line.getElem?_days day, event_eq inRange known inside]
  rfl

theorem partitionPoint_of_lt {a : Array Nat} {test : Nat → Option Bool} {holds : Nat → Bool}
    (tests : ∀ x ∈ a, test x = some (holds x)) {low high : Nat} (less : low < high)
    (within : high ≤ a.size) :
    partitionPoint a test low high =
      if holds (a.getD ((low + high) / 2) 0) then partitionPoint a test ((low + high) / 2 + 1) high
      else partitionPoint a test low ((low + high) / 2) := by
  have inside : (low + high) / 2 < a.size := by omega
  have look : a[(low + high) / 2]? = some (a.getD ((low + high) / 2) 0) := by simp [inside]
  rw [partitionPoint, if_pos less]
  simp only [look, tests _ (Array.mem_of_getElem? look), Option.bind_eq_bind, Option.bind_some]

theorem partitionPoint_eq {a : Array Nat} {test : Nat → Option Bool} {holds : Nat → Bool}
    (tests : ∀ x ∈ a, test x = some (holds x)) {low high : Nat} (within : high ≤ a.size) :
    partitionPoint a test low high = some (JourneyPlanner.partitionPoint a holds low high) := by
  induction low, high using JourneyPlanner.partitionPoint.induct a holds with
  | case1 low high less middle passes ih =>
      rw [partitionPoint_of_lt tests less within, JourneyPlanner.partitionPoint, if_pos less]
      exact (if_pos passes).trans ((ih within).trans (congrArg some (if_pos passes).symm))
  | case2 low high less middle fails ih =>
      rw [partitionPoint_of_lt tests less within, JourneyPlanner.partitionPoint, if_pos less]
      exact (if_neg fails).trans ((ih (by omega)).trans (congrArg some (if_neg fails).symm))
  | case3 low high done =>
      rw [partitionPoint, JourneyPlanner.partitionPoint, if_neg done, if_neg done]

theorem firstMinimum?_eq {look : Nat → Option Nat} {key : Nat → Nat} {schedules : List Nat}
    (looks : ∀ x ∈ schedules, look x = some (key x)) :
    firstMinimum? look schedules = some (JourneyPlanner.firstMinimum? key schedules) := by
  cases schedules with
  | nil => rfl
  | cons x rest =>
      have fold : rest.foldlM (fun best y => do
            return if (← look y) < (← look best) then y else best) x =
          some (rest.foldl (fun best y => if key y < key best then y else best) x) := by
        refine foldlM_eq (P := (· ∈ x :: rest)) List.mem_cons_self fun y among best member => ?_
        rw [looks y (List.mem_cons_of_mem _ among), looks best member]
        refine ⟨rfl, ?_⟩
        split
        · exact List.mem_cons_of_mem _ among
        · exact member
      rw [firstMinimum?, fold]
      rfl

theorem earliestOnDay_eq (inRange : l.InRange layer) {day : ServiceDay} (member : day ∈ l.days)
    (waiting : SearchTime) (inside : position < l.nbOfPositions) :
    earliestOnDay l day waiting position = some (l.earliestOnDay day waiting position) := by
  have departs : ∀ schedule ∈ day.schedules,
      departureAt l position schedule = some (l.departureAt position schedule) :=
    fun schedule listed => departureAt_eq inRange (inRange.schedules day member _ listed) inside
  rw [earliestOnDay, Line.earliestOnDay]
  split
  · next fifo =>
      have first : partitionPoint day.schedules (fun schedule => do
            return ((← departureAt l position schedule) : Int) <
              clampWord (waiting.seconds - day.offset)) 0 day.schedules.size =
          some (JourneyPlanner.partitionPoint day.schedules (fun schedule =>
            (l.departureAt position schedule : Int) < clampWord (waiting.seconds - day.offset)) 0
            day.schedules.size) :=
        partitionPoint_eq (fun schedule listed => by rw [departs schedule listed]; rfl)
          (Nat.le_refl _)
      rw [first]
      rfl
  · next overtaking =>
      have late : filter (fun schedule => do
            return clampWord (waiting.seconds - day.offset) ≤
              ((← departureAt l position schedule) : Int)) day.schedules.toList =
          some (day.schedules.toList.filter fun schedule =>
            clampWord (waiting.seconds - day.offset) ≤ (l.departureAt position schedule : Int)) :=
        filter_eq fun schedule listed => by
          rw [departs schedule (Array.mem_toList_iff.1 listed)]; rfl
      rw [late]
      refine firstMinimum?_eq fun schedule listed => departs schedule ?_
      exact Array.mem_toList_iff.1 (List.mem_filter.1 listed).1

theorem earliestTrip_eq (inRange : l.InRange layer) (waiting : SearchTime)
    (inside : position < l.nbOfPositions) :
    earliestTrip l waiting position = some (l.earliestTrip waiting position) := by
  refine foldlM_eq (P := fun _ => True) trivial fun entry member best _ => ⟨?_, trivial⟩
  have listed : l.days[entry.2]? = some entry.1 := by
    simpa using List.mem_zipIdx_iff_getElem?.1 member
  have known := Array.mem_of_getElem? listed
  simp only [earliestOnDay_eq inRange known waiting inside, Option.bind_eq_bind, Option.bind_some]
  cases onDay : l.earliestOnDay entry.1 waiting position with
  | none => rfl
  | some schedule =>
      have among := inRange.schedules _ known _ (Line.earliestOnDay_spec onDay).1
      have time : boardTime l ⟨entry.2, schedule⟩ position =
          some (l.boardTime ⟨entry.2, schedule⟩ position) :=
        boardTime_eq inRange (Array.getElem?_eq_some_iff.1 listed).1 among inside
      simp only [time, Option.bind_some]
      cases best <;> rfl

end

end Checked

end JourneyPlanner
