import JourneyPlanner.Timetable.Basic

/-!
The trip that is boarded at a position runs on one of the days of its line and does not leave before
the wait begins, whether it is found by halving or by looking at all the trips.
-/

namespace JourneyPlanner

theorem partitionPoint_spec (a : Array Nat) (holds : Nat → Bool) {low high : Nat}
    (le : low ≤ high) :
    partitionPoint a holds low high ≤ high ∧
      (partitionPoint a holds low high < high →
        holds (a.getD (partitionPoint a holds low high) 0) = false) := by
  induction low, high using partitionPoint.induct a holds with
  | case1 low high less middle passes ih =>
      have next : partitionPoint a holds low high = partitionPoint a holds (middle + 1) high := by
        rw [partitionPoint, if_pos less]
        exact if_pos passes
      rw [next]
      exact ih (by omega)
  | case2 low high less middle fails ih =>
      have next : partitionPoint a holds low high = partitionPoint a holds low middle := by
        rw [partitionPoint, if_pos less]
        exact if_neg fails
      rw [next]
      obtain ⟨within, test⟩ := ih (by omega)
      refine ⟨by omega, fun _ => ?_⟩
      -- Where the search ends at the middle itself, the test has failed there.
      by_cases inner : partitionPoint a holds low middle < middle
      · exact test inner
      · have equal : partitionPoint a holds low middle = middle := by omega
        rw [equal]
        exact Bool.eq_false_iff.2 fails
  | case3 low high done =>
      rw [partitionPoint, if_neg done]
      exact ⟨le, fun less => absurd less done⟩

theorem mem_of_firstMinimum? {key : Nat → Nat} {l : List Nat} {x : Nat}
    (h : firstMinimum? key l = some x) : x ∈ l := by
  cases l with
  | nil => cases h
  | cons first rest =>
      rw [firstMinimum?, Option.some.injEq] at h
      rw [← h]
      refine List.foldlRecOn rest _ List.mem_cons_self fun best member y among => ?_
      split
      · exact List.mem_cons_of_mem _ among
      · exact member

namespace Line

/-- A trip that somebody who waits from a given time on can board at a position. -/
structure Boards (l : Line) (waiting : SearchTime) (position : Nat) (trip : TripOnDay) : Prop where
  day_lt : trip.day < l.days.size
  runs : trip.schedule ∈ (l.day trip.day).schedules
  notGone : clampWord (waiting.seconds - (l.day trip.day).offset) ≤
    (l.departureAt position trip.schedule : Int)

theorem earliestOnDay_spec {l : Line} {day : ServiceDay} {waiting : SearchTime} {position : Nat}
    {schedule : Nat} (h : l.earliestOnDay day waiting position = some schedule) :
    schedule ∈ day.schedules ∧
      clampWord (waiting.seconds - day.offset) ≤ (l.departureAt position schedule : Int) := by
  simp only [earliestOnDay] at h
  split at h
  · obtain ⟨inside, found⟩ := Array.getElem?_eq_some_iff.1 h
    have fails := (partitionPoint_spec day.schedules
      (fun schedule => decide ((l.departureAt position schedule : Int) <
        clampWord (waiting.seconds - day.offset))) (Nat.zero_le day.schedules.size)).2 inside
    rw [Array.getD_eq_getD_getElem?, h, Option.getD_some] at fails
    exact ⟨found ▸ Array.getElem_mem inside, Int.not_lt.1 (of_decide_eq_false fails)⟩
  · have member := List.mem_filter.1 (mem_of_firstMinimum? h)
    exact ⟨by simpa using member.1, of_decide_eq_true member.2⟩

theorem earliestTrip_spec {l : Line} {waiting : SearchTime} {position : Nat} {trip : TripOnDay}
    {time : SearchTime} (h : l.earliestTrip waiting position = some (trip, time)) :
    l.Boards waiting position trip ∧ time = l.boardTime trip position := by
  let Known (best : Option (TripOnDay × SearchTime)) : Prop := ∀ found ∈ best,
    l.Boards waiting position found.1 ∧ found.2 = l.boardTime found.1 position
  have kept : Known (l.earliestTrip waiting position) := by
    rw [earliestTrip]
    refine List.foldlRecOn (motive := Known) _ _ (fun _ none => by cases none)
      fun best known entry member => ?_
    have listed : l.days[entry.2]? = some entry.1 := by
      simpa using List.mem_zipIdx_iff_getElem?.1 member
    have day : l.day entry.2 = entry.1 := by
      rw [Line.day, Array.getD_eq_getD_getElem?, listed, Option.getD_some]
    simp only
    split
    · exact known
    · next schedule onDay =>
        obtain ⟨runs, notGone⟩ := earliestOnDay_spec onDay
        have boards : l.Boards waiting position ⟨entry.2, schedule⟩ := by
          refine ⟨(Array.getElem?_eq_some_iff.1 listed).1, ?_, ?_⟩
          · rw [day]
            exact runs
          · rw [day]
            exact notGone
        split
        · intro found new
          cases new
          exact ⟨boards, rfl⟩
        · split
          · intro found new
            cases new
            exact ⟨boards, rfl⟩
          · exact known
  exact kept (trip, time) h

theorem Boards.waiting_le {l : Line} {waiting : SearchTime} {position : Nat} {trip : TripOnDay}
    (h : l.Boards waiting position trip) (inRange : clampWord waiting.seconds = waiting.seconds) :
    waiting ≤ l.boardTime trip position := by
  have notGone := h.notGone
  have short := ((l.schedule trip).departure position).seconds_le
  have bound : waiting.seconds ≤
      (l.day trip.day).offset + ((l.schedule trip).departure position).seconds := by
    simp only [departureAt, clampWord, maxServiceSeconds, schedule] at notGone short ⊢
    omega
  rw [SearchTime.le_def, ← inRange]
  simp only [boardTime, SearchTime.ofServiceDay, clampWord]
  omega

end Line

end JourneyPlanner
