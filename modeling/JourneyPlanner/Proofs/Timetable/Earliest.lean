import JourneyPlanner.Proofs.Layer.Complete
import JourneyPlanner.Proofs.Timetable.Exact

/-!
The trip that is found for somebody who waits at a position is the first one to leave, among all the
trips of all the days scanned. Where no trip overtakes another one the trips of a day leave every
position in the order in which they are listed, so halving finds the trip that looking at all of them
finds.
-/

namespace JourneyPlanner

theorem holds_of_lt_partitionPoint (a : Array Nat) (holds : Nat → Bool)
    (downward : ∀ i j, i < j → j < a.size → holds (a.getD j 0) = true → holds (a.getD i 0) = true)
    {low high : Nat} (within : high ≤ a.size) (before : ∀ i < low, holds (a.getD i 0) = true) :
    ∀ i < partitionPoint a holds low high, holds (a.getD i 0) = true := by
  induction low, high using partitionPoint.induct a holds with
  | case1 low high less middle passes ih =>
      have next : partitionPoint a holds low high = partitionPoint a holds (middle + 1) high := by
        rw [partitionPoint, if_pos less]
        exact if_pos passes
      rw [next]
      refine ih within fun i under => ?_
      rcases Nat.lt_succ_iff_lt_or_eq.1 under with less' | rfl
      · exact downward i middle less' (by omega) passes
      · exact passes
  | case2 low high less middle fails ih =>
      have next : partitionPoint a holds low high = partitionPoint a holds low middle := by
        rw [partitionPoint, if_pos less]
        exact if_neg fails
      rw [next]
      exact ih (by omega) before
  | case3 low high done =>
      rw [partitionPoint, if_neg done]
      exact before

theorem getElem?_partitionPoint (a : Array Nat) (holds : Nat → Bool)
    (downward : a.toList.Pairwise fun x y => holds y = true → holds x = true) :
    a[partitionPoint a holds 0 a.size]? = a.toList.find? fun x => !holds x := by
  have entry {i : Nat} (inside : i < a.size) : a.getD i 0 = a[i] := by
    rw [Array.getD_eq_getD_getElem?, Array.getElem?_eq_getElem inside, Option.getD_some]
  have passes := holds_of_lt_partitionPoint a holds (fun i j less inside test => by
    rw [entry inside] at test
    rw [entry (Nat.lt_trans less inside)]
    exact List.pairwise_iff_getElem.1 downward i j (Nat.lt_trans less inside) inside less test)
    (Nat.le_refl a.size) (fun i under => absurd under (Nat.not_lt_zero i))
  obtain ⟨le, fails⟩ := partitionPoint_spec a holds (Nat.zero_le a.size)
  rcases Nat.lt_or_eq_of_le le with inside | atEnd
  · have found : a.toList.find? (fun x => !holds x) = some a[partitionPoint a holds 0 a.size] := by
      refine List.find?_eq_some_iff_getElem.2 ⟨?_, _, inside, rfl, fun i under => ?_⟩
      · rw [← entry inside, fails inside]
        rfl
      · simpa [entry (Nat.lt_trans under inside)] using passes i under
    rw [Array.getElem?_eq_getElem inside, found]
  · have none : a.toList.find? (fun x => !holds x) = none := by
      refine List.find?_eq_none.2 fun x member => ?_
      obtain ⟨i, inside, rfl⟩ := Array.getElem_of_mem (Array.mem_toList_iff.1 member)
      have test := passes i (by omega)
      rw [entry inside] at test
      simpa using test
    rw [atEnd, none]
    exact Array.getElem?_eq_none (Nat.le_refl _)

theorem firstMinimum?_eq_none {key : Nat → Nat} {l : List Nat} :
    firstMinimum? key l = none ↔ l = [] := by
  cases l with
  | nil => exact ⟨fun _ => rfl, fun _ => rfl⟩
  | cons first rest => simp [firstMinimum?]

theorem firstMinimum?_eq_head? {key : Nat → Nat} {l : List Nat}
    (increasing : l.Pairwise fun x y => key x ≤ key y) : firstMinimum? key l = l.head? := by
  cases l with
  | nil => rfl
  | cons first rest =>
      have least := (List.pairwise_cons.1 increasing).1
      have kept := List.foldlRecOn (motive := fun best => best = first) rest
        (fun best y => if key y < key best then y else best) rfl fun best same y member => by
          rw [same, if_neg (Nat.not_lt.2 (least y member))]
      rw [firstMinimum?, kept, List.head?_cons]

/-- One of two numbers comes first by its key or, where the keys are equal, by itself. -/
def IsFirstBy (key : Nat → Nat) (x y : Nat) : Prop :=
  key x < key y ∨ key x = key y ∧ x ≤ y

theorem isFirstBy_foldl (key : Nat → Nat) (rest : List Nat) (best : Nat)
    (increasing : (best :: rest).Pairwise (· < ·)) :
    ∀ y ∈ best :: rest,
      IsFirstBy key (rest.foldl (fun best y => if key y < key best then y else best) best) y := by
  induction rest generalizing best with
  | nil =>
      intro y member
      obtain rfl := List.mem_singleton.1 member
      exact .inr ⟨rfl, Nat.le_refl _⟩
  | cons next rest ih =>
      obtain ⟨above, sorted⟩ := List.pairwise_cons.1 increasing
      have less : best < next := above next List.mem_cons_self
      intro y member
      rw [List.foldl_cons]
      split
      · next smaller =>
          -- The next element takes the place of the best one, which then is behind it.
          rcases List.mem_cons.1 member with rfl | later
          · have := ih next sorted next List.mem_cons_self
            simp only [IsFirstBy] at this ⊢
            omega
          · exact ih next sorted y later
      · next notSmaller =>
          have kept := ih best (List.pairwise_cons.2
            ⟨fun z among => above z (List.mem_cons_of_mem _ among),
              (List.pairwise_cons.1 sorted).2⟩)
          rcases List.mem_cons.1 member with rfl | later
          · exact kept y List.mem_cons_self
          · rcases List.mem_cons.1 later with rfl | among
            · have := kept best List.mem_cons_self
              simp only [IsFirstBy] at this ⊢
              omega
            · exact kept y (List.mem_cons_of_mem _ among)

theorem isFirstBy_of_firstMinimum? {key : Nat → Nat} {l : List Nat} {x : Nat}
    (increasing : l.Pairwise (· < ·)) (h : firstMinimum? key l = some x) :
    ∀ y ∈ l, IsFirstBy key x y := by
  cases l with
  | nil => cases h
  | cons first rest =>
      obtain rfl := Option.some.inj h
      exact isFirstBy_foldl key rest first increasing

theorem foldl_zipIdx_induction {α β : Type} (motive : Nat → β → Prop) (step : β → α × Nat → β)
    (l : List α) (k : Nat) (init : β) (start : motive k init)
    (next : ∀ n b (x : α), l[n]? = some x → motive (k + n) b →
      motive (k + n + 1) (step b (x, k + n))) :
    motive (k + l.length) ((l.zipIdx k).foldl step init) := by
  induction l generalizing k init with
  | nil => exact start
  | cons x rest ih =>
      rw [List.zipIdx_cons, List.foldl_cons, List.length_cons, Nat.add_comm rest.length,
        ← Nat.add_assoc]
      refine ih (k + 1) _ (next 0 init x rfl start) fun n b y known reached => ?_
      have shift : k + 1 + n = k + (n + 1) := by omega
      rw [shift] at reached ⊢
      exact next (n + 1) b y known reached

namespace Line

/-- The trip of a day that is found by looking at all of them. -/
def earliestByScan (l : Line) (day : ServiceDay) (waiting : SearchTime) (position : Nat) :
    Option Nat :=
  firstMinimum? (l.departureAt position)
    (day.schedules.toList.filter fun schedule =>
      clampWord (waiting.seconds - day.offset) ≤ (l.departureAt position schedule : Int))

/-- One trip is at or before another one by its departure from a position, then by its date, then by
the place of its schedule. -/
def LeavesBefore (l : Line) (position : Nat) (trip other : TripOnDay) : Prop :=
  l.boardTime trip position < l.boardTime other position ∨
    l.boardTime trip position = l.boardTime other position ∧
      (l.serviceDate trip < l.serviceDate other ∨
        l.serviceDate trip = l.serviceDate other ∧ trip.schedule ≤ other.schedule)

/-- A trip is the first one to leave a position among those that have not left when a wait begins. -/
structure IsEarliest (l : Line) (waiting : SearchTime) (position : Nat) (trip : TripOnDay) :
    Prop where
  runs : l.Runs trip
  notGone : waiting ≤ l.boardTime trip position
  first : ∀ other, l.Runs other → waiting ≤ l.boardTime other position →
    l.LeavesBefore position trip other

theorem LeavesBefore.trans {l : Line} {position : Nat} {trip other third : TripOnDay}
    (h : l.LeavesBefore position trip other) (next : l.LeavesBefore position other third) :
    l.LeavesBefore position trip third := by
  have dates (d e : Date) : d < e ↔ d.day < e.day := Iff.rfl
  simp only [LeavesBefore, SearchTime.lt_def, SearchTime.ext_iff, Date.ext_iff, dates] at h next ⊢
  omega

section

variable {network : Network} {date : Date} {dayRange : Nat} {l : Line} {waiting : SearchTime}
  {position : Nat} {trip : TripOnDay}

theorem IsExact.seconds_boardTime (exactly : l.IsExact network date dayRange)
    (most : dayRange ≤ maxDayRange) (inside : trip.day < l.days.size) (position : Nat) :
    (l.boardTime trip position).seconds =
      (l.day trip.day).offset + l.departureAt position trip.schedule := by
  obtain ⟨k, low, high, offset, -⟩ := exactly.scanned _ (Array.mem_of_getElem? (getElem?_days inside))
  have short := ((l.schedule trip).departure position).seconds_le
  simp only [maxServiceSeconds] at short
  simp only [maxDayRange] at most
  rw [boardTime, SearchTime.ofServiceDay, offset]
  exact clampWord_of_bounds (by omega) (by omega)

/-- A trip has not left if, on the clock of its own day, it leaves at or after the begin of the wait;
stopping that time at the ends of its range makes no difference. -/
theorem IsExact.waiting_le_iff (exactly : l.IsExact network date dayRange)
    (most : dayRange ≤ maxDayRange) (inside : trip.day < l.days.size) :
    waiting ≤ l.boardTime trip position ↔
      clampWord (waiting.seconds - (l.day trip.day).offset) ≤
        (l.departureAt position trip.schedule : Int) := by
  have short := ((l.schedule trip).departure position).seconds_le
  have same : l.departureAt position trip.schedule =
    ((l.schedule trip).departure position).seconds := rfl
  rw [SearchTime.le_def, exactly.seconds_boardTime most inside]
  simp only [maxServiceSeconds, clampWord] at short ⊢
  omega

theorem IsExact.pairwise_departureAt (exactly : l.IsExact network date dayRange)
    (ordered : l.pattern.IsOrdered) (fifo : l.pattern.fifo = true)
    (within : position < l.nbOfPositions) {day : ServiceDay} (among : day ∈ l.days) :
    day.schedules.toList.Pairwise fun s t => l.departureAt position s ≤ l.departureAt position t := by
  have ahead := List.pairwise_iff_getElem.1 (ordered.fifo.1 fifo)
  have known {s : Nat} (member : s ∈ day.schedules.toList) : s < l.pattern.schedules.size := by
    obtain ⟨_, found, -⟩ := (exactly.schedules day among s).1 (Array.mem_toList_iff.1 member)
    exact (Array.getElem?_eq_some_iff.1 found).1
  have entry {s : Nat} (inside : s < l.pattern.schedules.size) :
      l.pattern.schedule s = l.pattern.schedules.toList[s] := by
    rw [TripPattern.schedule, Array.getD_eq_getD_getElem?, Array.getElem?_eq_getElem inside,
      Option.getD_some, Array.getElem_toList]
  refine (exactly.sorted day among).imp_of_mem fun memberS memberT less => ?_
  rw [departureAt, departureAt, entry (known memberS), entry (known memberT)]
  exact (ahead _ _ (known memberS) (known memberT) less position within).2

theorem IsExact.earliestOnDay_eq (exactly : l.IsExact network date dayRange)
    (ordered : l.pattern.IsOrdered) (within : position < l.nbOfPositions) {day : ServiceDay}
    (among : day ∈ l.days) (waiting : SearchTime) :
    l.earliestOnDay day waiting position = l.earliestByScan day waiting position := by
  cases fifo : l.pattern.fifo with
  | false => simp [earliestOnDay, earliestByScan, fifo]
  | true =>
      have increasing := exactly.pairwise_departureAt ordered fifo within among
      have downward := increasing.imp (S := fun s t =>
        decide ((l.departureAt position t : Int) < clampWord (waiting.seconds - day.offset)) = true →
          decide ((l.departureAt position s : Int) < clampWord (waiting.seconds - day.offset)) = true)
        fun le less => by simp only [decide_eq_true_eq] at less ⊢; omega
      have halving := getElem?_partitionPoint day.schedules _ downward
      rw [earliestByScan, firstMinimum?_eq_head? (increasing.filter _), List.head?_filter,
        earliestOnDay, if_pos fifo, halving]
      congr 1
      funext schedule
      simp only [← decide_not, Int.not_lt]

theorem IsExact.not_le_of_earliestOnDay (exactly : l.IsExact network date dayRange)
    (most : dayRange ≤ maxDayRange) (ordered : l.pattern.IsOrdered)
    (within : position < l.nbOfPositions) (runs : l.Runs trip)
    (none : l.earliestOnDay (l.day trip.day) waiting position = none) :
    ¬waiting ≤ l.boardTime trip position := by
  have among := Array.mem_of_getElem? (getElem?_days runs.day_lt)
  rw [exactly.earliestOnDay_eq ordered within among, earliestByScan, firstMinimum?_eq_none,
    List.filter_eq_nil_iff] at none
  rw [exactly.waiting_le_iff most runs.day_lt]
  simpa using none trip.schedule (Array.mem_toList_iff.2 runs.listed)

theorem IsExact.first_of_earliestOnDay (exactly : l.IsExact network date dayRange)
    (most : dayRange ≤ maxDayRange) (ordered : l.pattern.IsOrdered)
    (within : position < l.nbOfPositions) {n schedule : Nat} (inside : n < l.days.size)
    (found : l.earliestOnDay (l.day n) waiting position = some schedule) :
    l.Runs ⟨n, schedule⟩ ∧ waiting ≤ l.boardTime ⟨n, schedule⟩ position ∧
      ∀ trip, trip.day = n → l.Runs trip → waiting ≤ l.boardTime trip position →
        l.LeavesBefore position ⟨n, schedule⟩ trip := by
  have among := Array.mem_of_getElem? (getElem?_days inside)
  obtain ⟨listed, notGone⟩ := earliestOnDay_spec found
  rw [exactly.earliestOnDay_eq ordered within among, earliestByScan] at found
  have first := isFirstBy_of_firstMinimum? ((exactly.sorted _ among).filter _) found
  have found : l.Runs ⟨n, schedule⟩ := ⟨inside, listed⟩
  refine ⟨found, (exactly.waiting_le_iff most found.day_lt).2 notGone, fun trip onDay runs waits => ?_⟩
  subst onDay
  have notGoneToo := decide_eq_true ((exactly.waiting_le_iff most runs.day_lt).1 waits)
  have behind := first trip.schedule
    (List.mem_filter.2 ⟨Array.mem_toList_iff.2 runs.listed, notGoneToo⟩)
  have leaves := exactly.seconds_boardTime most found.day_lt position
  have leavesToo := exactly.seconds_boardTime most runs.day_lt position
  simp only at leaves
  simp only [LeavesBefore, SearchTime.lt_def, SearchTime.ext_iff]
  rcases behind with less | ⟨same, le⟩
  · exact .inl (by omega)
  · exact .inr ⟨by omega, .inr ⟨rfl, le⟩⟩

/-- What is kept once another day has been looked at. -/
def keepEarlier (l : Line) (waiting : SearchTime) (position : Nat)
    (best : Option (TripOnDay × SearchTime)) (entry : ServiceDay × Nat) :
    Option (TripOnDay × SearchTime) :=
  match l.earliestOnDay entry.1 waiting position with
  | none => best
  | some schedule =>
      let trip : TripOnDay := ⟨entry.2, schedule⟩
      let time := l.boardTime trip position
      match best with
      | none => some (trip, time)
      | some (_, earliest) => if time < earliest then some (trip, time) else best

theorem earliestTrip_eq (l : Line) (waiting : SearchTime) (position : Nat) :
    l.earliestTrip waiting position =
      l.days.toList.zipIdx.foldl (l.keepEarlier waiting position) none := rfl

/-- What is kept after some days is the first of their trips. -/
structure IsBestOf (l : Line) (waiting : SearchTime) (position nbOfDays : Nat)
    (best : Option (TripOnDay × SearchTime)) : Prop where
  sound : ∀ found ∈ best, found.1.day < nbOfDays ∧ l.Runs found.1 ∧
    waiting ≤ l.boardTime found.1 position ∧ found.2 = l.boardTime found.1 position
  first : ∀ trip, trip.day < nbOfDays → l.Runs trip → waiting ≤ l.boardTime trip position →
    ∃ found ∈ best, l.LeavesBefore position found.1 trip

theorem IsExact.serviceDate_lt (exactly : l.IsExact network date dayRange) {trip other : TripOnDay}
    (inside : other.day < l.days.size) (less : trip.day < other.day) :
    l.serviceDate trip < l.serviceDate other := by
  have within : trip.day < l.days.size := Nat.lt_trans less inside
  have entry {n : Nat} (inside : n < l.days.size) : l.day n = l.days.toList[n] := by
    rw [day, Array.getD_eq_getD_getElem?, Array.getElem?_eq_getElem inside, Option.getD_some,
      Array.getElem_toList]
  have earlier := List.pairwise_iff_getElem.1 exactly.increasing _ _ within inside less
  rw [← entry within, ← entry inside] at earlier
  obtain ⟨k, -, -, offset, onDate⟩ := exactly.scanned _ (Array.mem_of_getElem? (getElem?_days within))
  obtain ⟨m, -, -, offsetToo, onDateToo⟩ :=
    exactly.scanned _ (Array.mem_of_getElem? (getElem?_days inside))
  rw [serviceDate, serviceDate, onDate, onDateToo]
  exact Int.add_lt_add_left (by omega) date.day

theorem IsBestOf.keepEarlier (exactly : l.IsExact network date dayRange)
    (most : dayRange ≤ maxDayRange) (ordered : l.pattern.IsOrdered)
    (within : position < l.nbOfPositions) {n : Nat} (inside : n < l.days.size)
    {best : Option (TripOnDay × SearchTime)} (h : l.IsBestOf waiting position n best) :
    l.IsBestOf waiting position (n + 1) (l.keepEarlier waiting position best (l.day n, n)) := by
  have weaken : ∀ found ∈ best, found.1.day < n + 1 ∧ l.Runs found.1 ∧
      waiting ≤ l.boardTime found.1 position ∧ found.2 = l.boardTime found.1 position :=
    fun found kept => ⟨Nat.lt_succ_of_lt (h.sound found kept).1, (h.sound found kept).2⟩
  rw [Line.keepEarlier]
  cases onDay : l.earliestOnDay (l.day n) waiting position with
  | none =>
      refine ⟨weaken, fun trip before runs notGone => ?_⟩
      rcases Nat.lt_succ_iff_lt_or_eq.1 before with earlier | rfl
      · exact h.first trip earlier runs notGone
      · exact absurd notGone (exactly.not_le_of_earliestOnDay most ordered within runs onDay)
  | some schedule =>
      obtain ⟨runsToo, notGoneToo, firstOnDay⟩ :=
        exactly.first_of_earliestOnDay most ordered within inside onDay
      have new : ∀ found ∈ some ((⟨n, schedule⟩ : TripOnDay), l.boardTime ⟨n, schedule⟩ position),
          found.1.day < n + 1 ∧ l.Runs found.1 ∧ waiting ≤ l.boardTime found.1 position ∧
            found.2 = l.boardTime found.1 position := by
        rintro _ ⟨⟩
        exact ⟨Nat.lt_succ_self n, runsToo, notGoneToo, rfl⟩
      cases best with
      | none =>
          refine ⟨new, fun trip before runs notGone => ⟨_, rfl, ?_⟩⟩
          rcases Nat.lt_succ_iff_lt_or_eq.1 before with earlier | onThisDay
          · obtain ⟨_, ⟨⟩, -⟩ := h.first trip earlier runs notGone
          · exact firstOnDay trip onThisDay runs notGone
      | some kept =>
          obtain ⟨keptDay, -, -, keptTime⟩ := h.sound kept rfl
          simp only
          split
          · next earlierTime =>
              rw [keptTime] at earlierTime
              refine ⟨new, fun trip before runs notGone => ⟨_, rfl, ?_⟩⟩
              rcases Nat.lt_succ_iff_lt_or_eq.1 before with earlier | onThisDay
              · obtain ⟨_, ⟨⟩, keptFirst⟩ := h.first trip earlier runs notGone
                exact LeavesBefore.trans (.inl earlierTime) keptFirst
              · exact firstOnDay trip onThisDay runs notGone
          · next notEarlier =>
              refine ⟨weaken, fun trip before runs notGone => ?_⟩
              rcases Nat.lt_succ_iff_lt_or_eq.1 before with earlier | onThisDay
              · exact h.first trip earlier runs notGone
              · -- At the same time the trip of the earlier day stays.
                have keptFirst : l.LeavesBefore position kept.1 ⟨n, schedule⟩ := by
                  rw [keptTime, SearchTime.lt_def, Int.not_lt] at notEarlier
                  rcases Int.lt_or_eq_of_le notEarlier with less | same
                  · exact .inl less
                  · exact .inr ⟨SearchTime.ext same, .inl (exactly.serviceDate_lt inside keptDay)⟩
                exact ⟨kept, rfl, keptFirst.trans (firstOnDay trip onThisDay runs notGone)⟩

theorem IsExact.isBestOf_earliestTrip (exactly : l.IsExact network date dayRange)
    (most : dayRange ≤ maxDayRange) (ordered : l.pattern.IsOrdered)
    (within : position < l.nbOfPositions) (waiting : SearchTime) :
    l.IsBestOf waiting position l.days.size (l.earliestTrip waiting position) := by
  rw [earliestTrip_eq]
  have all := foldl_zipIdx_induction (l.IsBestOf waiting position) (l.keepEarlier waiting position)
    l.days.toList 0 none
    ⟨fun found kept => (by cases kept), fun trip before => absurd before (Nat.not_lt_zero _)⟩
    fun n best day known reached => by
      rw [Nat.zero_add] at reached ⊢
      have listed : l.days[n]? = some day := by simpa using known
      have inside := (Array.getElem?_eq_some_iff.1 listed).1
      obtain rfl : l.day n = day := Option.some.inj ((getElem?_days inside).symm.trans listed)
      exact reached.keepEarlier exactly most ordered within inside
  simpa using all

theorem IsExact.isEarliest (exactly : l.IsExact network date dayRange)
    (most : dayRange ≤ maxDayRange) (ordered : l.pattern.IsOrdered)
    (within : position < l.nbOfPositions) {time : SearchTime}
    (found : l.earliestTrip waiting position = some (trip, time)) :
    l.IsEarliest waiting position trip ∧ time = l.boardTime trip position := by
  have best := exactly.isBestOf_earliestTrip most ordered within waiting
  obtain ⟨-, runs, notGone, atTime⟩ := best.sound _ found
  refine ⟨⟨runs, notGone, fun other runsToo notGoneToo => ?_⟩, atTime⟩
  obtain ⟨kept, isKept, first⟩ := best.first other runsToo.day_lt runsToo notGoneToo
  obtain rfl := Option.some.inj (found.symm.trans isKept)
  exact first

theorem IsExact.earliestTrip_eq_none (exactly : l.IsExact network date dayRange)
    (most : dayRange ≤ maxDayRange) (ordered : l.pattern.IsOrdered)
    (within : position < l.nbOfPositions) :
    l.earliestTrip waiting position = none ↔
      ∀ trip, l.Runs trip → ¬waiting ≤ l.boardTime trip position := by
  have best := exactly.isBestOf_earliestTrip most ordered within waiting
  constructor
  · intro none trip runs notGone
    obtain ⟨found, kept, -⟩ := best.first trip runs.day_lt runs notGone
    rw [none] at kept
    cases kept
  · intro gone
    cases found : l.earliestTrip waiting position with
    | none => rfl
    | some entry =>
        obtain ⟨-, runs, notGone, -⟩ := best.sound entry found
        exact absurd notGone (gone _ runs)

end

end Line

namespace Timetable

variable {network : Network} {layer : Layer} {date : Date} {dayRange : Nat}
  {filters : PatternFilters} {speed : Float} {t : Timetable} {line : LineIndex}

theorem isExact_line (built : Layer.build network = .ok layer)
    (made : build layer date dayRange filters speed = .ok t) (known : line < t.nbOfLines) :
    (t.line line).IsExact network date dayRange ∧ (t.line line).pattern.IsOrdered := by
  obtain ⟨rfl, -⟩ := build_eq_ok made
  rw [nbOfLines_ofLayer] at known
  rw [line_ofLayer known]
  obtain ⟨i, p, atIndex, ofPattern⟩ := mem_linesOf.1 (List.getElem_mem known)
  obtain ⟨-, -, equal⟩ := (line?_eq_some built atIndex).1 ofPattern
  rw [equal]
  exact ⟨isExact_daysOf network date dayRange p i,
    Layer.isOrdered_of_mem built (Array.mem_of_getElem? atIndex)⟩

/-- On every line of a timetable, at each of its positions and however long somebody waits, no trip
is found only if none of the trips scanned leaves from then on, and a trip that is found is the first
one of them to leave, on the earliest date and then with the lowest schedule in case of a tie. On each
day halving finds what looking at all the trips finds. -/
theorem earliestTrip_of_build (built : Layer.build network = .ok layer)
    (made : build layer date dayRange filters speed = .ok t) (known : line < t.nbOfLines)
    {position : Nat} (within : position < (t.line line).nbOfPositions) (waiting : SearchTime) :
    (t.line line).IsExact network date dayRange ∧
      ((t.line line).earliestTrip waiting position = none ↔ ∀ trip, (t.line line).Runs trip →
        ¬waiting ≤ (t.line line).boardTime trip position) ∧
      (∀ trip time, (t.line line).earliestTrip waiting position = some (trip, time) →
        (t.line line).IsEarliest waiting position trip ∧
          time = (t.line line).boardTime trip position) ∧
      ∀ day ∈ (t.line line).days, (t.line line).earliestOnDay day waiting position =
        (t.line line).earliestByScan day waiting position := by
  obtain ⟨exactly, ordered⟩ := isExact_line built made known
  have most := (build_spec made).1
  exact ⟨exactly, exactly.earliestTrip_eq_none most ordered within,
    fun _ _ found => exactly.isEarliest most ordered within found,
    fun _ among => exactly.earliestOnDay_eq ordered within among waiting⟩

end Timetable

namespace Network

/-- The vehicle that leaves first is the second one to arrive. -/
def overtaking : Network where
  stops := #[⟨"a", "A", ⟨0, 0⟩⟩, ⟨"b", "B", ⟨0, 0⟩⟩]
  routes := #[⟨"r", "R", .bus, none⟩]
  services := #[⟨"s", [⟨100⟩]⟩]
  patterns := #[⟨"p", "r", ["a", "b"],
    [⟨"slow", "s", none, none, [⟨60, 60⟩, ⟨120, 120⟩]⟩,
      ⟨"fast", "s", none, none, [⟨70, 70⟩, ⟨90, 90⟩]⟩]⟩]
  connections := #[]

def overtakingLine : TripPattern where
  id := "p"
  sourceId := "p"
  routeId := "r"
  routeName := "R"
  mode := .bus
  submode := none
  stops := #[0, 1]
  schedules :=
    #[⟨"slow", 0, #[⟨⟨60, by decide⟩, ⟨60, by decide⟩⟩, ⟨⟨120, by decide⟩, ⟨120, by decide⟩⟩]⟩,
      ⟨"fast", 0, #[⟨⟨70, by decide⟩, ⟨70, by decide⟩⟩, ⟨⟨90, by decide⟩, ⟨90, by decide⟩⟩]⟩]
  fifo := false

theorem patterns_overtaking : Layer.Build.patterns overtaking = .ok [overtakingLine] := by
  cbv

/-- A line on which the vehicle that leaves first is the second one to arrive, one on which nobody
overtakes, and a footpath between their last stops. -/
def crossing : Network where
  stops := #[⟨"a", "A", ⟨0, 0⟩⟩, ⟨"b", "B", ⟨0, 0⟩⟩, ⟨"c", "C", ⟨0, 0⟩⟩]
  routes := #[⟨"r", "R", .bus, none⟩]
  services := #[⟨"s", [⟨100⟩]⟩]
  patterns := #[⟨"p", "r", ["a", "b"],
      [⟨"slow", "s", none, none, [⟨60, 60⟩, ⟨120, 120⟩]⟩,
        ⟨"fast", "s", none, none, [⟨70, 70⟩, ⟨90, 90⟩]⟩]⟩,
    ⟨"q", "r", ["a", "c"],
      [⟨"t", "s", none, none, [⟨60, 60⟩, ⟨160, 160⟩]⟩,
        ⟨"u", "s", none, none, [⟨80, 80⟩, ⟨180, 180⟩]⟩,
        ⟨"v", "s", none, none, [⟨90, 90⟩, ⟨190, 190⟩]⟩]⟩]
  connections := #[⟨"b", "c", some 10, some (.ofSeconds 10), some .zero⟩]

/-- The two lines; the first one is that of `overtaking`. -/
def crossingLines : List TripPattern :=
  [overtakingLine,
    { id := "q"
      sourceId := "q"
      routeId := "r"
      routeName := "R"
      mode := .bus
      submode := none
      stops := #[0, 2]
      schedules :=
        #[⟨"t", 0, #[⟨⟨60, by decide⟩, ⟨60, by decide⟩⟩, ⟨⟨160, by decide⟩, ⟨160, by decide⟩⟩]⟩,
          ⟨"u", 0, #[⟨⟨80, by decide⟩, ⟨80, by decide⟩⟩, ⟨⟨180, by decide⟩, ⟨180, by decide⟩⟩]⟩,
          ⟨"v", 0, #[⟨⟨90, by decide⟩, ⟨90, by decide⟩⟩, ⟨⟨190, by decide⟩, ⟨190, by decide⟩⟩]⟩]
      fifo := true }]

theorem patterns_crossing : Layer.Build.patterns crossing = .ok crossingLines := by
  cbv

end Network

theorem Timetable.earliestTrip_of_build_crossing : ∃ layer t, Layer.build .crossing = .ok layer ∧
    Timetable.build layer ⟨100⟩ 3 {} 1 = .ok t ∧
      (t.line 0).pattern.fifo = false ∧ (t.line 0).IsEarliest ⟨61⟩ 0 ⟨0, 1⟩ ∧
        (t.line 1).pattern.fifo = true ∧ (t.line 1).IsEarliest ⟨61⟩ 0 ⟨0, 1⟩ ∧
          (t.line 1).boardTime ⟨0, 1⟩ 0 = ⟨80⟩ ∧
            ∀ trip, (t.line 1).Runs trip → ¬(⟨91⟩ : SearchTime) ≤ (t.line 1).boardTime trip 0 := by
  have found : (Layer.build .crossing).toOption.any (fun layer =>
      (Timetable.build layer ⟨100⟩ 3 {} 1).toOption.any fun t =>
        decide (1 < t.nbOfLines ∧ 0 < (t.line 0).nbOfPositions ∧ 0 < (t.line 1).nbOfPositions ∧
          (t.line 0).pattern.fifo = false ∧ (t.line 1).pattern.fifo = true ∧
            (t.line 0).earliestTrip ⟨61⟩ 0 = some (⟨0, 1⟩, ⟨70⟩) ∧
              (t.line 1).earliestTrip ⟨61⟩ 0 = some (⟨0, 1⟩, ⟨80⟩) ∧
                (t.line 1).earliestTrip ⟨91⟩ 0 = none)) = true := by
    rw [Layer.build, Network.patterns_crossing]
    decide +kernel
  obtain ⟨layer, built, found⟩ := exists_ok_of_any found
  obtain ⟨t, made, found⟩ := exists_ok_of_any found
  obtain ⟨known, within, withinToo, overtaking, fifo, earliest, earliestToo, gone⟩ :=
    of_decide_eq_true found
  obtain ⟨-, -, scan, -⟩ := earliestTrip_of_build built made (Nat.lt_of_succ_lt known) within ⟨61⟩
  obtain ⟨-, -, halving, -⟩ := earliestTrip_of_build built made known withinToo ⟨61⟩
  obtain ⟨-, noneLeft, -⟩ := earliestTrip_of_build built made known withinToo ⟨91⟩
  obtain ⟨isFirst, time⟩ := halving _ _ earliestToo
  exact ⟨layer, t, built, made, overtaking, (scan _ _ earliest).1, fifo, isFirst, time.symm,
    noneLeft.1 gone⟩

end JourneyPlanner
