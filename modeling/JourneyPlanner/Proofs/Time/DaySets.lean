import JourneyPlanner.Proofs.Time.Calendar
import JourneyPlanner.Time.DaySets
import Mathlib.Data.Finset.Card
import Mathlib.Data.Finset.Image
import Mathlib.Data.List.Forall2
import Mathlib.Data.List.Induction

/-!
Sets of dates that are stored one after the other, as sets of days. Two of them get the same index
just when they have the same dates among those of the first days of the calendar, each such set is
stored once, and an index keeps its meaning while further sets are stored: its days are those of the
dates that it was given for. The order of the dates, their repetition and the dates outside of the
calendar make no difference.
-/

namespace JourneyPlanner.DaySets

theorem size_flags (nbOfDays : Nat) (dates : List Date) (calendar : Calendar) :
    (flags nbOfDays dates calendar).size = nbOfDays := by
  refine List.foldlRecOn (motive := fun flags => Array.size flags = nbOfDays) dates _
    Array.size_replicate fun flags size date _ => ?_
  split
  · rw [Array.size_setIfInBounds, size]
  · exact size

theorem flags_of_mem {nbOfDays : Nat} {dates : List Date} {calendar : Calendar} {date : Date}
    {day : Nat} (inside : day < nbOfDays) (member : date ∈ dates)
    (onDay : calendar.dayOf? date = some day) :
    (flags nbOfDays dates calendar)[day]? = some true := by
  obtain ⟨before, after, rfl⟩ := List.append_of_mem member
  have size := size_flags nbOfDays before calendar
  rw [flags] at size
  rw [flags, List.foldl_append, List.foldl_cons, onDay]
  refine List.foldlRecOn (motive := fun flags => flags[day]? = some true) after _ ?_
    fun flags set other _ => ?_
  · rw [Array.getElem?_setIfInBounds_self_of_lt (by rw [size]; exact inside)]
  · split
    · next otherDay _ =>
        by_cases same : otherDay = day
        · rw [same, Array.getElem?_setIfInBounds_self_of_lt (Array.getElem?_eq_some_iff.1 set).1]
        · rw [Array.getElem?_setIfInBounds_ne same, set]
    · exact set

theorem exists_of_flags {nbOfDays : Nat} {dates : List Date} {calendar : Calendar} {day : Nat}
    (h : (flags nbOfDays dates calendar)[day]? = some true) :
    ∃ date ∈ dates, calendar.dayOf? date = some day := by
  let Known (flags : Array Bool) : Prop :=
    flags[day]? = some true → ∃ date ∈ dates, calendar.dayOf? date = some day
  have start : Known (Array.replicate nbOfDays false) := by
    intro set
    simp only [Array.getElem?_replicate] at set
    split at set <;> cases set
  refine (List.foldlRecOn (motive := Known) dates _ start fun flags known date member => ?_) h
  split
  · next other found =>
      intro set
      by_cases same : other = day
      · exact ⟨date, member, same ▸ found⟩
      · rw [Array.getElem?_setIfInBounds_ne same] at set
        exact known set
  · exact known

variable {calendar : Calendar} {nbOfDays : Nat} {dates others : List Date} {date : Date} {day : Nat}

theorem getElem?_flags_iff : (flags nbOfDays dates calendar)[day]? = some true ↔
    day < nbOfDays ∧ ∃ date ∈ dates, calendar.dayOf? date = some day := by
  constructor
  · intro set
    have inside := (Array.getElem?_eq_some_iff.1 set).1
    rw [size_flags] at inside
    exact ⟨inside, exists_of_flags set⟩
  · rintro ⟨inside, date, member, onDay⟩
    exact flags_of_mem inside member onDay

/-- The dates of a set that are among the first days of a calendar. -/
def counted (calendar : Calendar) (nbOfDays : Nat) (dates : List Date) : Finset Date :=
  dates.toFinset.filter fun date => (calendar.dayOf? date).any (· < nbOfDays)

theorem mem_counted : date ∈ counted calendar nbOfDays dates ↔
    date ∈ dates ∧ ∃ day < nbOfDays, calendar.dayOf? date = some day := by
  simp [counted, Option.any_eq_true, and_comm]

theorem getElem?_flags_of_dayOf? (onDay : calendar.dayOf? date = some day) :
    (flags nbOfDays dates calendar)[day]? = some true ↔
      date ∈ counted calendar nbOfDays dates := by
  rw [mem_counted, getElem?_flags_iff]
  constructor
  · rintro ⟨inside, other, member, onSame⟩
    obtain rfl := Calendar.eq_of_dayOf? onDay onSame
    exact ⟨member, day, inside, onDay⟩
  · rintro ⟨member, other, inside, onOther⟩
    obtain rfl : other = day := Option.some.inj (onOther.symm.trans onDay)
    exact ⟨inside, date, member, onDay⟩

theorem getElem?_flags_iff_counted : (flags nbOfDays dates calendar)[day]? = some true ↔
    ∃ date ∈ counted calendar nbOfDays dates, calendar.dayOf? date = some day := by
  constructor
  · intro set
    obtain ⟨date, -, onDay⟩ := exists_of_flags set
    exact ⟨date, (getElem?_flags_of_dayOf? onDay).1 set, onDay⟩
  · rintro ⟨date, member, onDay⟩
    exact (getElem?_flags_of_dayOf? onDay).2 member

theorem flags_eq_iff : flags nbOfDays dates calendar = flags nbOfDays others calendar ↔
    counted calendar nbOfDays dates = counted calendar nbOfDays others := by
  constructor
  · intro same
    ext date
    cases onDay : calendar.dayOf? date with
    | none => simp [mem_counted, onDay]
    | some day => rw [← getElem?_flags_of_dayOf? onDay, same, getElem?_flags_of_dayOf? onDay]
  · intro same
    refine Array.ext (by simp only [size_flags]) fun day inside insideToo => ?_
    rw [Bool.eq_iff_iff, ← Option.some_inj, ← Option.some_inj (b := true),
      ← Array.getElem?_eq_getElem inside, ← Array.getElem?_eq_getElem insideToo,
      getElem?_flags_iff_counted, getElem?_flags_iff_counted, same]

theorem count_true (flags : Array Bool) : flags.count true =
    ((Finset.range flags.size).filter fun day => flags[day]? = some true).card := by
  obtain ⟨l⟩ := flags
  simp only [List.count_toArray, List.size_toArray, List.getElem?_toArray]
  induction l using List.reverseRecOn with
  | nil => rfl
  | append_singleton l flag ih =>
      have before : ((Finset.range l.length).filter fun day => (l ++ [flag])[day]? = some true) =
          (Finset.range l.length).filter fun day => l[day]? = some true :=
        Finset.filter_congr fun day inside => by
          rw [List.getElem?_append_left (Finset.mem_range.1 inside)]
      rw [List.count_append, ih, List.length_append, List.length_singleton, Finset.range_add_one,
        Finset.filter_insert, before]
      cases flag <;> simp

theorem count_flags : (flags nbOfDays dates calendar).count true =
    (counted calendar nbOfDays dates).card := by
  -- The days that are set and the dates that count stand for each other.
  rw [count_true, size_flags]
  refine Finset.card_bij (fun day _ => calendar.dateOf day) (fun day member => ?_)
    (fun day _ other _ same => ?_) fun date member => ?_
  · obtain ⟨date, member, onDay⟩ :=
      getElem?_flags_iff_counted.1 (Finset.mem_filter.1 member).2
    rwa [Calendar.dateOf_of_dayOf? onDay]
  · exact Calendar.dateOf_inj same
  · obtain ⟨-, day, inside, onDay⟩ := mem_counted.1 member
    have set : (flags nbOfDays dates calendar)[day]? = some true :=
      (getElem?_flags_of_dayOf? onDay).2 member
    exact ⟨day, Finset.mem_filter.2 ⟨Finset.mem_range.2 inside, set⟩,
      Calendar.dateOf_of_dayOf? onDay⟩

section Stored

variable {s : DaySets} {index : DaySetIndex}

theorem contains_of_stored (stored : s.sets[index]? = some (flags nbOfDays dates calendar)) :
    s.contains index day = true ↔ (flags nbOfDays dates calendar)[day]? = some true := by
  rw [contains, Array.getD_eq_getD_getElem?, stored, Option.getD_some]
  cases (flags nbOfDays dates calendar)[day]? <;> simp

theorem card_of_stored (stored : s.sets[index]? = some (flags nbOfDays dates calendar)) :
    s.card index = (counted calendar nbOfDays dates).card := by
  rw [card, Array.getD_eq_getD_getElem?, stored, Option.getD_some, count_flags]

end Stored

theorem card_toFinset_map_congr {α β γ : Type} [DecidableEq β] [DecidableEq γ] {f : α → β}
    {g : α → γ} (same : ∀ a b, f a = f b ↔ g a = g b) (l : List α) :
    (l.map f).toFinset.card = (l.map g).toFinset.card := by
  induction l with
  | nil => rfl
  | cons a rest ih =>
      have known : f a ∈ (rest.map f).toFinset ↔ g a ∈ (rest.map g).toFinset := by simp [same]
      simp only [List.map_cons, List.toFinset_cons, Finset.card_insert_eq_ite, known, ih]

/-- Stores the days of some sets of dates, one after the other, and gives their indices. -/
def insertAll (calendar : Calendar) : DaySets → List (List Date) → List DaySetIndex × DaySets
  | s, [] => ([], s)
  | s, dates :: rest =>
      let (index, next) := s.insert dates calendar
      let (indices, last) := insertAll calendar next rest
      (index :: indices, last)

/-- The sets that are stored are those of some sets of dates, each once; each set of dates has the
index of its days. -/
structure Stores (calendar : Calendar) (nbOfDays : Nat) (given : List (List Date))
    (indices : List DaySetIndex) (s : DaySets) : Prop where
  nbOfDays_eq : s.nbOfDays = nbOfDays
  stored : List.Forall₂ (fun dates index => s.sets[index]? = some (flags nbOfDays dates calendar))
    given indices
  distinct : s.sets.toList.Nodup
  needed : ∀ days ∈ s.sets, ∃ dates ∈ given, flags nbOfDays dates calendar = days

variable {given : List (List Date)} {indices : List DaySetIndex} {s : DaySets}

namespace Stores

variable {call other : List Date × DaySetIndex}

theorem empty (calendar : Calendar) (nbOfDays : Nat) :
    Stores calendar nbOfDays [] [] (.empty nbOfDays) :=
  ⟨rfl, .nil, List.nodup_nil, fun _ none => absurd none (Array.not_mem_empty _)⟩

theorem insert (h : Stores calendar nbOfDays given indices s) (dates : List Date) :
    Stores calendar nbOfDays (given ++ [dates]) (indices ++ [(s.insert dates calendar).1])
      (s.insert dates calendar).2 := by
  have days := h.nbOfDays_eq
  simp only [DaySets.insert, days]
  split
  · next index found =>
      obtain ⟨inside, equal, -⟩ := Array.findIdx?_eq_some_iff_getElem.1 found
      have known : s.sets[index]? = some (flags nbOfDays dates calendar) := by
        rw [Array.getElem?_eq_getElem inside, eq_of_beq equal]
      refine ⟨days, List.rel_append h.stored (.cons known .nil), h.distinct, fun set member => ?_⟩
      obtain ⟨other, among, same⟩ := h.needed set member
      exact ⟨other, List.mem_append_left _ among, same⟩
  · next absent =>
      have new : ∀ set ∈ s.sets, set ≠ flags nbOfDays dates calendar := fun set member same =>
        absurd (Array.findIdx?_eq_none_iff.1 absent set member) (by simp [same])
      refine ⟨rfl, List.rel_append (h.stored.imp fun other index known => ?_) (.cons ?_ .nil), ?_,
        fun set member => ?_⟩
      · have inside := (Array.getElem?_eq_some_iff.1 known).1
        rw [Array.getElem?_push, if_neg (Nat.ne_of_lt inside), known]
      · exact Array.getElem?_push_size
      · rw [Array.toList_push, List.nodup_append]
        refine ⟨h.distinct, List.nodup_singleton _, fun set member last isLast => ?_⟩
        rw [List.mem_singleton.1 isLast]
        exact new set (Array.mem_toList_iff.1 member)
      · rcases Array.mem_push.1 member with old | rfl
        · obtain ⟨other, among, same⟩ := h.needed set old
          exact ⟨other, List.mem_append_left _ among, same⟩
        · exact ⟨dates, List.mem_append_right _ (List.mem_singleton_self _), rfl⟩

theorem insertAll (h : Stores calendar nbOfDays given indices s) (more : List (List Date)) :
    Stores calendar nbOfDays (given ++ more) (indices ++ (insertAll calendar s more).1)
      (insertAll calendar s more).2 := by
  induction more generalizing given indices s with
  | nil => simpa [DaySets.insertAll] using h
  | cons dates rest ih =>
      have next := ih (h.insert dates)
      rwa [List.append_assoc, List.append_assoc] at next

theorem getElem?_eq (h : Stores calendar nbOfDays given indices s)
    (member : call ∈ given.zip indices) :
    s.sets[call.2]? = some (flags nbOfDays call.1 calendar) :=
  List.forall₂_zip h.stored member

theorem getElem?_later (h : Stores calendar nbOfDays given indices s) (more : List (List Date))
    (member : call ∈ given.zip indices) : (DaySets.insertAll calendar s more).2.sets[call.2]? =
      some (flags nbOfDays call.1 calendar) := by
  refine (h.insertAll more).getElem?_eq ?_
  rw [List.zip_append h.stored.length_eq]
  exact List.mem_append_left _ member

theorem any_contains_iff (h : Stores calendar calendar.nbOfDays given indices s) (k : Nat) :
    (indices[k]?).any (s.contains · day) = true ↔
      ∃ dates, given[k]? = some dates ∧ ∃ date ∈ dates, calendar.dayOf? date = some day := by
  by_cases inside : k < given.length
  · have within : k < indices.length := h.stored.length_eq ▸ inside
    have stored := h.stored.get inside within
    rw [List.get_eq_getElem, List.get_eq_getElem] at stored
    rw [List.getElem?_eq_getElem within, Option.any_some, contains_of_stored stored,
      getElem?_flags_iff, List.getElem?_eq_getElem inside]
    simp only [Option.some.injEq, exists_eq_left', and_iff_right_iff_imp]
    rintro ⟨date, -, onDay⟩
    exact Calendar.dayOf?_lt onDay
  · have beyond : ¬k < indices.length := h.stored.length_eq ▸ inside
    simp [inside, beyond]

theorem index_eq_iff (h : Stores calendar nbOfDays given indices s)
    (member : call ∈ given.zip indices) (memberToo : other ∈ given.zip indices) :
    call.2 = other.2 ↔
      counted calendar nbOfDays call.1 = counted calendar nbOfDays other.1 := by
  have known := h.getElem?_eq member
  have knownToo := h.getElem?_eq memberToo
  rw [← flags_eq_iff]
  constructor
  · intro same
    rw [same, knownToo, Option.some.injEq] at known
    exact known.symm
  · intro same
    have inside := (Array.getElem?_eq_some_iff.1 known).1
    rw [← same, ← known, ← Array.getElem?_toList, ← Array.getElem?_toList] at knownToo
    exact (List.getElem?_inj inside h.distinct).1 knownToo.symm

theorem size_eq (h : Stores calendar nbOfDays given indices s) :
    s.sets.size = (given.map (counted calendar nbOfDays)).toFinset.card := by
  have same : s.sets.toList.toFinset =
      (given.map fun dates => flags nbOfDays dates calendar).toFinset := by
    ext set
    rw [List.mem_toFinset, List.mem_toFinset, Array.mem_toList_iff, List.mem_map]
    refine ⟨h.needed set, ?_⟩
    rintro ⟨dates, member, rfl⟩
    obtain ⟨i, inside, rfl⟩ := List.mem_iff_getElem.1 member
    exact Array.mem_of_getElem? (h.stored.get inside (h.stored.length_eq ▸ inside))
  rw [← Array.length_toList, ← List.toFinset_card_of_nodup h.distinct, same]
  exact card_toFinset_map_congr (fun _ _ => flags_eq_iff) given

end Stores

/-- What becomes of sets of dates that are stored one after the other. Each gets an index, and two
get the same one just when they count the same dates; there are as many sets of days as there are
ways to count. Whatever is stored after them, the days of an index are those of the dates that it was
given for, and there are as many. -/
structure IsExact (calendar : Calendar) (nbOfDays : Nat) (given : List (List Date))
    (indices : List DaySetIndex) (s : DaySets) : Prop where
  length : indices.length = given.length
  same : ∀ call ∈ given.zip indices, ∀ other ∈ given.zip indices,
    call.2 = other.2 ↔ counted calendar nbOfDays call.1 = counted calendar nbOfDays other.1
  size : s.sets.size = (given.map (counted calendar nbOfDays)).toFinset.card
  contains : ∀ more, ∀ call ∈ given.zip indices, ∀ day ∈ calendar.days,
    (insertAll calendar s more).2.contains call.2 day = true ↔
      day < nbOfDays ∧ calendar.dateOf day ∈ call.1
  outside : ∀ more, ∀ call ∈ given.zip indices, ∀ day ∉ calendar.days,
    (insertAll calendar s more).2.contains call.2 day = false
  card : ∀ more, ∀ call ∈ given.zip indices,
    (insertAll calendar s more).2.card call.2 = (counted calendar nbOfDays call.1).card

theorem insertAll_exact (calendar : Calendar) (nbOfDays : Nat) (given : List (List Date)) :
    IsExact calendar nbOfDays given (insertAll calendar (.empty nbOfDays) given).1
      (insertAll calendar (.empty nbOfDays) given).2 := by
  have stores := (Stores.empty calendar nbOfDays).insertAll given
  rw [List.nil_append, List.nil_append] at stores
  refine ⟨stores.stored.length_eq.symm, fun call member other memberToo =>
    stores.index_eq_iff member memberToo, stores.size_eq, fun more call member day inside => ?_,
    fun more call member day beyond => ?_, fun more call member => ?_⟩
  · have onDay := Calendar.dayOf?_dateOf inside
    rw [contains_of_stored (stores.getElem?_later more member), getElem?_flags_of_dayOf? onDay,
      mem_counted, and_comm]
    simp [onDay]
  · rw [Bool.eq_false_iff, ne_eq, contains_of_stored (stores.getElem?_later more member)]
    intro set
    obtain ⟨date, -, onDay⟩ := exists_of_flags set
    exact beyond (Calendar.mem_days_of_dayOf? onDay)
  · exact card_of_stored (stores.getElem?_later more member)

theorem insertAll_exact_repeated :
    let calendar : Calendar := ⟨⟨100⟩, ⟨109⟩, by decide⟩
    let given : List (List Date) := [[⟨100⟩, ⟨108⟩], [⟨109⟩, ⟨100⟩, ⟨100⟩], [⟨50⟩]]
    let stored := insertAll calendar (.empty 8) given
    stored.1 = [0, 0, 1] ∧ stored.2.card 0 = 1 ∧ stored.2.card 1 = 0 ∧
      IsExact calendar 8 given stored.1 stored.2 :=
  ⟨by decide +kernel, by decide +kernel, by decide +kernel, insertAll_exact _ _ _⟩

end JourneyPlanner.DaySets
