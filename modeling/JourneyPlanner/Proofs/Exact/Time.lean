import JourneyPlanner.Time.Clock

/-!
Sums of times in the integers. Nothing stops at the ends of a range here: a sum, a difference or the
time of an event that is not well inside of 32 bits is none, and so is the time since a later time.
For times near the start of the search day there always is one, and it is the time that the search
computes. A duration counts for seven days at most here too.
-/

namespace JourneyPlanner

/-- Some weeks around the start of the search day. -/
def SearchTime.IsNear (t : SearchTime) : Prop :=
  -2097152 ≤ t.seconds ∧ t.seconds ≤ 2097152

namespace Exact

/-- An integer far from the ends of 32 bits: less than `2 ^ 30` away from zero. -/
def seconds? (n : Int) : Option Int :=
  if n.natAbs < 1073741824 then some n else none

def time? (n : Int) : Option SearchTime :=
  return ⟨← seconds? n⟩

def add (t : SearchTime) (d : Duration) : Option SearchTime :=
  time? (t.seconds + d.step)

def sub (t : SearchTime) (d : Duration) : Option SearchTime :=
  time? (t.seconds - d.step)

def ofServiceDay (offset : Int) (t : ServiceTime) : Option SearchTime :=
  time? (offset + t.seconds)

/-- The duration from `start` to a time that is not earlier. -/
def since (t start : SearchTime) : Option Duration :=
  if start ≤ t then some (.ofSeconds (t.seconds - start.seconds).toNat) else none

theorem seconds?_eq {n : Int} (low : -1073741824 < n) (high : n < 1073741824) :
    seconds? n = some n :=
  if_pos (by omega)

theorem time?_eq {n : Int} (low : -1073741824 < n) (high : n < 1073741824) :
    time? n = some ⟨clampWord n⟩ := by
  rw [time?, seconds?_eq low high, clampWord_of_bounds (by omega) (by omega)]
  rfl

theorem step_le (d : Duration) : d.step ≤ 604800 :=
  Nat.min_le_right _ _

variable {t start : SearchTime}

theorem clampWord_of_isNear (near : t.IsNear) : clampWord t.seconds = t.seconds :=
  clampWord_of_bounds (by have := near.1; omega) (by have := near.2; omega)

theorem time?_of_isNear (near : t.IsNear) : time? t.seconds = some t := by
  rw [time?_eq (by have := near.1; omega) (by have := near.2; omega), clampWord_of_isNear near]

theorem add_eq (near : t.IsNear) (d : Duration) : add t d = some (t + d) := by
  have short := step_le d
  exact time?_eq (by have := near.1; omega) (by have := near.2; omega)

theorem sub_eq (near : t.IsNear) (d : Duration) : sub t d = some (t - d) := by
  have short := step_le d
  exact time?_eq (by have := near.1; omega) (by have := near.2; omega)

theorem since_eq (near : t.IsNear) (nearStart : start.IsNear) (le : start ≤ t) :
    since t start = some (t.sinceOrZero start) := by
  have le' : start.seconds ≤ t.seconds := le
  have gap : 0 ≤ t.seconds - start.seconds ∧ t.seconds - start.seconds ≤ 2147483647 := by
    have := near.2
    have := nearStart.1
    omega
  rw [since, if_pos le, SearchTime.sinceOrZero, SearchTime.since, if_pos gap, Option.getD_some]

/-- The days scanned start at most two weeks from the search day. -/
def IsScanned (offset : Int) : Prop :=
  -86400 ≤ offset ∧ offset ≤ 1036800

theorem ofServiceDay_eq {offset : Int} (scanned : IsScanned offset) (t : ServiceTime) :
    ofServiceDay offset t = some (.ofServiceDay offset t) := by
  have short : t.seconds ≤ 172800 := t.seconds_le
  exact time?_eq (by have := scanned.1; omega) (by have := scanned.2; omega)

theorem isNear_ofServiceDay {offset : Int} (scanned : IsScanned offset) (t : ServiceTime) :
    (SearchTime.ofServiceDay offset t).IsNear := by
  have short : t.seconds ≤ 172800 := t.seconds_le
  obtain ⟨low, high⟩ := scanned
  have exact : clampWord (offset + t.seconds) = offset + t.seconds :=
    clampWord_of_bounds (by omega) (by omega)
  simp only [SearchTime.IsNear, SearchTime.ofServiceDay, exact]
  omega

end Exact

end JourneyPlanner
