import JourneyPlanner.Time.Duration

/-!
The two clocks of a search. The time of a stop event is counted from the start of the service day
of its trip and may run past midnight, up to two days. The time of a search is counted from the
midnight that starts the requested departure date; the day before has negative times. Search times
are 32 bit integers: sums stop at the ends of that range, and a duration added to a time, or taken
from it, counts for seven days at most.
-/

namespace JourneyPlanner

def secondsPerDay : Nat := 86400

/-- The latest time of a service day: two days after its start. -/
def maxServiceSeconds : Nat := 172800

/-- Number of service days that one search may scan. -/
def maxDayRange : Nat := 14

/-- The longest journey and the longest search window: seven days. -/
def maxSearchSeconds : Nat := 604800

/-- A time of a service day. -/
structure ServiceTime where
  seconds : Nat
  seconds_le : seconds ≤ maxServiceSeconds
deriving DecidableEq

namespace ServiceTime

def zero : ServiceTime := ⟨0, Nat.zero_le _⟩

instance : Inhabited ServiceTime := ⟨zero⟩

@[ext] theorem ext {s t : ServiceTime} (h : s.seconds = t.seconds) : s = t := by
  cases s; cases t; simp_all

/-- None outside of the service day. -/
def ofSeconds? (n : Int) : Option ServiceTime :=
  if h : 0 ≤ n ∧ n.toNat ≤ maxServiceSeconds then some ⟨n.toNat, h.2⟩ else none

theorem seconds_of_ofSeconds? {n : Int} {t : ServiceTime} (h : ofSeconds? n = some t) :
    (t.seconds : Int) = n := by
  simp only [ofSeconds?] at h
  split at h
  · next bound =>
      cases h
      exact Int.toNat_of_nonneg bound.1
  · cases h

end ServiceTime

/-- Hours, minutes and seconds with two digits at least. -/
def clockText (seconds : Nat) : String :=
  String.ofList (Text.padded 2 (seconds / 3600) ++ ':' :: Text.padded 2 (seconds / 60 % 60) ++
    ':' :: Text.padded 2 (seconds % 60))

def ServiceTime.render (t : ServiceTime) : String :=
  clockText t.seconds

/-- The nearest 32 bit integer. -/
def clampWord (n : Int) : Int :=
  max (-2147483648) (min n 2147483647)

theorem clampWord_of_bounds {n : Int} (low : -2147483648 ≤ n) (high : n ≤ 2147483647) :
    clampWord n = n := by
  simp only [clampWord]; omega

/-- The seconds that a duration adds to a time. -/
def Duration.step (d : Duration) : Nat :=
  min d.seconds maxSearchSeconds

/-- A point in time of a search. -/
structure SearchTime where
  seconds : Int
deriving DecidableEq, Inhabited

namespace SearchTime

instance : LE SearchTime := ⟨fun s t => s.seconds ≤ t.seconds⟩

instance : LT SearchTime := ⟨fun s t => s.seconds < t.seconds⟩

instance (s t : SearchTime) : Decidable (s ≤ t) := inferInstanceAs (Decidable (s.seconds ≤ t.seconds))

instance (s t : SearchTime) : Decidable (s < t) := inferInstanceAs (Decidable (s.seconds < t.seconds))

@[ext] theorem ext {s t : SearchTime} (h : s.seconds = t.seconds) : s = t := by
  cases s; cases t; simp_all

theorem le_def (s t : SearchTime) : s ≤ t ↔ s.seconds ≤ t.seconds := Iff.rfl

theorem lt_def (s t : SearchTime) : s < t ↔ s.seconds < t.seconds := Iff.rfl

def zero : SearchTime := ⟨0⟩

instance : HAdd SearchTime Duration SearchTime := ⟨fun t d => ⟨clampWord (t.seconds + d.step)⟩⟩

instance : HSub SearchTime Duration SearchTime := ⟨fun t d => ⟨clampWord (t.seconds - d.step)⟩⟩

@[simp] theorem seconds_add (t : SearchTime) (d : Duration) :
    (t + d).seconds = clampWord (t.seconds + d.step) := rfl

@[simp] theorem seconds_sub (t : SearchTime) (d : Duration) :
    (t - d).seconds = clampWord (t.seconds - d.step) := rfl

/-- The time of an event of a service day that starts `offset` seconds after the search day. -/
def ofServiceDay (offset : Int) (t : ServiceTime) : SearchTime :=
  ⟨clampWord (offset + t.seconds)⟩

/-- The duration from `start` to `t`; none when `start` is later or more than 32 bits away. -/
def since (t start : SearchTime) : Option Duration :=
  let gap := t.seconds - start.seconds
  if 0 ≤ gap ∧ gap ≤ 2147483647 then some (Duration.ofSeconds gap.toNat) else none

/-- The duration from `start` to `t`, zero where there is none. -/
def sinceOrZero (t start : SearchTime) : Duration :=
  (t.since start).getD Duration.zero

/-- A time before the search day has a minus sign. -/
def render (t : SearchTime) : String :=
  (if t.seconds < 0 then "-" else "") ++ clockText t.seconds.natAbs

end SearchTime

/-- The earliest of some times. -/
def earliest? (times : List SearchTime) : Option SearchTime :=
  ((times.map SearchTime.seconds).min?).map SearchTime.mk

end JourneyPlanner
