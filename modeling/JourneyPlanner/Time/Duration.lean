import JourneyPlanner.Text.Blank
import JourneyPlanner.Text.Numeral

/-!
Durations in whole seconds. A duration has at most `2 ^ 32 - 1` seconds; a sum or a product that
would be longer stops there. The text of a duration is `HH:MM:SS`, with two digits or more for the
hours; for people it is written `1h02m03s`, without the leading parts that are zero.
-/

namespace JourneyPlanner

structure Duration where
  seconds : Nat
  seconds_le : seconds ≤ 4294967295
deriving DecidableEq

namespace Duration

/-- Stops at the longest duration. -/
def ofSeconds (n : Nat) : Duration :=
  ⟨min n 4294967295, Nat.min_le_right _ _⟩

def zero : Duration := ofSeconds 0

instance : Inhabited Duration := ⟨zero⟩

def ofHms (hours minutes seconds : Nat) : Duration :=
  ofSeconds (seconds + 60 * minutes + 3600 * hours)

def isZero (d : Duration) : Bool :=
  d.seconds == 0

instance : Add Duration := ⟨fun d e => ofSeconds (d.seconds + e.seconds)⟩

instance : HMul Duration Nat Duration := ⟨fun d n => ofSeconds (d.seconds * n)⟩

instance : LE Duration := ⟨fun d e => d.seconds ≤ e.seconds⟩

instance : LT Duration := ⟨fun d e => d.seconds < e.seconds⟩

instance (d e : Duration) : Decidable (d ≤ e) := inferInstanceAs (Decidable (d.seconds ≤ e.seconds))

instance (d e : Duration) : Decidable (d < e) := inferInstanceAs (Decidable (d.seconds < e.seconds))

@[ext] theorem ext {d e : Duration} (h : d.seconds = e.seconds) : d = e := by
  cases d; cases e; simp_all

@[simp] theorem seconds_ofSeconds (n : Nat) : (ofSeconds n).seconds = min n 4294967295 := rfl

@[simp] theorem seconds_zero : zero.seconds = 0 := rfl

@[simp] theorem seconds_add (d e : Duration) :
    (d + e).seconds = min (d.seconds + e.seconds) 4294967295 := rfl

@[simp] theorem seconds_mul (d : Duration) (n : Nat) :
    (d * n).seconds = min (d.seconds * n) 4294967295 := rfl

theorem ofSeconds_seconds (d : Duration) : ofSeconds d.seconds = d :=
  ext (Nat.min_eq_left d.seconds_le)

/-- The text of a duration: hours, minutes and seconds with two digits at least. -/
def clockChars (d : Duration) : List Char :=
  Text.padded 2 (d.seconds / 3600) ++ ':' :: Text.padded 2 (d.seconds / 60 % 60) ++
    ':' :: Text.padded 2 (d.seconds % 60)

def clock (d : Duration) : String :=
  String.ofList d.clockChars

/-- The text for people. -/
def render (d : Duration) : String :=
  let hours := d.seconds / 3600
  let minutes := d.seconds % 3600 / 60
  let seconds := d.seconds % 60
  if hours ≠ 0 then
    String.ofList (Text.digits hours ++ 'h' :: Text.padded 2 minutes ++
      'm' :: Text.padded 2 seconds ++ ['s'])
  else if minutes ≠ 0 then
    String.ofList (Text.digits minutes ++ 'm' :: Text.padded 2 seconds ++ ['s'])
  else String.ofList (Text.digits seconds ++ ['s'])

/-- Three numerals between colons, with white space allowed around the whole text only. -/
def read? (text : List Char) : Option Duration :=
  match (Text.splitOn ':' (Text.trim text)).map (Text.numeral? 4294967295) with
  | [some hours, some minutes, some seconds] =>
      let total := 3600 * hours + 60 * minutes + seconds
      if h : minutes < 60 ∧ seconds < 60 ∧ total ≤ 4294967295 then some ⟨total, h.2.2⟩ else none
  | _ => none

/-- The text that is no duration, as it was given. -/
structure ParseError where
  input : String
deriving DecidableEq

def ParseError.message (e : ParseError) : String :=
  "Unable to parse `" ++ e.input ++ "` as a duration. Expected format is HH:MM:SS"

def parse (text : String) : Except ParseError Duration :=
  match read? text.toList with
  | some d => .ok d
  | none => .error ⟨text⟩

def parse? (text : String) : Option Duration :=
  read? text.toList

end Duration

end JourneyPlanner
