import JourneyPlanner.Text.Blank
import JourneyPlanner.Text.Numeral
import JourneyPlanner.Time.Clock

/-!
Dates of the proleptic Gregorian calendar and the date-times of a search. A date is the count of
days since the first of March of the year zero, so that a date some days later is a sum; its year,
month and day are computed from that count. Texts can name the dates from `-262143-01-01` to
`+262142-12-31`.
-/

namespace JourneyPlanner

structure Date where
  day : Int
deriving DecidableEq, Inhabited

namespace Date

instance : LE Date := ⟨fun d e => d.day ≤ e.day⟩

instance : LT Date := ⟨fun d e => d.day < e.day⟩

instance (d e : Date) : Decidable (d ≤ e) := inferInstanceAs (Decidable (d.day ≤ e.day))

instance (d e : Date) : Decidable (d < e) := inferInstanceAs (Decidable (d.day < e.day))

@[ext] theorem ext {d e : Date} (h : d.day = e.day) : d = e := by
  cases d; cases e; simp_all

def addDays (d : Date) (n : Int) : Date :=
  ⟨d.day + n⟩

@[simp] theorem day_addDays (d : Date) (n : Int) : (d.addDays n).day = d.day + n := rfl

/-- Number of days from `start` to `d`. -/
def daysSince (d start : Date) : Int :=
  d.day - start.day

@[simp] theorem addDays_daysSince (start d : Date) : start.addDays (d.daysSince start) = d := by
  apply Date.ext
  rw [day_addDays, daysSince]
  omega

def isLeapYear (year : Int) : Bool :=
  year % 4 == 0 && (year % 100 != 0 || year % 400 == 0)

def daysInMonth (year : Int) (month : Nat) : Nat :=
  match month with
  | 1 | 3 | 5 | 7 | 8 | 10 | 12 => 31
  | 4 | 6 | 9 | 11 => 30
  | 2 => if isLeapYear year then 29 else 28
  | _ => 0

/-- Years are counted from March, so that a leap day ends its year. -/
def ofCivil (year : Int) (month day : Nat) : Date :=
  let marchYear := if month ≤ 2 then year - 1 else year
  let era := marchYear / 400
  let yearOfEra := marchYear - 400 * era
  let dayOfYear : Int := (153 * ((month + 9) % 12) + 2) / 5 + day - 1
  ⟨146097 * era + 365 * yearOfEra + yearOfEra / 4 - yearOfEra / 100 + dayOfYear⟩

structure Civil where
  year : Int
  month : Nat
  day : Nat

def civil (d : Date) : Civil :=
  let era := d.day / 146097
  let dayOfEra := d.day - 146097 * era
  let yearOfEra := (dayOfEra - dayOfEra / 1460 + dayOfEra / 36524 - dayOfEra / 146096) / 365
  let dayOfYear := (dayOfEra - (365 * yearOfEra + yearOfEra / 4 - yearOfEra / 100)).toNat
  let marchMonth := (5 * dayOfYear + 2) / 153
  let month := if marchMonth < 10 then marchMonth + 3 else marchMonth - 9
  { year := yearOfEra + 400 * era + (if month ≤ 2 then 1 else 0)
    month := month
    day := dayOfYear - (153 * marchMonth + 2) / 5 + 1 }

/-- None when the month has no such day, or the year is beyond the years that have a text. -/
def ofCivil? (year : Int) (month day : Nat) : Option Date :=
  if -262143 ≤ year ∧ year ≤ 262142 ∧ 1 ≤ day ∧ day ≤ daysInMonth year month then
    some (ofCivil year month day)
  else none

/-- A year outside of 0 to 9999 has a sign. -/
def yearChars (year : Int) : List Char :=
  if year < 0 then '-' :: Text.padded 4 year.natAbs
  else if 9999 < year then '+' :: Text.padded 4 year.natAbs
  else Text.padded 4 year.natAbs

def render (d : Date) : String :=
  let c := d.civil
  String.ofList (yearChars c.year ++ '-' :: Text.padded 2 c.month ++ '-' :: Text.padded 2 c.day)

end Date

/-- A date, a second of it and the part of the next second that has passed. The second 60 that may
be added to a minute counts as the second 59 and is marked. -/
structure DateTime where
  date : Date
  second : Nat
  second_lt : second < secondsPerDay
  isAdded : Bool := false
  nanosecond : Nat := 0
deriving DecidableEq

namespace DateTime

instance : Inhabited DateTime := ⟨default, 0, by decide, false, 0⟩

/-- A point and three, six or nine decimals, as few as tell the nanosecond; nothing at a whole
second. -/
def fractionChars (nanosecond : Nat) : List Char :=
  if nanosecond = 0 then []
  else if nanosecond % 1000000 = 0 then '.' :: Text.padded 3 (nanosecond / 1000000)
  else if nanosecond % 1000 = 0 then '.' :: Text.padded 6 (nanosecond / 1000)
  else '.' :: Text.padded 9 nanosecond

def timeText (t : DateTime) : String :=
  String.ofList (Text.padded 2 (t.second / 3600) ++ ':' :: Text.padded 2 (t.second / 60 % 60) ++
    ':' :: Text.padded 2 (t.second % 60 + if t.isAdded then 1 else 0) ++
    fractionChars t.nanosecond)

/-- The two parts around a letter `T`. -/
def render (t : DateTime) : String :=
  t.date.render ++ "T" ++ t.timeText

/-- The two parts around a space. -/
def spaced (t : DateTime) : String :=
  t.date.render ++ " " ++ t.timeText

end DateTime

/-- The date-time of a search time, whose day zero is `searchDate`. -/
def SearchTime.toDateTime (t : SearchTime) (searchDate : Date) : DateTime where
  date := searchDate.addDays (t.seconds / 86400)
  second := (t.seconds % 86400).toNat
  second_lt := by simp only [secondsPerDay]; omega

/-! Reading dates: white space may stand before each number and each separator. -/

namespace Date.Parse

/-- A number of at least one digit and at most `width` digits, after white space. -/
def number (width : Nat) (text : List Char) : Option (Nat × List Char) :=
  let text := Text.trimStart text
  let run := (text.take width).takeWhile Text.isDigit
  if run = [] then none else some (Text.value 0 run, text.drop run.length)

/-- A year of at most four digits, or of any number of digits after a sign. -/
def year (text : List Char) : Option (Int × List Char) :=
  let signed (rest : List Char) (sign : Int) : Option (Int × List Char) :=
    let run := rest.takeWhile Text.isDigit
    if run = [] then none else some (sign * Text.value 0 run, rest.drop run.length)
  match Text.trimStart text with
  | '-' :: rest => signed rest (-1)
  | '+' :: rest => signed rest 1
  | text => (number 4 text).map fun (n, rest) => ((n : Int), rest)

/-- A separator, after white space. -/
def separator (c : Char) (text : List Char) : Option (List Char) :=
  match Text.trimStart text with
  | d :: rest => if d = c then some rest else none
  | [] => none

def date (text : List Char) : Option (Date × List Char) := do
  let (year, text) ← year text
  let text ← separator '-' text
  let (month, text) ← number 2 text
  let text ← separator '-' text
  let (day, text) ← number 2 text
  let date ← Date.ofCivil? year month day
  return (date, text)

/-- The nanoseconds of a fraction of a second, of any number of digits; those after the ninth do not
count. -/
def fraction (text : List Char) : Option (Nat × List Char) :=
  match text with
  | '.' :: rest =>
      let run := rest.takeWhile Text.isDigit
      if run = [] then none
      else
        let nanosecond := Text.value 0 ((run ++ List.replicate 9 '0').take 9)
        some (nanosecond, rest.drop run.length)
  | _ => some (0, text)

def dateTime (text : List Char) : Option (DateTime × List Char) := do
  let (date, text) ← date text
  let text ← separator 'T' text
  let (hour, text) ← number 2 text
  let text ← separator ':' text
  let (minute, text) ← number 2 text
  let text ← separator ':' text
  let (second, text) ← number 2 text
  let (nanosecond, text) ← fraction text
  if h : hour ≤ 23 ∧ minute ≤ 59 ∧ second ≤ 60 then
    return ({
      date := date
      second := 3600 * hour + 60 * minute + min second 59
      second_lt := by simp only [secondsPerDay]; omega
      isAdded := second == 60
      nanosecond := nanosecond }, text)
  else none

/-- The whole text, with white space allowed at its end. -/
def whole (read : List Char → Option (α × List Char)) (text : String) : Option α :=
  match read text.toList with
  | some (a, rest) => if Text.isAllBlank rest then some a else none
  | none => none

end Date.Parse

def Date.parse? (text : String) : Option Date :=
  Date.Parse.whole Date.Parse.date text

def DateTime.parse? (text : String) : Option DateTime :=
  Date.Parse.whole Date.Parse.dateTime text

end JourneyPlanner
