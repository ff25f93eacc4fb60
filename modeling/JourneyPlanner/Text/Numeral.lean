/-!
Decimal numerals without a sign: how a natural number is written, alone or padded with zeros, and
how one is read. Reading allows one leading plus sign and any number of leading zeros, knows only
the ten ASCII digits, and refuses a value above a given limit.
-/

namespace JourneyPlanner.Text

def digit (n : Nat) : Char :=
  Char.ofNat (48 + n % 10)

/-- The digits of a number, the most significant first. -/
def digits (n : Nat) : List Char :=
  if n < 10 then [digit n] else digits (n / 10) ++ [digit n]

/-- The digits of a number after as many zeros as bring them to the given width. -/
def padded (width n : Nat) : List Char :=
  List.replicate (width - (digits n).length) '0' ++ digits n

def decimal (n : Nat) : String :=
  String.ofList (digits n)

def isDigit (c : Char) : Bool :=
  48 ≤ c.toNat && c.toNat ≤ 57

def digitValue (c : Char) : Nat :=
  c.toNat - 48

/-- The value of a run of digits read after the value `start`. -/
def value (start : Nat) (run : List Char) : Nat :=
  run.foldl (fun n c => 10 * n + digitValue c) start

/-- The number a text stands for: at least one digit after at most one plus sign. -/
def numeral? (limit : Nat) (text : List Char) : Option Nat :=
  let run := match text with
    | '+' :: rest => rest
    | _ => text
  if run ≠ [] ∧ run.all isDigit ∧ value 0 run ≤ limit then some (value 0 run) else none

/-- The parts between the occurrences of a separator; a text without one is its only part. -/
def splitOn (separator : Char) : List Char → List (List Char)
  | [] => [[]]
  | c :: rest =>
      if c = separator then [] :: splitOn separator rest
      else match splitOn separator rest with
        | [] => [[c]]
        | part :: parts => (c :: part) :: parts

theorem splitOn_ne_nil (separator : Char) (text : List Char) : splitOn separator text ≠ [] := by
  cases text with
  | nil => simp [splitOn]
  | cons c rest =>
      rw [splitOn]
      split
      · simp
      · split <;> simp

end JourneyPlanner.Text
