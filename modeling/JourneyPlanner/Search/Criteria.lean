import JourneyPlanner.Search.Cost
import JourneyPlanner.Time.Clock

/-!
What journeys are compared by. The standard profile compares arrival times at stops; the
multi-criteria profile also compares numbers of trips and costs. At the destination both also
compare departures, of which a later one is better, and numbers of transfers.
-/

namespace JourneyPlanner

/-- An arrival at a stop. -/
structure Criteria where
  arrival : SearchTime
  nbOfTrips : Nat
  cost : Cost
deriving DecidableEq, Inhabited

/-- An arrival at the destination, the walk from the last stop included. -/
structure ArrivalCriteria where
  departure : SearchTime
  arrival : SearchTime
  nbOfTransfers : Nat
  cost : Cost
deriving DecidableEq, Inhabited

inductive Profile where
  | standard
  | multiCriteria
deriving DecidableEq, Repr, Inhabited

namespace Profile

def name : Profile → String
  | standard => "standard"
  | multiCriteria => "multi_criteria"

def all : List Profile := [standard, multiCriteria]

def ofName? (text : String) : Option Profile :=
  all.find? (·.name = text)

theorem ofName?_name (p : Profile) : ofName? p.name = some p := by
  cases p <;> decide

/-- A text that names no profile. -/
structure ParseError where
  input : String
deriving DecidableEq

def ParseError.message (e : ParseError) : String :=
  "Bad search profile : `" ++ e.input ++ "`"

def parse (text : String) : Except ParseError Profile :=
  match ofName? text with
  | some p => .ok p
  | none => .error ⟨text⟩

/-- Whether the first arrival at a stop is at least as good as the second one. -/
def atLeastAsGood (p : Profile) (a b : Criteria) : Bool :=
  match p with
  | standard => a.arrival ≤ b.arrival
  | multiCriteria => a.arrival ≤ b.arrival && a.nbOfTrips ≤ b.nbOfTrips && a.cost ≤ b.cost

/-- Whether the first arrival at the destination is at least as good as the second one. -/
def atLeastAsGoodAtDestination (p : Profile) (a b : ArrivalCriteria) : Bool :=
  let timesAndTransfers :=
    a.arrival ≤ b.arrival && b.departure ≤ a.departure && a.nbOfTransfers ≤ b.nbOfTransfers
  match p with
  | standard => timesAndTransfers
  | multiCriteria => timesAndTransfers && a.cost ≤ b.cost

theorem atLeastAsGood_refl (p : Profile) (a : Criteria) : p.atLeastAsGood a a = true := by
  cases p with
  | standard => exact decide_eq_true (Int.le_refl _)
  | multiCriteria =>
      simp only [atLeastAsGood, Bool.and_eq_true, decide_eq_true_eq]
      exact ⟨⟨Int.le_refl _, Nat.le_refl _⟩, Nat.le_refl _⟩

end Profile

end JourneyPlanner
