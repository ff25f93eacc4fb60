/-!
The kinds of vehicles of a network, in the order in which they are listed and sorted.
-/

namespace JourneyPlanner

inductive Mode where
  | air
  | bus
  | cableCar
  | coach
  | ferry
  | funicular
  | gondola
  | monorail
  | rail
  | subway
  | tram
  | trolleybus
deriving DecidableEq, Repr, Inhabited

namespace Mode

def all : List Mode :=
  [air, bus, cableCar, coach, ferry, funicular, gondola, monorail, rail, subway, tram, trolleybus]

/-- Position in the list of all modes. -/
def rank (m : Mode) : Nat :=
  m.ctorIdx

def name : Mode → String
  | air => "air"
  | bus => "bus"
  | cableCar => "cable_car"
  | coach => "coach"
  | ferry => "ferry"
  | funicular => "funicular"
  | gondola => "gondola"
  | monorail => "monorail"
  | rail => "rail"
  | subway => "subway"
  | tram => "tram"
  | trolleybus => "trolleybus"

def ofName? (text : String) : Option Mode :=
  all.find? (·.name = text)

theorem mem_all (m : Mode) : m ∈ all := by
  cases m <;> decide

theorem ofName?_name (m : Mode) : ofName? m.name = some m := by
  cases m <;> decide

theorem rank_inj {m n : Mode} (same : m.rank = n.rank) : m = n := by
  have listed (m : Mode) : all[m.rank]? = some m := by
    cases m <;> rfl
  have equal := listed m
  rw [same, listed n, Option.some.injEq] at equal
  exact equal.symm

theorem ofName?_eq_some_iff {text : String} {m : Mode} : ofName? text = some m ↔ m.name = text := by
  constructor
  · intro found
    have same := List.find?_some (p := fun m : Mode => decide (m.name = text)) found
    exact of_decide_eq_true same
  · rintro rfl
    exact ofName?_name m

/-- A text that names no mode. -/
structure ParseError where
  input : String
deriving DecidableEq

def ParseError.message (e : ParseError) : String :=
  "Bad transit mode : `" ++ e.input ++ "`"

def parse (text : String) : Except ParseError Mode :=
  match ofName? text with
  | some m => .ok m
  | none => .error ⟨text⟩

end Mode

end JourneyPlanner
