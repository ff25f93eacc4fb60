import JourneyPlanner.Time.Duration

/-!
The generalized cost of a journey, in units worth one second each, and the weights it is made with.
A cost is at most `2 ^ 32 - 1`; a sum that would be greater stops there. Walking, riding and
waiting cost their duration times a reluctance, rounded to the nearest unit with halves away from
zero; a negative product costs nothing.
-/

namespace JourneyPlanner

/-- The greatest cost. -/
def maxCost : Nat := 4294967295

structure Cost where
  units : Nat
  units_le : units ≤ maxCost
deriving DecidableEq

namespace Cost

/-- Stops at the greatest cost. -/
def ofUnits (n : Nat) : Cost :=
  ⟨min n maxCost, Nat.min_le_right _ _⟩

def zero : Cost := ofUnits 0

instance : Inhabited Cost := ⟨zero⟩

instance : Add Cost := ⟨fun a b => ofUnits (a.units + b.units)⟩

instance : LE Cost := ⟨fun a b => a.units ≤ b.units⟩

instance (a b : Cost) : Decidable (a ≤ b) := inferInstanceAs (Decidable (a.units ≤ b.units))

@[ext] theorem ext {a b : Cost} (h : a.units = b.units) : a = b := by
  cases a; cases b; simp_all

@[simp] theorem units_ofUnits (n : Nat) : (ofUnits n).units = min n maxCost := rfl

/-- The whole number nearest to a product, between zero and the greatest cost. -/
def ofFloat (x : Float) : Cost :=
  ofUnits x.round.toUInt32.toNat

end Cost

structure CostParams where
  /-- Paid at each boarding. -/
  boarding : Cost := .ofUnits 60
  /-- Paid at each boarding but the first one. -/
  transfer : Cost := .ofUnits 120
  transitReluctance : Float := 1.0
  /-- Not applied to the wait before the first boarding. -/
  waitReluctance : Float := 1.0
  walkReluctance : Float := 2.0
deriving BEq

namespace CostParams

def weighted (d : Duration) (reluctance : Float) : Cost :=
  .ofFloat (Float.ofNat d.seconds * reluctance)

def walk (p : CostParams) (d : Duration) : Cost :=
  weighted d p.walkReluctance

def transit (p : CostParams) (d : Duration) : Cost :=
  weighted d p.transitReluctance

def wait (p : CostParams) (d : Duration) : Cost :=
  weighted d p.waitReluctance

/-- The cost of a boarding after some trips. -/
def boardingAfter (p : CostParams) (nbOfTrips : Nat) : Cost :=
  if nbOfTrips = 0 then p.boarding else p.boarding + p.transfer

end CostParams

end JourneyPlanner
