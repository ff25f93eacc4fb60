import JourneyPlanner.Search.Criteria
import JourneyPlanner.Timetable.Basic

/-!
Journeys from the origin to the destination as lists of legs, and what makes one sound: it starts
with its leg from the origin and ends with its leg to the destination, each vehicle is left after
the position where it was boarded, and each leg starts where and not before the previous one ends.
-/

namespace JourneyPlanner

namespace Journey

inductive Leg where
  /-- From the origin to a stop. -/
  | access (leg : Nat) (stop : StopIndex) (departure arrival : SearchTime)
  | ride (pattern : PatternIndex) (schedule : Nat) (date : Date)
      (boardPosition debarkPosition : Nat) (boardStop debarkStop : StopIndex)
      (boardTime debarkTime : SearchTime)
  | walk (footpath : FootpathIndex) (source target : StopIndex) (departure arrival : SearchTime)
  /-- From a stop to the destination. -/
  | egress (leg : Nat) (stop : StopIndex) (departure arrival : SearchTime)
deriving DecidableEq, Inhabited

namespace Leg

def departure : Leg → SearchTime
  | access _ _ departure _ => departure
  | ride _ _ _ _ _ _ _ boardTime _ => boardTime
  | walk _ _ _ departure _ => departure
  | egress _ _ departure _ => departure

def arrival : Leg → SearchTime
  | access _ _ _ arrival => arrival
  | ride _ _ _ _ _ _ _ _ debarkTime => debarkTime
  | walk _ _ _ _ arrival => arrival
  | egress _ _ _ arrival => arrival

/-- None for the leg that starts at the origin. -/
def startStop? : Leg → Option StopIndex
  | access .. => none
  | ride _ _ _ _ _ boardStop _ _ _ => some boardStop
  | walk _ source _ _ _ => some source
  | egress _ stop _ _ => some stop

/-- None for the leg that ends at the destination. -/
def endStop? : Leg → Option StopIndex
  | access _ stop _ _ => some stop
  | ride _ _ _ _ _ _ debarkStop _ _ => some debarkStop
  | walk _ _ target _ _ => some target
  | egress .. => none

def isAccess : Leg → Bool
  | access .. => true
  | _ => false

def isRide : Leg → Bool
  | ride .. => true
  | _ => false

def isEgress : Leg → Bool
  | egress .. => true
  | _ => false

def pattern? : Leg → Option PatternIndex
  | ride pattern .. => some pattern
  | _ => none

/-- A vehicle left before it was boarded. -/
def isBackward : Leg → Bool
  | ride _ _ _ boardPosition debarkPosition _ _ boardTime debarkTime =>
      debarkPosition ≤ boardPosition || debarkTime < boardTime
  | _ => false

end Leg

end Journey

structure Journey where
  legs : List Journey.Leg
  departure : SearchTime
  arrival : SearchTime
  nbOfTransfers : Nat
  cost : Cost
deriving DecidableEq, Inhabited

namespace Journey

/-- Why a journey is not sound; legs are counted from zero. -/
inductive Flaw where
  | malformed
  | noTransitLeg
  | debarkBeforeBoard (leg : Nat)
  | timeTravel (leg : Nat)
  | disconnected (leg : Nat)
deriving DecidableEq

def Flaw.message : Flaw → String
  | malformed => "a path must start with an access leg and end with an egress leg"
  | noTransitLeg => "the path has no transit leg"
  | debarkBeforeBoard leg => "leg " ++ Text.decimal leg ++ " debarks before boarding"
  | timeTravel leg =>
      "leg " ++ Text.decimal leg ++ " starts before the end of the previous leg"
  | disconnected leg =>
      "leg " ++ Text.decimal leg ++ " does not start at the stop where the previous leg ends"

def nbOfRides (j : Journey) : Nat :=
  j.legs.countP Leg.isRide

/-- The patterns boarded, in order. -/
def patterns (j : Journey) : List PatternIndex :=
  j.legs.filterMap Leg.pattern?

def hasSamePatterns (j k : Journey) : Bool :=
  j.patterns == k.patterns

/-- The first leg, counted from `position`, that does not follow from the one before it. -/
def chainFlaw? (position : Nat) : List Leg → Option Flaw
  | [] => none
  | [_] => none
  | previous :: next :: rest =>
      if next.departure < previous.arrival then some (.timeTravel (position + 1))
      else if next.startStop? ≠ previous.endStop? then some (.disconnected (position + 1))
      else chainFlaw? (position + 1) (next :: rest)

/-- The first flaw of a journey; one without vehicles is sound only where that is allowed. -/
def flaw? (walkOnly : Bool) (j : Journey) : Option Flaw :=
  if !(j.legs.head?.any Leg.isAccess && j.legs.getLast?.any Leg.isEgress) then some .malformed
  else if !walkOnly && j.nbOfRides == 0 then some .noTransitLeg
  else match j.legs.findIdx? Leg.isBackward with
    | some leg => some (.debarkBeforeBoard leg)
    | none => chainFlaw? 0 j.legs

def isSound (walkOnly : Bool) (j : Journey) : Bool :=
  (j.flaw? walkOnly).isNone

end Journey

end JourneyPlanner
