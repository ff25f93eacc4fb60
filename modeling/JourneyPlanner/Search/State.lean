import JourneyPlanner.Search.Front
import JourneyPlanner.Search.Tree

/-!
What a search knows. Round `r` holds, for each stop, the front of the arrivals with `r` vehicles;
the front of the arrivals by vehicle and the front of all arrivals are kept apart. The state is kept
from one departure time of the range to the next; only the lists of the stops reached are renewed.
-/

namespace JourneyPlanner

abbrev StopFront := Front NodeIndex Criteria

/-- The last node of a journey and the leg from its stop to the destination. -/
structure Arrived where
  node : NodeIndex
  egress : Nat
deriving DecidableEq, Inhabited

abbrev ArrivedFront := Front Arrived ArrivalCriteria

/-- Stops in the order in which they were touched first, with a flag for each stop that tells
whether it is listed. -/
structure TouchedStops where
  stops : Array StopIndex
  flags : Array Bool
  agree : ∀ stop < flags.size, flags.getD stop false = true ↔ stop ∈ stops

namespace TouchedStops

def empty (nbOfStops : Nat) : TouchedStops where
  stops := #[]
  flags := Array.replicate nbOfStops false
  agree stop inside := by
    rw [Array.size_replicate] at inside
    simp [inside]

instance : Inhabited TouchedStops := ⟨empty 0⟩

theorem agree_push (t : TouchedStops) (stop other : StopIndex)
    (inside : other < (t.flags.setIfInBounds stop true).size) :
    (t.flags.setIfInBounds stop true).getD other false = true ↔ other ∈ t.stops.push stop := by
  rw [Array.size_setIfInBounds] at inside
  have old := t.agree other inside
  rw [Array.getD_eq_getD_getElem?] at old ⊢
  rw [Array.getElem?_setIfInBounds, Array.mem_push]
  by_cases same : stop = other
  · simp [same, inside]
  · rw [if_neg same, old, or_iff_left (Ne.symm same)]

/-- Lists a stop unless its flag is up. -/
def touch (t : TouchedStops) (stop : StopIndex) : TouchedStops :=
  if t.flags.getD stop false then t
  else ⟨t.stops.push stop, t.flags.setIfInBounds stop true, t.agree_push stop⟩

/-- The flags with those of some stops down. -/
def lower (flags : Array Bool) (stops : List StopIndex) : Array Bool :=
  stops.foldl (fun flags stop => flags.setIfInBounds stop false) flags

theorem size_lower (flags : Array Bool) (stops : List StopIndex) :
    (lower flags stops).size = flags.size := by
  induction stops generalizing flags with
  | nil => rfl
  | cons stop rest ih => exact (ih _).trans Array.size_setIfInBounds

theorem getD_lower (flags : Array Bool) (stops : List StopIndex) (other : StopIndex) :
    (lower flags stops).getD other false = true ↔
      flags.getD other false = true ∧ other ∉ stops := by
  induction stops generalizing flags with
  | nil => simp [lower]
  | cons stop rest ih =>
      have step : lower flags (stop :: rest) = lower (flags.setIfInBounds stop false) rest := rfl
      rw [step, ih, List.mem_cons, not_or, ← and_assoc]
      refine and_congr_left fun _ => ?_
      rw [Array.getD_eq_getD_getElem?, Array.getD_eq_getD_getElem?, Array.getElem?_setIfInBounds]
      by_cases same : stop = other
      · by_cases inside : other < flags.size
        · simp [same, inside]
        · simp [same, inside]
      · simp [same, Ne.symm same]

theorem agree_lower (t : TouchedStops) (stop : StopIndex)
    (inside : stop < (lower t.flags t.stops.toList).size) :
    (lower t.flags t.stops.toList).getD stop false = true ↔ stop ∈ #[] := by
  rw [size_lower] at inside
  rw [getD_lower, t.agree stop inside, Array.mem_toList_iff]
  simp

/-- Takes the stops off the list, and the flags of those that were listed down. -/
def clear (t : TouchedStops) : TouchedStops :=
  ⟨#[], lower t.flags t.stops.toList, t.agree_lower⟩

end TouchedStops

structure Round where
  /-- Arrivals by vehicle, by stop. -/
  transit : Array StopFront
  /-- Arrivals by vehicle, by walk or from the origin, by stop. -/
  all : Array StopFront
  /-- Stops reached by vehicle since the last departure time. -/
  touchedByTransit : TouchedStops
  /-- Stops reached by any means since the last departure time. -/
  touched : TouchedStops
deriving Inhabited

namespace Round

def empty (nbOfStops : Nat) : Round :=
  ⟨Array.replicate nbOfStops [], Array.replicate nbOfStops [], .empty nbOfStops, .empty nbOfStops⟩

def transitFront (r : Round) (stop : StopIndex) : StopFront :=
  r.transit.getD stop []

def front (r : Round) (stop : StopIndex) : StopFront :=
  r.all.getD stop []

/-- The stops reached by vehicle, in the order of their first arrival. -/
abbrev transitStops (r : Round) : Array StopIndex :=
  r.touchedByTransit.stops

/-- The stops reached by any means, in the order of their first arrival. -/
abbrev stops (r : Round) : Array StopIndex :=
  r.touched.stops

def clearStops (r : Round) : Round :=
  { r with touchedByTransit := r.touchedByTransit.clear, touched := r.touched.clear }

end Round

structure SearchState where
  rounds : Array Round
  tree : JourneyTree
  arrived : ArrivedFront
  /-- Number of departure times tried. -/
  iteration : Nat
  /-- Greatest round ridden. -/
  lastRound : Nat
  /-- Number of times a line was ridden. -/
  nbOfScans : Nat

namespace SearchState

/-- Round zero, and one round for each boarding allowed. -/
def initial (nbOfStops maxBoardings : Nat) : SearchState where
  rounds := Array.replicate (maxBoardings + 1) (Round.empty nbOfStops)
  tree := .empty
  arrived := []
  iteration := 0
  lastRound := 0
  nbOfScans := 0

def round (s : SearchState) (index : Nat) : Round :=
  s.rounds.getD index default

/-- Whether an arrival at a stop is at least as good as the criteria in some round up to a given
one. -/
def isCovered (p : Profile) (s : SearchState) (stop : StopIndex) (last : Nat)
    (criteria : Criteria) : Bool :=
  (List.range (last + 1)).any fun index =>
    ((s.round index).front stop).covers p.atLeastAsGood criteria

/-- The same for arrivals by vehicle. -/
def isCoveredByTransit (p : Profile) (s : SearchState) (stop : StopIndex) (last : Nat)
    (criteria : Criteria) : Bool :=
  (List.range (last + 1)).any fun index =>
    ((s.round index).transitFront stop).covers p.atLeastAsGood criteria

/-- The earliest arrival at a stop in the rounds up to a given one. -/
def bestArrival? (s : SearchState) (stop : StopIndex) (last : Nat) : Option SearchTime :=
  earliest? ((List.range (last + 1)).flatMap fun index =>
    ((s.round index).front stop).map (·.2.arrival))

/-- The same for arrivals by vehicle. -/
def bestTransitArrival? (s : SearchState) (stop : StopIndex) (last : Nat) : Option SearchTime :=
  earliest? ((List.range (last + 1)).flatMap fun index =>
    ((s.round index).transitFront stop).map (·.2.arrival))

/-- Adds an arrival that is not covered in its round. -/
def insert (p : Profile) (s : SearchState) (stop : StopIndex) (round : Nat) (node : NodeIndex)
    (criteria : Criteria) : SearchState :=
  { s with rounds := s.rounds.modify round fun r =>
      { r with
        all := r.all.modify stop fun front => front.pruneAndPush p.atLeastAsGood node criteria
        touched := r.touched.touch stop } }

/-- Adds an arrival by vehicle that is not covered by those of its round. -/
def insertTransit (p : Profile) (s : SearchState) (stop : StopIndex) (round : Nat)
    (node : NodeIndex) (criteria : Criteria) : SearchState :=
  { s with rounds := s.rounds.modify round fun r =>
      { r with
        transit := r.transit.modify stop fun front =>
          front.pruneAndPush p.atLeastAsGood node criteria
        touchedByTransit := r.touchedByTransit.touch stop } }

def pushNode (s : SearchState) (node : Node) : SearchState :=
  { s with tree := s.tree.push node }

/-- Adds an arrival at the destination, unless one is at least as good. -/
def arrive (p : Profile) (s : SearchState) (arrived : Arrived) (criteria : ArrivalCriteria) :
    SearchState :=
  { s with arrived := s.arrived.add p.atLeastAsGoodAtDestination arrived criteria }

/-- Begins with the next departure time. -/
def nextIteration (s : SearchState) : SearchState :=
  { s with rounds := s.rounds.map Round.clearStops, iteration := s.iteration + 1 }

end SearchState

end JourneyPlanner
