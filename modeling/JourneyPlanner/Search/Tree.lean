import JourneyPlanner.Search.Criteria
import JourneyPlanner.Timetable.Basic

/-!
The partial journeys of a search. Each one is a node that knows the node it continues, so journeys
share their beginnings. Nodes are numbered in the order of their creation and are never removed
while a search runs.
-/

namespace JourneyPlanner

abbrev NodeIndex := Nat

/-- How a node was reached. A vehicle is boarded at the stop of the parent. -/
inductive Step where
  /-- On foot from the origin, by a leg of the search. -/
  | access (leg : Nat)
  | ride (parent : NodeIndex) (line : LineIndex) (trip : TripOnDay) (boardPosition : Nat)
      (boardTime : SearchTime) (debarkPosition : Nat)
  | walk (parent : NodeIndex) (footpath : FootpathIndex) (duration : Duration)
deriving Inhabited

namespace Step

def parent? : Step → Option NodeIndex
  | access _ => none
  | ride parent .. => some parent
  | walk parent .. => some parent

def isAccess : Step → Bool
  | access _ => true
  | _ => false

def isRide : Step → Bool
  | ride .. => true
  | _ => false

end Step

structure Node where
  stop : StopIndex
  criteria : Criteria
  /-- When the journey leaves the origin: as late as its first vehicle allows. -/
  departure : SearchTime
  /-- The departure time of the range that made this node, counted from one. -/
  iteration : Nat
  step : Step
deriving Inhabited

structure JourneyTree where
  nodes : Array Node

namespace JourneyTree

def empty : JourneyTree := ⟨#[]⟩

def size (t : JourneyTree) : Nat :=
  t.nodes.size

def isEmpty (t : JourneyTree) : Bool :=
  t.nodes.isEmpty

def node (t : JourneyTree) (index : NodeIndex) : Node :=
  t.nodes.getD index default

def iteration (t : JourneyTree) (index : NodeIndex) : Nat :=
  (t.node index).iteration

def parent? (t : JourneyTree) (index : NodeIndex) : Option NodeIndex :=
  (t.node index).step.parent?

/-- The new node gets the number of nodes before it as its index. -/
def push (t : JourneyTree) (node : Node) : JourneyTree :=
  ⟨t.nodes.push node⟩

/-- A node that leaves the origin by a leg of the search. -/
def accessNode (leg : Nat) (stop : StopIndex) (criteria : Criteria) (departure : SearchTime)
    (iteration : Nat) : Node :=
  ⟨stop, criteria, departure, iteration, .access leg⟩

/-- A node reached on foot departs with its parent. -/
def walkNode (t : JourneyTree) (parent : NodeIndex) (footpath : FootpathIndex)
    (duration : Duration) (stop : StopIndex) (criteria : Criteria) (iteration : Nat) : Node :=
  ⟨stop, criteria, (t.node parent).departure, iteration, .walk parent footpath duration⟩

@[simp] theorem size_push (t : JourneyTree) (node : Node) : (t.push node).size = t.size + 1 := by
  simp [push, size]

theorem node_push_of_lt {t : JourneyTree} {node : Node} {index : NodeIndex}
    (h : index < t.size) : (t.push node).node index = t.node index := by
  simp only [size] at h
  simp [JourneyTree.node, push, Array.getElem?_push, Nat.ne_of_lt h]

@[simp] theorem node_push_size (t : JourneyTree) (node : Node) :
    (t.push node).node t.size = node := by
  simp [JourneyTree.node, push, size]

/-- The nodes from the access leg to a node. A parent is always older than its node. -/
def lineage (t : JourneyTree) (index : NodeIndex) : List NodeIndex :=
  match t.parent? index with
  | some parent => if parent < index then lineage t parent ++ [index] else [index]
  | none => [index]
termination_by index

end JourneyTree

end JourneyPlanner
