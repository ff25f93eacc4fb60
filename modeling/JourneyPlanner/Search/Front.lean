/-!
Fronts of items with criteria, none of which is at least as good as another one. The relation that
compares the criteria is an argument of each operation. Items stay in the order in which they were
added.
-/

namespace JourneyPlanner

abbrev Front (α C : Type) := List (α × C)

namespace Front

/-- Whether an element is at least as good as the criteria. -/
def covers (le : C → C → Bool) (front : Front α C) (criteria : C) : Bool :=
  front.any fun element => le element.2 criteria

/-- Adds an item without any comparison. -/
def push (front : Front α C) (item : α) (criteria : C) : Front α C :=
  front ++ [(item, criteria)]

/-- Removes the elements that the criteria are at least as good as. -/
def prune (le : C → C → Bool) (front : Front α C) (criteria : C) : Front α C :=
  front.filter fun element => !le criteria element.2

/-- Adds an item that is known not to be covered. -/
def pruneAndPush (le : C → C → Bool) (front : Front α C) (item : α) (criteria : C) : Front α C :=
  push (prune le front criteria) item criteria

/-- Whether adding an item with the criteria inserts it. -/
def inserts (le : C → C → Bool) (front : Front α C) (criteria : C) : Bool :=
  !covers le front criteria

/-- Adds an item unless it is covered. -/
def add (le : C → C → Bool) (front : Front α C) (item : α) (criteria : C) : Front α C :=
  if covers le front criteria then front else pruneAndPush le front item criteria

/-- The front of some candidates, added in order. -/
def ofCandidates (le : C → C → Bool) (candidates : List (α × C)) : Front α C :=
  candidates.foldl (fun front candidate => add le front candidate.1 candidate.2) []

@[simp] theorem covers_nil (le : C → C → Bool) (criteria : C) :
    covers le ([] : Front α C) criteria = false := rfl

theorem mem_pruneAndPush {le : C → C → Bool} {front : Front α C} {item : α} {criteria : C}
    {element : α × C} :
    element ∈ pruneAndPush le front item criteria ↔
      (element ∈ front ∧ le criteria element.2 = false) ∨ element = (item, criteria) := by
  simp [pruneAndPush, push, prune]

end Front

end JourneyPlanner
