/-!
Sets of texts, kept as lists in strictly increasing order, so that equal sets are equal lists. Texts
are ordered by their code points.
-/

namespace JourneyPlanner.Text

/-- Adds a text to an increasing list, which stays increasing. -/
def insertOrdered (text : String) : List String → List String
  | [] => [text]
  | other :: rest =>
      if text = other then other :: rest
      else if text < other then text :: other :: rest
      else other :: insertOrdered text rest

theorem mem_insertOrdered {x text : String} {set : List String} :
    x ∈ insertOrdered text set ↔ x = text ∨ x ∈ set := by
  induction set with
  | nil => simp [insertOrdered]
  | cons other rest ih =>
      rw [insertOrdered]
      split
      · next h => subst h; simp
      · split
        · simp
        · simp only [List.mem_cons, ih]
          grind

def orderedSet (texts : List String) : List String :=
  texts.foldl (fun set text => insertOrdered text set) []

theorem mem_foldl_insertOrdered {x : String} {texts set : List String} :
    x ∈ texts.foldl (fun set text => insertOrdered text set) set ↔ x ∈ set ∨ x ∈ texts := by
  induction texts generalizing set with
  | nil => simp
  | cons text rest ih => simp only [List.foldl_cons, ih, mem_insertOrdered, List.mem_cons]; grind

theorem mem_orderedSet {x : String} {texts : List String} : x ∈ orderedSet texts ↔ x ∈ texts := by
  simp [orderedSet, mem_foldl_insertOrdered]

end JourneyPlanner.Text
