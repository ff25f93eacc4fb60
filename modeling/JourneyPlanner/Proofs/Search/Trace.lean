import JourneyPlanner.Proofs.Search.Move

/-!
The lineage of a node, and its trace: the nodes from the leg from the origin to it, without the
numbers they have in their tree. Two searches number their nodes differently; two of their nodes are
twins when their traces are equal. A tree that grows leaves the traces of its nodes alone.
-/

namespace JourneyPlanner

/-- A step without the number of the node it continues. -/
def Step.detached : Step → Step
  | access leg => access leg
  | ride _ line trip boardPosition boardTime debarkPosition =>
      ride 0 line trip boardPosition boardTime debarkPosition
  | walk _ footpath duration => walk 0 footpath duration

namespace Node

def detached (n : Node) : Node :=
  { n with step := n.step.detached }

@[simp] theorem stop_detached (n : Node) : n.detached.stop = n.stop := rfl

@[simp] theorem departure_detached (n : Node) : n.detached.departure = n.departure := rfl

@[simp] theorem iteration_detached (n : Node) : n.detached.iteration = n.iteration := rfl

@[simp] theorem step_detached (n : Node) : n.detached.step = n.step.detached := rfl

end Node

namespace JourneyTree

def trace (t : JourneyTree) (i : NodeIndex) : List Node :=
  (t.lineage i).map fun j => (t.node j).detached

variable {t u v w : JourneyTree} {i j parent : NodeIndex}

theorem lineage_of_first (h : t.parent? i = none) : t.lineage i = [i] := by
  rw [lineage, h]

theorem lineage_of_parent (h : t.parent? i = some parent) (older : parent < i) :
    t.lineage i = t.lineage parent ++ [i] := by
  rw [lineage, h]
  exact if_pos older

theorem lineage_of_newer (h : t.parent? i = some parent) (newer : ¬parent < i) :
    t.lineage i = [i] := by
  rw [lineage, h]
  exact if_neg newer

theorem exists_lineage_eq (t : JourneyTree) (i : NodeIndex) :
    ∃ before, t.lineage i = before ++ [i] := by
  cases known : t.parent? i with
  | none => exact ⟨[], lineage_of_first known⟩
  | some parent =>
      by_cases older : parent < i
      · exact ⟨_, lineage_of_parent known older⟩
      · exact ⟨[], lineage_of_newer known older⟩

theorem le_of_mem_lineage (h : j ∈ t.lineage i) : j ≤ i := by
  induction i using Nat.strongRecOn with
  | ind i ih =>
      cases known : t.parent? i with
      | none =>
          rw [lineage_of_first known] at h
          exact Nat.le_of_eq (List.mem_singleton.1 h)
      | some parent =>
          by_cases older : parent < i
          · rw [lineage_of_parent known older] at h
            rcases List.mem_append.1 h with before | last
            · exact Nat.le_trans (ih parent older before) (Nat.le_of_lt older)
            · exact Nat.le_of_eq (List.mem_singleton.1 last)
          · rw [lineage_of_newer known older] at h
            exact Nat.le_of_eq (List.mem_singleton.1 h)

theorem Extends.lineage_eq (h : t.Extends u) (inside : i < t.size) :
    u.lineage i = t.lineage i := by
  induction i using Nat.strongRecOn with
  | ind i ih =>
      have same : u.parent? i = t.parent? i := by rw [parent?, parent?, h.node_eq i inside]
      cases known : t.parent? i with
      | none => rw [lineage_of_first known, lineage_of_first (same.trans known)]
      | some parent =>
          by_cases older : parent < i
          · rw [lineage_of_parent known older, lineage_of_parent (same.trans known) older,
              ih parent older (Nat.lt_trans older inside)]
          · rw [lineage_of_newer known older, lineage_of_newer (same.trans known) older]

theorem Extends.trace_eq (h : t.Extends u) (inside : i < t.size) : u.trace i = t.trace i := by
  rw [trace, trace, h.lineage_eq inside]
  refine List.map_congr_left fun j member => ?_
  rw [h.node_eq j (Nat.lt_of_le_of_lt (le_of_mem_lineage member) inside)]

theorem exists_trace_eq (t : JourneyTree) (i : NodeIndex) :
    ∃ before, t.trace i = before ++ [(t.node i).detached] := by
  obtain ⟨before, equal⟩ := exists_lineage_eq t i
  exact ⟨before.map fun j => (t.node j).detached, by rw [trace, equal, List.map_append]; rfl⟩

theorem trace_push {node : Node} (h : node.step.parent? = some parent) (older : parent < t.size) :
    (t.push node).trace t.size = t.trace parent ++ [node.detached] := by
  have known : (t.push node).parent? t.size = some parent := by
    rw [parent?, node_push_size, h]
  have grown := Extends.push t node
  rw [trace, lineage_of_parent known older, List.map_append, ← trace, grown.trace_eq older]
  simp

theorem trace_push_first {node : Node} (h : node.step.parent? = none) :
    (t.push node).trace t.size = [node.detached] := by
  have known : (t.push node).parent? t.size = none := by
    rw [parent?, node_push_size, h]
  rw [trace, lineage_of_first known]
  simp

/-- Nodes of two trees that came about in the same way. -/
structure Twins (t u : JourneyTree) (i j : NodeIndex) : Prop where
  left_lt : i < t.size
  right_lt : j < u.size
  trace_eq : t.trace i = u.trace j

theorem Twins.extends (h : Twins t u i j) (tv : t.Extends v) (uw : u.Extends w) :
    Twins v w i j := by
  refine ⟨Nat.lt_of_lt_of_le h.left_lt tv.size_le, Nat.lt_of_lt_of_le h.right_lt uw.size_le, ?_⟩
  rw [tv.trace_eq h.left_lt, uw.trace_eq h.right_lt, h.trace_eq]

theorem Twins.detached_eq (h : Twins t u i j) : (t.node i).detached = (u.node j).detached := by
  obtain ⟨before, left⟩ := exists_trace_eq t i
  obtain ⟨others, right⟩ := exists_trace_eq u j
  have equal := h.trace_eq
  rw [left, right] at equal
  exact (List.append_singleton_inj.1 equal).2

theorem Twins.stop_eq (h : Twins t u i j) : (t.node i).stop = (u.node j).stop := by
  simpa using congrArg Node.stop h.detached_eq

theorem Twins.departure_eq (h : Twins t u i j) : (t.node i).departure = (u.node j).departure := by
  simpa using congrArg Node.departure h.detached_eq

theorem Twins.iteration_eq (h : Twins t u i j) : t.iteration i = u.iteration j := by
  simpa [iteration] using congrArg Node.iteration h.detached_eq

theorem Twins.isAccess_eq (h : Twins t u i j) :
    (t.node i).step.isAccess = (u.node j).step.isAccess := by
  have equal : (t.node i).step.detached = (u.node j).step.detached := by
    simpa using congrArg Node.step h.detached_eq
  have kind (step : Step) : step.isAccess = step.detached.isAccess := by
    cases step <;> rfl
  rw [kind, equal, ← kind]

/-- Two nodes continue twins, or neither continues a node. -/
def TwinParents (t u : JourneyTree) (n m : Node) : Prop :=
  (n.step.parent? = none ∧ m.step.parent? = none) ∨
    ∃ p q, n.step.parent? = some p ∧ m.step.parent? = some q ∧ Twins t u p q

theorem twins_push {n m : Node} (h : TwinParents t u n m) (same : n.detached = m.detached) :
    Twins (t.push n) (u.push m) t.size u.size := by
  refine ⟨by simp, by simp, ?_⟩
  rcases h with ⟨left, right⟩ | ⟨p, q, left, right, twins⟩
  · rw [trace_push_first left, trace_push_first right, same]
  · rw [trace_push left twins.left_lt, trace_push right twins.right_lt, twins.trace_eq, same]

end JourneyTree

end JourneyPlanner
