import JourneyPlanner.Proofs.Request.Context
import JourneyPlanner.Proofs.Solver.Batch
import JourneyPlanner.Solver.Basic
import Mathlib.Data.List.Induction

/-!
A batch under way while the network changes. The workers solve their queries on the snapshot that
was current when the batch started, so updates, installed or refused, make no difference to them;
and the order of the steps makes none to the results, which are those of solving the queries one by
one.
-/

namespace JourneyPlanner

namespace Solver

/-- The result of a query of a batch, by its number. -/
def resultOf (config : SolverConfig) (layer : Layer) (queries : List JourneyQuery) (index : Nat) :
    SolverResult :=
  match queries[index]? with
  | some query => solveOn config layer query
  | none => .error .unsolved

/-- A solver with a batch under way. -/
structure Session where
  solver : Solver
  /-- The snapshot that was current when the batch started. -/
  snapshot : Snapshot
  batch : Batch.State SolverResult

namespace Session

/-- What may happen during a batch. -/
inductive Event where
  /-- A step of a worker. -/
  | work (worker : Nat)
  | update (network : Network)

def Event.worker? : Event → Option Nat
  | work worker => some worker
  | update _ => none

def start (s : Solver) (nbOfQueries : Nat) : Session :=
  ⟨s, s.store.snapshot, Batch.start (nbOfWorkers s.config nbOfQueries)⟩

/-- An update that is refused leaves the solver as it is. -/
def step (queries : List JourneyQuery) (t : Session) : Event → Session
  | .work worker =>
      let solve := resultOf t.solver.config t.snapshot.layer queries
      { t with batch := Batch.step solve queries.length t.batch worker }
  | .update network =>
      match t.solver.update network with
      | .ok solver => { t with solver := solver }
      | .error _ => t

def run (s : Solver) (queries : List JourneyQuery) (events : List Event) : Session :=
  events.foldl (step queries) (start s queries.length)

def results (t : Session) (nbOfQueries : Nat) : List SolverResult :=
  (t.batch.results nbOfQueries).map (·.getD (.error .unsolved))

end Session

theorem config_of_update {s t : Solver} {network : Network} (h : s.update network = .ok t) :
    t.config = s.config := by
  simp only [update] at h
  split at h
  · cases h
  · cases h
    rfl

variable (s : Solver) (queries : List JourneyQuery)

theorem Session.run_spec (events : List Session.Event) :
    (run s queries events).solver.config = s.config ∧
      (run s queries events).snapshot = s.store.snapshot ∧
      (run s queries events).batch =
        Batch.run (resultOf s.config s.store.snapshot.layer queries) queries.length
          (nbOfWorkers s.config queries.length) (events.filterMap Event.worker?) := by
  induction events using List.reverseRecOn with
  | nil => exact ⟨rfl, rfl, rfl⟩
  | append_singleton events event ih =>
      obtain ⟨config, snapshot, batch⟩ := ih
      have last : run s queries (events ++ [event]) = step queries (run s queries events) event := by
        rw [run, List.foldl_append]
        rfl
      rw [last]
      cases event with
      | work worker =>
          refine ⟨config, snapshot, ?_⟩
          simp only [step]
          rw [config, snapshot, batch, List.filterMap_append, Batch.run, Batch.run,
            List.foldl_append]
          rfl
      | update network =>
          have idle : (events ++ [Event.update network]).filterMap Event.worker? =
              events.filterMap Event.worker? := by
            simp [Event.worker?]
          rw [idle]
          simp only [step]
          split
          · next installed => exact ⟨(config_of_update installed).trans config, snapshot, batch⟩
          · exact ⟨config, snapshot, batch⟩

theorem nbOfWorkers_pos (config : SolverConfig) (nbOfQueries : Nat) :
    0 < nbOfWorkers config nbOfQueries :=
  Nat.lt_of_lt_of_le Nat.zero_lt_one (Nat.le_max_left _ _)

theorem map_resultOf (config : SolverConfig) (layer : Layer) :
    (List.range queries.length).map (resultOf config layer queries) =
      queries.map (solveOn config layer) := by
  refine List.ext_getElem? fun index => ?_
  rw [List.getElem?_map, List.getElem?_map]
  by_cases inside : index < queries.length
  · simp [resultOf, inside]
  · simp [inside]

theorem solveInOrder_of_isFinished (config : SolverConfig) (layer : Layer) {order : List Nat}
    (finished : (Batch.run (resultOf config layer queries) queries.length
      (nbOfWorkers config queries.length) order).isFinished = true) :
    (Batch.run (resultOf config layer queries) queries.length (nbOfWorkers config queries.length)
        order).solved.Perm (List.range queries.length) ∧
      solveInOrder config layer queries order = queries.map (solveOn config layer) := by
  have some : (Batch.run (resultOf config layer queries) queries.length
      (nbOfWorkers config queries.length) order).workers.toList ≠ [] := by
    rw [← List.length_pos_iff, Array.length_toList, Batch.size_workers_run]
    exact nbOfWorkers_pos config queries.length
  obtain ⟨solved, results⟩ :=
    (Batch.consistent_run _ _ _ order).results_of_isFinished some finished
  have same : solveInOrder config layer queries order = ((Batch.run (resultOf config layer queries)
      queries.length (nbOfWorkers config queries.length) order).results queries.length).map
        (·.getD (.error .unsolved)) := rfl
  refine ⟨solved, ?_⟩
  rw [same, results, List.map_map, ← map_resultOf]
  rfl

/-- However the steps of the workers and the updates of the network follow each other: a worker
with enough steps of its own stops, and when all have stopped each query has been solved once and
the results are those of the queries on the snapshot on which the batch started, in their order. So
they are where the workers make their steps in turn. -/
theorem solveBatch_interleaved (events : List Session.Event) :
    let t := Session.run s queries events
    let steps := events.filterMap Session.Event.worker?
    ((∀ worker < nbOfWorkers s.config queries.length,
        2 * queries.length + 1 ≤ steps.count worker) → t.batch.isFinished = true) ∧
      (t.batch.isFinished = true → t.batch.solved.Perm (List.range queries.length) ∧
        t.results queries.length = queries.map s.solve) ∧
      s.solveBatch queries = queries.map s.solve := by
  intro t steps
  obtain ⟨-, -, batch⟩ := Session.run_spec s queries events
  have inTurn : (Batch.run (resultOf s.config s.store.snapshot.layer queries) queries.length
      (nbOfWorkers s.config queries.length)
      (Batch.inTurn queries.length (nbOfWorkers s.config queries.length))).isFinished = true :=
    Batch.isFinished_run fun _ inside => Nat.le_of_eq (Batch.count_inTurn inside).symm
  refine ⟨fun enough => ?_, fun finished => ?_, ?_⟩
  · rw [batch]
    exact Batch.isFinished_run enough
  · rw [batch] at finished
    rw [Session.results, batch]
    exact solveInOrder_of_isFinished queries s.config s.store.snapshot.layer finished
  · exact (solveInOrder_of_isFinished queries s.config s.store.snapshot.layer inTurn).2

/-- All the way, from the change on, and back. -/
def relayQueries : List JourneyQuery :=
  [⟨[⟨"a", .ofSeconds 0, 0, none, none⟩], [⟨"d", .ofSeconds 0, 0, none, none⟩],
      Request.relay.departure, none⟩,
    ⟨[⟨"c", .ofSeconds 0, 0, none, none⟩], [⟨"d", .ofSeconds 0, 0, none, none⟩],
      Request.relay.departure, none⟩,
    ⟨[⟨"d", .ofSeconds 0, 0, none, none⟩], [⟨"a", .ofSeconds 0, 0, none, none⟩],
      Request.relay.departure, none⟩]

/-- Two workers, an update to a network without stops, and one to a network without its routes. -/
def relayEvents : List Session.Event :=
  [.work 1, .update .empty, .work 0, .work 1, .update { Network.relay with routes := #[] },
    .work 1, .work 0, .work 1, .work 1, .work 0]

theorem solveBatch_interleaved_relay : ∃ s, create .relay { nbWorkers := 2 } = .ok s ∧
    let t := Session.run s relayQueries relayEvents
    t.solver.store.current.number ≠ t.snapshot.number ∧ t.batch.isFinished = true ∧
      t.batch.solved.Perm [0, 1, 2] ∧ t.results 3 = relayQueries.map s.solve := by
  have found : (create .relay { nbWorkers := 2 }).toOption.any (fun s =>
      let t := Session.run s relayQueries relayEvents
      t.solver.store.current.number != t.snapshot.number && t.batch.isFinished) = true := by
    decide +kernel
  obtain ⟨s, created, found⟩ := exists_ok_of_any found
  obtain ⟨updated, finished⟩ := Bool.and_eq_true_iff.1 found
  obtain ⟨-, solved, -⟩ := solveBatch_interleaved s relayQueries relayEvents
  obtain ⟨once, results⟩ := solved finished
  exact ⟨s, created, bne_iff_ne.1 updated, finished, once, results⟩

end Solver

end JourneyPlanner
