import JourneyPlanner.Config.Solver
import JourneyPlanner.Layer.Store
import JourneyPlanner.Solver.Batch

/-!
A solver answers queries on the current snapshot of a network, one by one or in batches. All the
queries of a batch are solved on the snapshot that is current when the batch starts.
-/

namespace JourneyPlanner

structure Solver where
  store : LayerStore
  config : SolverConfig

inductive SolverError where
  | build (error : BuildError)
  | update (error : StoreError)
  | parameter (error : InvalidParameter)
  | routing (error : RoutingError)
  | unsolved

/-- What is said about an error, from the outside to its first cause. -/
def SolverError.chain : SolverError → List String
  | build error => "Could not build the transit layer" :: error.message :: error.causes
  | update error =>
      "Transit layer update failed, keeping the previous one" :: error.message :: error.causes
  | parameter error => [error.message]
  | routing error => error.message :: error.causes
  | unsolved => ["The worker solving this request panicked"]

abbrev SolverResult := Except SolverError Response

namespace Solver

def create (network : Network) (config : SolverConfig) : Except SolverError Solver :=
  match LayerStore.ofNetwork network with
  | .error error => .error (.build error)
  | .ok store => .ok ⟨store, config⟩

/-- Installs a snapshot of a network; when it cannot be built the solver stays as it is. -/
def update (s : Solver) (network : Network) : Except SolverError Solver :=
  match s.store.rebuild network with
  | .error error => .error (.update error)
  | .ok (_, store) => .ok { s with store := store }

def solveOn (config : SolverConfig) (layer : Layer) (query : JourneyQuery) : SolverResult :=
  match (query.params.getD config.params).toRequest query.access query.egress query.departure with
  | .error error => .error (.parameter error)
  | .ok request => (layer.route request).mapError .routing

def solve (s : Solver) (query : JourneyQuery) : SolverResult :=
  solveOn s.config s.store.snapshot.layer query

/-- At least one worker, and no more than there are queries. -/
def nbOfWorkers (config : SolverConfig) (nbOfQueries : Nat) : Nat :=
  max 1 (min config.nbWorkers (max nbOfQueries 1))

/-- The results of a batch whose workers make their steps in a given order. -/
def solveInOrder (config : SolverConfig) (layer : Layer) (queries : List JourneyQuery)
    (order : List Nat) : List SolverResult :=
  let solve (index : Nat) : SolverResult := match queries[index]? with
    | some query => solveOn config layer query
    | none => .error .unsolved
  let count := queries.length
  ((Batch.run solve count (nbOfWorkers config count) order).results count).map
    (·.getD (.error .unsolved))

/-- The results of a batch, in the order of its queries. -/
def solveBatch (s : Solver) (queries : List JourneyQuery) : List SolverResult :=
  solveInOrder s.config s.store.snapshot.layer queries
    (Batch.inTurn queries.length (nbOfWorkers s.config queries.length))

end Solver

end JourneyPlanner
