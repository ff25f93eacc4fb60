/-!
Workers that share a batch of queries. An idle worker takes the number of the next query, in one
step that no other worker interrupts; it solves that query in a later step, and stops when there is
no query left. The steps of the workers may come in any order. At the end the results of all
workers are put in the order of the queries.
-/

namespace JourneyPlanner.Batch

inductive Task where
  | idle
  | solving (query : Nat)
  | stopped
deriving DecidableEq, Inhabited

structure Worker (ρ : Type) where
  task : Task
  /-- The results of a worker with the numbers of their queries. -/
  solved : List (Nat × ρ)

structure State (ρ : Type) where
  next : Nat
  workers : Array (Worker ρ)

def start (nbOfWorkers : Nat) : State ρ :=
  ⟨0, Array.replicate nbOfWorkers ⟨.idle, []⟩⟩

/-- One step of a worker. -/
def step (solve : Nat → ρ) (nbOfQueries : Nat) (s : State ρ) (worker : Nat) : State ρ :=
  match s.workers[worker]? with
  | none => s
  | some w =>
      match w.task with
      | .stopped => s
      | .idle =>
          let task := if s.next < nbOfQueries then .solving s.next else .stopped
          ⟨s.next + 1, s.workers.setIfInBounds worker { w with task := task }⟩
      | .solving query =>
          ⟨s.next, s.workers.setIfInBounds worker ⟨.idle, w.solved ++ [(query, solve query)]⟩⟩

/-- The steps of the workers in a given order. -/
def run (solve : Nat → ρ) (nbOfQueries nbOfWorkers : Nat) (order : List Nat) : State ρ :=
  order.foldl (step solve nbOfQueries) (start nbOfWorkers)

def State.isFinished (s : State ρ) : Bool :=
  s.workers.all (·.task == .stopped)

/-- The result of each query, where a worker has solved it. -/
def State.results (s : State ρ) (nbOfQueries : Nat) : List (Option ρ) :=
  let solved := s.workers.toList.flatMap Worker.solved
  (solved.foldl (fun (results : Array (Option ρ)) (query, result) =>
    results.setIfInBounds query (some result)) (Array.replicate nbOfQueries none)).toList

/-- The workers in turn, often enough for a single one to solve all queries and stop. -/
def inTurn (nbOfQueries nbOfWorkers : Nat) : List Nat :=
  (List.range (2 * nbOfQueries + 1)).flatMap fun _ => List.range nbOfWorkers

end JourneyPlanner.Batch
