import JourneyPlanner.Solver.Batch
import Mathlib.Data.List.Perm.Basic

/-!
The workers of a batch, whatever the order of their steps. The queries taken so far are the first
ones, and each of them is held by one worker, who has solved it or will do so next; a worker stops
only when all queries are taken. So when all workers have stopped each query has been solved once,
and its result stands in its place. No worker waits for another one: two steps of its own for each
query and one more are enough for it to stop.
-/

namespace JourneyPlanner

theorem exists_toList_setIfInBounds {α : Type} {a : Array α} {i : Nat} {x : α}
    (h : a[i]? = some x) :
    ∃ before after, a.toList = before ++ x :: after ∧
      ∀ y, (a.setIfInBounds i y).toList = before ++ y :: after := by
  obtain ⟨inside, same⟩ := Array.getElem?_eq_some_iff.1 h
  have within : i < a.toList.length := inside
  refine ⟨a.toList.take i, a.toList.drop (i + 1), ?_, fun y => ?_⟩
  · rw [← same, ← Array.getElem_toList, ← List.drop_eq_getElem_cons within, List.take_append_drop]
  · rw [Array.toList_setIfInBounds, List.set_eq_take_append_cons_drop, if_pos within]

namespace Batch

variable {ρ : Type} {solve : Nat → ρ} {n : Nat} {s : State ρ}

/-- What one step makes of a worker and of the number of the next query. -/
inductive Acts (solve : Nat → ρ) (n : Nat) : Nat → Worker ρ → Nat → Worker ρ → Prop
  | take {next : Nat} {solved : List (Nat × ρ)} (more : next < n) :
      Acts solve n next ⟨.idle, solved⟩ (next + 1) ⟨.solving next, solved⟩
  | stop {next : Nat} {solved : List (Nat × ρ)} (none : n ≤ next) :
      Acts solve n next ⟨.idle, solved⟩ (next + 1) ⟨.stopped, solved⟩
  | solve {next query : Nat} {solved : List (Nat × ρ)} :
      Acts solve n next ⟨.solving query, solved⟩ next ⟨.idle, solved ++ [(query, solve query)]⟩

theorem step_cases (solve : Nat → ρ) (n : Nat) (s : State ρ) (worker : Nat) :
    (step solve n s worker = s ∧ ∀ w, s.workers[worker]? = some w → w.task = .stopped) ∨
      ∃ w next after, s.workers[worker]? = some w ∧ Acts solve n s.next w next after ∧
        step solve n s worker = ⟨next, s.workers.setIfInBounds worker after⟩ := by
  cases known : s.workers[worker]? with
  | none => exact .inl ⟨by simp [step, known], fun _ impossible => by cases impossible⟩
  | some w =>
      obtain ⟨task, solved⟩ := w
      cases task with
      | stopped =>
          refine .inl ⟨by simp [step, known], fun w same => ?_⟩
          cases same
          rfl
      | solving query => exact .inr ⟨_, _, _, rfl, .solve, by simp [step, known]⟩
      | idle =>
          by_cases more : s.next < n
          · exact .inr ⟨_, _, _, rfl, .take more, by simp [step, known, more]⟩
          · exact .inr ⟨_, _, _, rfl, .stop (Nat.not_lt.1 more), by simp [step, known, more]⟩

/-! What the workers hold. -/

/-- The query that a worker will solve next. -/
def Task.query? : Task → Option Nat
  | solving query => some query
  | _ => none

/-- The queries that a worker has taken. -/
def Worker.taken (w : Worker ρ) : List Nat :=
  w.solved.map (·.1) ++ w.task.query?.toList

def State.taken (s : State ρ) : List Nat :=
  s.workers.toList.flatMap Worker.taken

/-- The queries that are solved. -/
def State.solved (s : State ρ) : List Nat :=
  s.workers.toList.flatMap fun w => w.solved.map (·.1)

structure Consistent (solve : Nat → ρ) (n : Nat) (s : State ρ) : Prop where
  taken : s.taken.Perm (List.range (min s.next n))
  right : ∀ w ∈ s.workers.toList, ∀ entry ∈ w.solved, entry.2 = solve entry.1
  stopped : ∀ w ∈ s.workers.toList, w.task = .stopped → n ≤ s.next

theorem consistent_start (solve : Nat → ρ) (n nbOfWorkers : Nat) :
    Consistent solve n (start nbOfWorkers) := by
  have idle : ∀ w ∈ (start nbOfWorkers : State ρ).workers.toList, w = ⟨.idle, []⟩ := by
    intro w member
    rw [start, Array.toList_replicate] at member
    exact List.eq_of_mem_replicate member
  refine ⟨?_, fun w member entry among => ?_, fun w member stopped => ?_⟩
  · have nothing : (start nbOfWorkers : State ρ).taken = [] := by
      rw [State.taken, List.flatMap_eq_nil_iff]
      intro w member
      rw [idle w member]
      rfl
    rw [nothing, start, Nat.zero_min]
    exact .nil
  · rw [idle w member] at among
    cases among
  · rw [idle w member] at stopped
    cases stopped

theorem Acts.exists_taken {w after : Worker ρ} {next following : Nat}
    (h : Acts solve n next w following after) :
    ∃ new, after.taken = w.taken ++ new ∧
      List.range (min following n) = List.range (min next n) ++ new := by
  cases h with
  | take more =>
      refine ⟨[next], by simp [Worker.taken, Task.query?], ?_⟩
      rw [Nat.min_eq_left more, Nat.min_eq_left (Nat.le_of_lt more), List.range_succ]
  | stop none =>
      refine ⟨[], by simp [Worker.taken, Task.query?], ?_⟩
      rw [Nat.min_eq_right none, Nat.min_eq_right (Nat.le_succ_of_le none), List.append_nil]
  | solve => exact ⟨[], by simp [Worker.taken, Task.query?], (List.append_nil _).symm⟩

theorem Acts.next_le {w after : Worker ρ} {next following : Nat}
    (h : Acts solve n next w following after) : next ≤ following := by
  cases h <;> omega

theorem Acts.right {w after : Worker ρ} {next following : Nat}
    (h : Acts solve n next w following after)
    (right : ∀ entry ∈ w.solved, entry.2 = solve entry.1) :
    ∀ entry ∈ after.solved, entry.2 = solve entry.1 := by
  cases h with
  | take => exact right
  | stop => exact right
  | solve =>
      intro entry member
      rcases List.mem_append.1 member with old | new
      · exact right entry old
      · rw [List.mem_singleton.1 new]

theorem Acts.stopped {w after : Worker ρ} {next following : Nat}
    (h : Acts solve n next w following after) (stopped : after.task = .stopped) :
    n ≤ following := by
  cases h with
  | take => cases stopped
  | stop none => exact Nat.le_succ_of_le none
  | solve => cases stopped

theorem Consistent.step (h : Consistent solve n s) (worker : Nat) :
    Consistent solve n (step solve n s worker) := by
  rcases step_cases solve n s worker with ⟨same, -⟩ | ⟨w, next, after, known, acts, changed⟩
  · rwa [same]
  · obtain ⟨before, rest, held, replaced⟩ := exists_toList_setIfInBounds known
    have others : ∀ v ∈ before ++ after :: rest, v = after ∨ v ∈ s.workers.toList := by
      intro v member
      rw [held]
      simp only [List.mem_append, List.mem_cons] at member ⊢
      tauto
    have own : w ∈ s.workers.toList := by
      rw [held]
      simp
    rw [changed]
    refine ⟨?_, fun v member => ?_, fun v member stopped => ?_⟩
    · obtain ⟨new, taken, more⟩ := acts.exists_taken
      have old := h.taken
      rw [State.taken, held, List.flatMap_append, List.flatMap_cons, ← List.append_assoc] at old
      have last : (before.flatMap Worker.taken ++ w.taken ++ (new ++ rest.flatMap Worker.taken)).Perm
          (before.flatMap Worker.taken ++ w.taken ++ (rest.flatMap Worker.taken ++ new)) :=
        List.perm_append_comm.append_left _
      rw [State.taken, replaced, List.flatMap_append, List.flatMap_cons, taken, more,
        List.append_assoc w.taken, ← List.append_assoc]
      rw [← List.append_assoc _ _ new] at last
      exact last.trans (old.append_right new)
    · rw [replaced] at member
      rcases others v member with rfl | old
      · exact acts.right (h.right w own)
      · exact h.right v old
    · rw [replaced] at member
      rcases others v member with rfl | old
      · exact acts.stopped stopped
      · exact Nat.le_trans (h.stopped v old stopped) acts.next_le

theorem consistent_run (solve : Nat → ρ) (n nbOfWorkers : Nat) (order : List Nat) :
    Consistent solve n (run solve n nbOfWorkers order) :=
  List.foldlRecOn (motive := Consistent solve n) order _ (consistent_start solve n nbOfWorkers)
    fun _ consistent worker _ => consistent.step worker

/-! The results of a batch. -/

theorem getElem?_fill {entries : List (Nat × ρ)}
    (right : ∀ entry ∈ entries, entry.2 = solve entry.1) (start : Array (Option ρ)) (query : Nat) :
    (entries.foldl (fun results entry => results.setIfInBounds entry.1 (some entry.2)) start)[query]? =
      if query < start.size ∧ query ∈ entries.map (·.1) then some (some (solve query))
      else start[query]? := by
  induction entries generalizing start with
  | nil => simp
  | cons entry rest ih =>
      have own : entry.2 = solve entry.1 := right entry List.mem_cons_self
      have later := ih (fun e member => right e (List.mem_cons_of_mem _ member))
        (start.setIfInBounds entry.1 (some entry.2))
      rw [List.foldl_cons, later, Array.size_setIfInBounds, Array.getElem?_setIfInBounds, own]
      by_cases same : entry.1 = query
      · subst same
        by_cases inside : entry.1 < start.size <;> simp [inside]
      · have other : ¬query = entry.1 := fun equal => same equal.symm
        simp only [if_neg same, List.map_cons, List.mem_cons, other, false_or]

/-- When all workers of a batch have stopped, each query has been solved once, and the results are
those of the queries in their order. -/
theorem Consistent.results_of_isFinished (h : Consistent solve n s) (some : s.workers.toList ≠ [])
    (finished : s.isFinished = true) :
    s.solved.Perm (List.range n) ∧
      s.results n = (List.range n).map fun query => Option.some (solve query) := by
  have stopped : ∀ w ∈ s.workers.toList, w.task = .stopped := by
    intro w member
    rw [State.isFinished, Array.all_eq_true'] at finished
    exact eq_of_beq (finished w (Array.mem_toList_iff.1 member))
  obtain ⟨w, own⟩ := List.exists_mem_of_ne_nil _ some
  have all : min s.next n = n := Nat.min_eq_right (h.stopped w own (stopped w own))
  have taken : s.taken = s.solved := by
    refine List.flatMap_congr fun w member => ?_
    rw [Worker.taken, stopped w member]
    exact List.append_nil _
  have solved : s.solved.Perm (List.range n) := by
    rw [← taken, ← all]
    exact h.taken
  refine ⟨solved, ?_⟩
  have right : ∀ entry ∈ s.workers.toList.flatMap Worker.solved, entry.2 = solve entry.1 := by
    intro entry member
    obtain ⟨w, among, inside⟩ := List.mem_flatMap.1 member
    exact h.right w among entry inside
  have numbers : (s.workers.toList.flatMap Worker.solved).map (·.1) = s.solved :=
    List.map_flatMap
  refine List.ext_getElem? fun query => ?_
  rw [State.results, Array.getElem?_toList, getElem?_fill right, numbers]
  simp only [solved.mem_iff, Array.size_replicate, List.mem_range, and_self, List.getElem?_map,
    Array.getElem?_replicate]
  split
  · next inside => rw [List.getElem?_range inside, Option.map_some]
  · next outside => rw [List.getElem?_eq_none (by simpa using outside), Option.map_none]

/-! The steps that are left to a worker. -/

def Worker.stepsLeft (n next : Nat) (w : Worker ρ) : Nat :=
  match w.task with
  | .stopped => 0
  | .idle => 2 * (n - next) + 1
  | .solving _ => 2 * (n - next) + 2

theorem Worker.stepsLeft_le {next following : Nat} (later : next ≤ following) (w : Worker ρ) :
    w.stepsLeft n following ≤ w.stepsLeft n next := by
  simp only [stepsLeft]
  split <;> omega

theorem Acts.stepsLeft_lt {w after : Worker ρ} {next following : Nat}
    (h : Acts solve n next w following after) :
    after.stepsLeft n following < w.stepsLeft n next := by
  cases h <;> simp only [Worker.stepsLeft] <;> omega

/-- The steps of its own that a worker makes before it stops, at most. -/
def State.stepsLeft (n : Nat) (s : State ρ) (worker : Nat) : Nat :=
  (s.workers[worker]?.map (Worker.stepsLeft n s.next)).getD 0

theorem stepsLeft_step (solve : Nat → ρ) (n : Nat) (s : State ρ) (acting worker : Nat) :
    (step solve n s acting).stepsLeft n worker ≤
      s.stepsLeft n worker - if acting = worker then 1 else 0 := by
  rcases step_cases solve n s acting with ⟨same, stopped⟩ | ⟨w, next, after, known, acts, changed⟩
  · rw [same]
    split
    · next own =>
        subst own
        cases known : s.workers[acting]? with
        | none => simp [State.stepsLeft, known]
        | some w => simp [State.stepsLeft, known, Worker.stepsLeft, stopped w known]
    · exact Nat.le_refl _
  · rw [changed]
    simp only [State.stepsLeft, Array.getElem?_setIfInBounds]
    split
    · next own =>
        subst own
        have less := acts.stepsLeft_lt
        have inside := (Array.getElem?_eq_some_iff.1 known).1
        rw [if_pos inside, known, Option.map_some, Option.map_some, Option.getD_some,
          Option.getD_some]
        omega
    · cases s.workers[worker]? with
      | none => exact Nat.le_refl _
      | some other => exact Worker.stepsLeft_le acts.next_le other

theorem stepsLeft_foldl (solve : Nat → ρ) (n : Nat) (s : State ρ) (order : List Nat)
    (worker : Nat) :
    (order.foldl (step solve n) s).stepsLeft n worker ≤
      s.stepsLeft n worker - order.count worker := by
  induction order generalizing s with
  | nil => exact Nat.le_refl _
  | cons acting rest ih =>
      have here := stepsLeft_step solve n s acting worker
      have later := ih (step solve n s acting)
      rw [List.foldl_cons, List.count_cons]
      simp only [beq_iff_eq]
      omega

theorem stopped_run {nbOfWorkers : Nat} {order : List Nat} {worker : Nat}
    (enough : 2 * n + 1 ≤ order.count worker) {w : Worker ρ}
    (known : (run solve n nbOfWorkers order).workers[worker]? = some w) : w.task = .stopped := by
  have first : (start nbOfWorkers : State ρ).stepsLeft n worker ≤ 2 * n + 1 := by
    simp only [State.stepsLeft, start, Array.getElem?_replicate]
    split
    · exact Nat.le_refl _
    · exact Nat.zero_le _
  have left := stepsLeft_foldl solve n (start nbOfWorkers) order worker
  have none : (run solve n nbOfWorkers order).stepsLeft n worker = 0 := by
    rw [run]
    omega
  rw [State.stepsLeft, known, Option.map_some, Option.getD_some, Worker.stepsLeft] at none
  split at none
  · assumption
  · cases none
  · cases none

theorem size_workers_run (solve : Nat → ρ) (n nbOfWorkers : Nat) (order : List Nat) :
    (run solve n nbOfWorkers order).workers.size = nbOfWorkers := by
  refine List.foldlRecOn (motive := fun s : State ρ => s.workers.size = nbOfWorkers)
    order _ ?_ fun s size worker _ => ?_
  · exact Array.size_replicate
  · rcases step_cases solve n s worker with ⟨same, -⟩ | ⟨_, _, _, -, -, changed⟩
    · rw [same, size]
    · rw [changed, Array.size_setIfInBounds, size]

theorem isFinished_run {nbOfWorkers : Nat} {order : List Nat}
    (enough : ∀ worker < nbOfWorkers, 2 * n + 1 ≤ order.count worker) :
    (run solve n nbOfWorkers order).isFinished = true := by
  rw [State.isFinished, Array.all_eq_true]
  intro worker inside
  have within : worker < nbOfWorkers := by
    rwa [size_workers_run] at inside
  exact beq_iff_eq.2 (stopped_run (enough worker within) (Array.getElem?_eq_getElem inside))

theorem count_inTurn {nbOfWorkers worker : Nat} (inside : worker < nbOfWorkers) :
    (inTurn n nbOfWorkers).count worker = 2 * n + 1 := by
  have once : (List.range nbOfWorkers).count worker = 1 :=
    List.count_range.trans (if_pos inside)
  simp [inTurn, List.count_flatMap, Function.comp_def, once]

end Batch

end JourneyPlanner
