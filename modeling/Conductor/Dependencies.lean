/-
Dependencies over whole runs: no task starts before its parents have succeeded,
and no run is left waiting for nothing.

Both are read off the invariant. The database keeps neither a set of finished
parents nor a list of blocked descendants, only a counter and a state on each
row; that these stay exact under every order of operations is what `Coherent`
and `counted` of `Inv` say.
-/
import Conductor.Service

set_option autoImplicit false

open Relational Txn

namespace Conductor

open RunRepository TaskQueueRepository WorkflowRepository

variable {checks : Bool} {db : Db}

/-- The task's row in the run is `SUCCEEDED`. -/
def Db.Succeeded (db : Db) (run_id task_id : UUID) : Prop :=
  ∃ r ∈ db.task_runs.rows, r.run_id = run_id ∧ r.task_id = task_id ∧ r.state = .SUCCEEDED

instance (db : Db) (run_id task_id : UUID) : Decidable (db.Succeeded run_id task_id) := by
  unfold Db.Succeeded; infer_instance

theorem Inv.succeeded_iff (hinv : Inv checks db) {run_id task_id : UUID} :
    db.Succeeded run_id task_id ↔ db.status run_id task_id = .done := by
  constructor
  · rintro ⟨r, hr, rfl, rfl, hs⟩
    rw [Db.status_of_mem hinv.unique hr, hs]
    rfl
  · intro h
    obtain ⟨r, hr, h1, h2, hs⟩ := Db.exists_row_of_status hinv.unique h (by decide)
    exact ⟨r, hr, h1, h2, TaskState.status_eq_done.mp hs⟩

/-- The parents of a task that have not succeeded in a run. -/
def Db.unmetParents (db : Db) (run_id task_id : UUID) : Finset UUID :=
  (db.parents task_id).filter (fun p => ¬ db.Succeeded run_id p)

theorem Inv.card_unmetParents (hinv : Inv checks db) (run_id task_id : UUID) :
    (db.unmetParents run_id task_id).card
      = Precedence.unmet db.parents (db.status run_id) task_id := by
  unfold Db.unmetParents Precedence.unmet
  congr 1
  refine Finset.filter_congr (fun p _ => ?_)
  rw [hinv.succeeded_iff]

/-! ## Dependency safety -/

/-- A waiting row counts exactly the parents that have not succeeded, and there is
one. -/
theorem Inv.pending_counts (hinv : Inv checks db) {r : TaskRun} (hr : r ∈ db.task_runs.rows)
    (hs : r.state = .PENDING) :
    1 ≤ r.pending_deps ∧ r.pending_deps = (db.unmetParents r.run_id r.task_id).card := by
  have hpos := (hinv.coherent r.run_id).waiting r.task_id (by
    rw [Db.status_of_mem hinv.unique hr, hs]
    rfl)
  have hcount := hinv.counted r hr hs
  rw [hinv.card_unmetParents]
  omega

/-- The parents of a row that is past waiting have succeeded. -/
theorem Inv.parents_succeeded (hinv : Inv checks db) {r : TaskRun} (hr : r ∈ db.task_runs.rows)
    (hs : r.state ∈ [TaskState.READY, .RUNNING, .SUCCEEDED, .DEAD_LETTER]) :
    ∀ p ∈ db.parents r.task_id, db.Succeeded r.run_id p := by
  intro p hp
  rw [hinv.succeeded_iff]
  refine (hinv.coherent r.run_id).released r.task_id ?_ p hp
  rw [Db.status_of_mem hinv.unique hr]
  simp only [List.mem_cons, List.not_mem_nil, or_false] at hs
  rcases hs with hs | hs | hs | hs <;> rw [hs]
  · exact Or.inl rfl
  · exact Or.inl rfl
  · exact Or.inr (Or.inl rfl)
  · exact Or.inr (Or.inr rfl)

/-- **Dependency safety.** In every reachable database a `PENDING` row counts its
unfinished parents, at least one; a row that is `READY` or beyond has all of its
parents `SUCCEEDED` in its run; so every task that a claim hands out has. -/
theorem dependencies_respected (h : Reachable checks db) :
    (∀ r ∈ db.task_runs.rows, r.state = .PENDING →
      1 ≤ r.pending_deps ∧ r.pending_deps = (db.unmetParents r.run_id r.task_id).card) ∧
    (∀ r ∈ db.task_runs.rows,
      r.state ∈ [TaskState.READY, .RUNNING, .SUCCEEDED, .DEAD_LETTER] →
      ∀ p ∈ db.parents r.task_id, db.Succeeded r.run_id p) ∧
    (∀ lease_seconds clock tie worker_id limit db' results,
      exec (store checks) (claim_batch lease_seconds clock tie worker_id limit) db
        = .ok (db', results) →
      ∀ c ∈ results, ∃ r ∈ db.task_runs.rows, r.id = c.task_run_id ∧ r.run_id = c.run_id ∧
        ∀ p ∈ db.parents r.task_id, db.Succeeded r.run_id p) := by
  have hinv := h.inv
  refine ⟨fun r hr hs => hinv.pending_counts hr hs, fun r hr hs => hinv.parents_succeeded hr hs,
    fun lease_seconds clock tie worker_id limit db' results hexec c hc => ?_⟩
  obtain ⟨r, hr, hpicked, hid, hrun, -⟩ := claimed_task hinv hexec hc
  exact ⟨r, hr, hid.symm, hrun.symm,
    hinv.parents_succeeded hr (by rw [picked_state hr hpicked]; decide)⟩

/-- The second task of a chain waits for one parent until the first has
succeeded. -/
theorem dependencies_respected_chain :
    (∀ r ∈ (served true (chainStart noRetry)).task_runs.rows, r.state = .PENDING →
      1 ≤ r.pending_deps) ∧
    (served true (chainStart noRetry)).task_runs.rows.map TaskRun.pending_deps = [0, 1] :=
  ⟨fun r hr hs => ((dependencies_respected (reachable_served true (chainStart noRetry))).1
    r hr hs).1, by decide +kernel⟩

/-! ## No hung run -/

/-- Some task that is strictly above `task_id` is `READY` or `RUNNING` in the run. -/
def Db.ActiveAbove (db : Db) (run_id task_id : UUID) : Prop :=
  ∃ r ∈ db.task_runs.rows, r.run_id = run_id ∧ Precedence.Below db.parents r.task_id task_id ∧
    (r.state = .READY ∨ r.state = .RUNNING)

/-- What a waiting row waits for. -/
theorem Inv.active_above (hinv : Inv checks db) {r : TaskRun} (hr : r ∈ db.task_runs.rows)
    (hs : r.state = .PENDING) : db.ActiveAbove r.run_id r.task_id := by
  have hwaiting : db.status r.run_id r.task_id = .waiting := by
    rw [Db.status_of_mem hinv.unique hr, hs]
    rfl
  obtain ⟨a, hbelow, ha⟩ :=
    (hinv.coherent r.run_id).enabled_above hinv.definitions.wellFounded hwaiting
  obtain ⟨s, hs, hrun, rfl, henabled⟩ := Db.exists_row_of_status hinv.unique ha (by decide)
  refine ⟨s, hs, hrun, hbelow, ?_⟩
  rcases TaskState.status_eq_enabled.mp henabled with h | h | h
  · exact Or.inl h
  · exact Or.inr h
  · exact absurd h (hinv.good.lawful s hs).not_retrying

/-- A row that is not terminal is `PENDING`, `READY` or `RUNNING`. -/
theorem TaskRun.Lawful.active_cases {r : TaskRun} (h : r.Lawful)
    (hs : r.state.is_terminal = false) :
    r.state = .PENDING ∨ r.state = .READY ∨ r.state = .RUNNING := by
  have := h.not_retrying
  cases hr : r.state <;> simp_all [TaskState.is_terminal]

/-- **No hung run.** In every reachable database a `PENDING` row has a strict
ancestor that is `READY` or `RUNNING` in its run. Hence a run with neither has
terminal rows only, and its derived state is terminal. -/
theorem no_hung_run (h : Reachable checks db) :
    (∀ r ∈ db.task_runs.rows, r.state = .PENDING → db.ActiveAbove r.run_id r.task_id) ∧
    (∀ run ∈ db.workflow_runs.rows,
      (∀ r ∈ db.runTasks run.id, r.state ≠ .READY ∧ r.state ≠ .RUNNING) →
      (∀ r ∈ db.runTasks run.id, r.state.is_terminal = true) ∧
        (derive_run_state (db.taskStates run.id)).is_terminal = true) := by
  have hinv := h.inv
  refine ⟨fun r hr hs => hinv.active_above hr hs, fun run hrun hidle => ?_⟩
  have hterminal : ∀ r ∈ db.runTasks run.id, r.state.is_terminal = true := by
    intro r hr
    obtain ⟨hmem, hid⟩ := List.mem_filter.mp hr
    simp only [decide_eq_true_eq] at hid
    cases hs : r.state.is_terminal with
    | true => rfl
    | false =>
        rcases (hinv.good.lawful r hmem).active_cases hs with hp | hp | hp
        · obtain ⟨s, hmem', hrun', -, hactive⟩ := hinv.active_above hmem hp
          have hnot := hidle s (List.mem_filter.mpr ⟨hmem', by simp [hrun', hid]⟩)
          rcases hactive with ha | ha
          · exact absurd ha hnot.1
          · exact absurd ha hnot.2
        · exact absurd hp (hidle r hr).1
        · exact absurd hp (hidle r hr).2
  refine ⟨hterminal, derive_is_terminal.mpr ⟨?_, ?_⟩⟩
  · obtain ⟨-, r, hr, hid⟩ := hinv.materialised run hrun
    exact List.ne_nil_of_mem (List.mem_map_of_mem (List.mem_filter.mpr ⟨hr, by simpa using hid⟩))
  · intro s hs
    obtain ⟨r, hr, rfl⟩ := List.mem_map.mp hs
    exact hterminal r hr

/-- The first task of a chain fails for good and takes the second with it. -/
theorem no_hung_run_after_failure :
    let db := served true (chainStart noRetry ++ [claimAt 0 "w1",
      .failure (clockAt 1) (fun x => x) 12 "w1" "boom"])
    (∀ run ∈ db.workflow_runs.rows, (derive_run_state (db.taskStates run.id)).is_terminal = true) ∧
    db.task_runs.rows.map TaskRun.state = [.DEAD_LETTER, .BLOCKED] := by
  refine ⟨fun run hrun => ((no_hung_run (reachable_served true _)).2 run hrun ?_).2,
    by decide +kernel⟩
  intro r hr
  have hall : ∀ r ∈ (served true (chainStart noRetry ++ [claimAt 0 "w1",
      .failure (clockAt 1) (fun x => x) 12 "w1" "boom"])).task_runs.rows,
      r.state ≠ .READY ∧ r.state ≠ .RUNNING := by decide +kernel
  exact hall r (List.mem_filter.mp hr).1

end Conductor
