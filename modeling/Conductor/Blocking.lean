/-
The blocking walk of `_block_descendants`, by itself and after a terminal failure.

The walk asks nothing of what it finds: the dependencies may go round in a circle and the
rows may be in any states. Every level that goes on has taken a row out of `PENDING` and
`READY` for good, so it ends after as many levels as there are such rows at most.

It stops at the first level that has no row to take, whatever lies below that level. In
the states of the queue nothing does: what is below a running task waits or is blocked,
and below a blocked row everything is blocked already.
-/
import Conductor.Service

set_option autoImplicit false

open Relational Txn

namespace Conductor

open RunRepository TaskQueueRepository

variable {checks : Bool} {db : Db}

/-- What the walk from `row` may do to a row: block it, if it waits strictly below `row` in
the same run. -/
def WalkStep (parents : UUID → Finset UUID) (row : TaskRun) (now : Time) (r r' : TaskRun) : Prop :=
  r' = r ∨ (r' = blocked now r ∧ (r.state = .PENDING ∨ r.state = .READY) ∧
    r.run_id = row.run_id ∧ Precedence.Below parents row.task_id r.task_id)

/-- Blocking tasks below a row is a walk step for every row. -/
theorem walkStep_blockTasks {row : TaskRun} {now : Time} {tasks : List UUID}
    (htasks : ∀ c ∈ tasks, Precedence.Below db.parents row.task_id c) :
    List.Forall₂ (WalkStep db.parents row now) db.task_runs.rows
      (blockTasks db now row.run_id tasks).task_runs.rows := by
  unfold blockTasks
  rw [Table.rows_update, List.forall₂_map_right_iff, List.forall₂_same]
  intro r _
  by_cases hb : blockable row.run_id tasks r = true
  · rw [if_pos hb]
    obtain ⟨hrun, htask, hstate⟩ := blockable_iff.mp hb
    exact .inr ⟨rfl, hstate, hrun, htasks _ htask⟩
  · rw [if_neg hb]
    exact .inl rfl

/-- The walk ends, and keeps to the rows it may take. -/
theorem exec_block_descendants_stored (hs : db.Stored checks) (clock : Clock) {task_run_id : UUID}
    {row : TaskRun} (hrow : db.task_runs.get task_run_id = some row) :
    ∃ task_runs, (∀ rounds, db.task_runs.rows.length < rounds →
        exec (store checks) (block_descendants clock rounds task_run_id) db =
          .ok ({ db with task_runs := task_runs }, ())) ∧
      List.Forall₂ (WalkStep db.parents row clock.now) db.task_runs.rows task_runs.rows := by
  obtain ⟨tasks, hexec, hsound, -⟩ :=
    exec_blockLoop_stored clock.now row.run_id row.task_id [row.task_id] db hs
  refine ⟨(blockTasks db clock.now row.run_id tasks).task_runs, fun rounds hrounds => ?_,
    walkStep_blockTasks (fun c hc => ?_)⟩
  · rw [exec_block_descendants hrow]
    exact hexec rounds (lt_of_le_of_lt (List.length_filter_le _ _) hrounds)
  · obtain ⟨p, hp, hbelow⟩ := hsound c hc
    rw [List.mem_singleton.mp hp] at hbelow
    exact hbelow

section Failure

variable {clock : Clock} {uniform : ℚ → ℚ} {rounds : ℕ} {task_run_id : UUID}
  {worker_id error : String} {row : TaskRun} {db' : Db} {terminal : TaskState}

/-- A failure that ended the row: the caller owned it, and its attempts are spent. -/
theorem terminal_of_exec (hinv : Inv checks db) (hrow : db.task_runs.get task_run_id = some row)
    (hexec : exec (store checks)
      (record_failure clock uniform rounds task_run_id worker_id error) db =
        .ok (db', some terminal))
    (hterminal : terminal ≠ .RETRYING) :
    row.worker_id = some worker_id ∧ ∃ task policy, db.tasks.get row.task_id = some task ∧
      build_policy (some task.retry_policy) = .ok policy ∧ policy.max_attempts ≤ row.attempt := by
  obtain ⟨hmem, -⟩ := Table.get_eq_some.mp hrow
  have hworker : row.worker_id = some worker_id := by
    by_contra hother
    rw [exec_record_failure_lost clock uniform rounds error (fun r hr => ?_)] at hexec
    · cases hexec
    · rw [hrow] at hr
      rwa [← Option.some.inj hr]
  obtain ⟨task, policy, htask, hpolicy, -⟩ := hinv.policy hmem
  refine ⟨hworker, task, policy, htask, hpolicy, ?_⟩
  by_contra hleft
  obtain ⟨delay, hretry⟩ := exec_record_failure_retry hinv.good clock uniform rounds error hrow
    hworker htask hpolicy (not_le.mp hleft)
  rw [hretry] at hexec
  exact hterminal (Option.some.inj (congrArg Prod.snd (Except.ok.inj hexec))).symm

/-- **After a terminal failure everything below is blocked.** -/
theorem blocked_below_failure (hinv : Inv checks db)
    (hrow : db.task_runs.get task_run_id = some row) (hrounds : db.task_runs.rows.length < rounds)
    (hexec : exec (store checks)
      (record_failure clock uniform rounds task_run_id worker_id error) db =
        .ok (db', some terminal))
    (hterminal : terminal ≠ .RETRYING) {d : UUID}
    (hbelow : Precedence.Below db.parents row.task_id d) :
    (∃ r ∈ db'.task_runs.rows, r.run_id = row.run_id ∧ r.task_id = d) ∧
      ∀ r ∈ db'.task_runs.rows, r.run_id = row.run_id → r.task_id = d → r.state = .BLOCKED := by
  obtain ⟨hmem, -⟩ := Table.get_eq_some.mp hrow
  obtain ⟨hworker, task, policy, htask, hpolicy, hge⟩ :=
    terminal_of_exec hinv hrow hexec hterminal
  have hrunning := (hinv.good.lawful row hmem).running_of_worker (by rw [hworker]; rfl)
  obtain ⟨tasks, hrun, hsound, hcomplete⟩ := exec_record_failure_terminal hinv.good clock uniform
    error hrow hworker htask hpolicy hge hrounds
  rw [hrun] at hexec
  obtain rfl := congrArg Prod.fst (Except.ok.inj hexec)
  have hrewritten := rewritten_afterFailure hinv hmem hworker clock.now error tasks
    (openAttempt task_run_id row.attempt) (terminalOf row) (some error)
  obtain ⟨hstatus, -⟩ := status_afterFailure hinv hmem hrunning hsound
    (hcomplete (walkInv_of_running hinv hmem hrunning)) hrewritten
  have hunique := hrewritten.unique hinv.unique
  -- The dependencies of the tables have no cycle, so `d` is not the failed task.
  have hne : d ≠ row.task_id := by
    rintro rfl
    exact hinv.definitions.acyclic _ hbelow
  have hblocked := congrFun hstatus d
  unfold Precedence.fail at hblocked
  rw [if_neg hne, if_pos hbelow] at hblocked
  refine ⟨?_, fun r hr h1 h2 => ?_⟩
  · obtain ⟨r, hr, h1, h2, -⟩ := Db.exists_row_of_status hunique hblocked (by decide)
    exact ⟨r, hr, h1, h2⟩
  · have hstate := Db.status_of_mem hunique hr
    rw [h1, h2, hblocked] at hstate
    exact TaskState.status_eq_blocked.mp hstate.symm

end Failure

/-- **The blocking walk ends and is complete.** From any rows that satisfy the `CHECK`s of
their table, in any states and under any dependencies, the walk from a row ends, the same
way for every number of rounds that is large enough, with nothing changed but waiting rows
strictly below it in its run, which are blocked. In every state of the queue, a failure
that ends its row leaves every task strictly below it blocked in that run. -/
theorem blocking_walk (checks : Bool) :
    (∀ db, db.Stored checks → ∀ (clock : Clock) (task_run_id : UUID) (row : TaskRun),
      db.task_runs.get task_run_id = some row →
      ∃ task_runs, (∀ rounds, db.task_runs.rows.length < rounds →
          exec (store checks) (block_descendants clock rounds task_run_id) db =
            .ok ({ db with task_runs := task_runs }, ())) ∧
        List.Forall₂ (WalkStep db.parents row clock.now) db.task_runs.rows task_runs.rows) ∧
    ∀ db, Reachable checks db → ∀ (clock : Clock) (uniform : ℚ → ℚ) (rounds : ℕ)
        (task_run_id : UUID) (worker_id error : String) (row : TaskRun) (db' : Db)
        (terminal : TaskState),
      db.task_runs.get task_run_id = some row → db.task_runs.rows.length < rounds →
      exec (store checks) (record_failure clock uniform rounds task_run_id worker_id error) db =
        .ok (db', some terminal) → terminal ≠ .RETRYING →
      ∀ d, Precedence.Below db.parents row.task_id d →
        (∃ r ∈ db'.task_runs.rows, r.run_id = row.run_id ∧ r.task_id = d) ∧
        ∀ r ∈ db'.task_runs.rows, r.run_id = row.run_id → r.task_id = d → r.state = .BLOCKED := by
  refine ⟨fun db hs clock task_run_id row hrow => exec_block_descendants_stored hs clock hrow, ?_⟩
  intro db hreach clock uniform rounds task_run_id worker_id error row db' terminal hrow hrounds
    hexec hterminal d hbelow
  exact blocked_below_failure hreach.inv hrow hrounds hexec hterminal hbelow

/-- The chain of two tasks, after its first task was claimed. -/
def chainClaimed : Db := served true (chainStart noRetry ++ [claimAt 1 "w"])

/-- The first task fails for good, and the second is blocked. -/
theorem blocking_walk_chain :
    ∃ r ∈ (serve true chainClaimed (.failure (clockAt 2) id 12 "w" "exit 1")).task_runs.rows,
      r.run_id = 10 ∧ r.task_id = 3 ∧ r.state = .BLOCKED := by
  have hreach : Reachable true chainClaimed := reachable_served true _
  have hclaimed : (chainClaimed.task_runs.get 12).any (fun row => row.worker_id = some "w" &&
      row.max_attempts ≤ row.attempt && row.run_id = 10 && row.task_id = 2) = true := by
    decide +kernel
  obtain ⟨row, hrow, hclaimed⟩ := (Option.any_eq_true _ _).mp hclaimed
  simp only [Bool.and_eq_true, decide_eq_true_eq] at hclaimed
  obtain ⟨⟨⟨hworker, hspent⟩, hrun⟩, htask⟩ := hclaimed
  obtain ⟨-, hexec, -⟩ := serve_failure_terminal hreach.inv (clockAt 2) id "exit 1" hrow hworker
    hspent
  have hbelow : Precedence.Below chainClaimed.parents row.task_id 3 := by
    rw [htask]
    exact .single (by decide +kernel : 2 ∈ chainClaimed.parents 3)
  obtain ⟨⟨r, hr, h1, h2⟩, hall⟩ := (blocking_walk true).2 chainClaimed hreach (clockAt 2) id
    (walkRounds chainClaimed) 12 "w" "exit 1" row _ _ hrow (Nat.lt_succ_self _) hexec (by decide)
    3 hbelow
  exact ⟨r, hr, h1.trans hrun, h2, hall r hr h1 h2⟩

end Conductor
