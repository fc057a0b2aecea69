/-
The retry decision and the stored budget.

`record_failure` asks a policy whether to try again. The policy is rebuilt from the
task's definition at every failure, while the budget is a column of the row, copied from
such a policy when the run was created. Where the policy says no, the two are compared:
`DEAD_LETTER` if the column agrees that the attempts are spent, `FAILED` if it does not.

They always agree. The definition a row came from is still there, and gives the policy
the column came from. So the column alone decides, the policy is never asked about an
attempt it would refuse, and no row is ever `FAILED`.

But an answer of the policy is not certain. Its numbers are floats, and an exponential one
raises `OverflowError` when its power exceeds them, long before the delay would be capped.
The transaction is then rolled back, so the row keeps its worker until the lease ends.
-/
import Conductor.Postgres
import Conductor.Lifecycle

set_option autoImplicit false

open Relational Txn

namespace Conductor

open RunRepository TaskQueueRepository WorkflowRepository

/-- No row is `FAILED`. -/
def Db.NeverFailed (db : Db) : Prop :=
  ∀ r ∈ db.task_runs.rows, r.state ≠ .FAILED

variable {checks : Bool} {db db' : Db}

/-! ## One failure -/

section Failure

variable {clock : Clock} {uniform : ℚ → ℚ} {rounds : ℕ} {task_run_id : UUID}
  {worker_id error : String} {row : TaskRun}

end Failure

/-! ## No row fails -/

theorem ne_failed_of_ite {p : Prop} [Decidable p] {r r' : TaskRun} (hr' : r'.state ≠ .FAILED)
    (hr : r.state ≠ .FAILED) : (if p then r' else r).state ≠ .FAILED := by
  split
  · exact hr'
  · exact hr

theorem afterSuccess_ne_failed {row : TaskRun} (now : Time) (output : Option Dict) {r : TaskRun}
    (hr : r.state ≠ .FAILED) : (afterSuccess db row now output r).state ≠ .FAILED := by
  unfold afterSuccess
  split
  · exact fun h => by cases h
  · unfold afterUnblock
    split
    -- A waiting child stays in `PENDING` or becomes `READY`.
    · rename_i hw
      rcases unblocked_state r (waitingChild_state hw) with h | h <;> rw [h] <;> decide
    · exact hr

theorem afterFailure_ne_failed {row : TaskRun} (now : Time) (error : String) (tasks : List UUID)
    {r : TaskRun} (hr : r.state ≠ .FAILED) :
    (afterFailure row now .DEAD_LETTER error tasks r).state ≠ .FAILED := by
  unfold afterFailure
  split
  · exact fun h => by cases h
  · exact ne_failed_of_ite (fun h => by cases h) hr

/-- No outcome of an operation fails a row. -/
theorem Outcome.ne_failed {op : Op} {g : TaskRun → TaskRun} (hout : Outcome checks db op g)
    {r : TaskRun} (hr : r.state ≠ .FAILED) : (g r).state ≠ .FAILED := by
  cases hout with
  | refused => exact hr
  | lateSuccess => exact hr
  | lateFailure => exact hr
  | refreshed => exact hr
  | claimed => exact ne_failed_of_ite (fun h => by cases h) hr
  | renewed => exact ne_failed_of_ite hr hr
  | succeeded clock task_run_id worker_id output => exact afterSuccess_ne_failed clock.now output hr
  | retried => exact ne_failed_of_ite (fun h => by cases h) hr
  | failed clock uniform task_run_id worker_id error tasks =>
      exact afterFailure_ne_failed clock.now error tasks hr
  | reaped => exact ne_failed_of_ite (fun h => by cases h) hr
  | cancelled => exact ne_failed_of_ite (fun h => by cases h) hr

/-- A new row is `READY` or waits. -/
theorem newTaskRun_ne_failed (ids : RunIds) (clock : Clock) (unmet : ℕ) (policy : RetryPolicy)
    (task : Task) : (newTaskRun ids clock unmet policy task).state ≠ .FAILED := by
  unfold newTaskRun
  dsimp only
  split <;> decide

theorem neverFailed_submit (hinv : Inv checks db) (hnever : db.NeverFailed) (ids : RunIds)
    (clock : Clock) (workflow_id : UUID) (trigger_payload : Option Dict) :
    (serve checks db (.submit ids clock workflow_id trigger_payload)).NeverFailed := by
  intro r hr
  rcases mem_task_runs_submit hinv hr with hr | ⟨unmet, policy, task, rfl⟩
  · exact hnever r hr
  · exact newTaskRun_ne_failed ids clock unmet policy task

theorem neverFailed_publish (hnever : db.NeverFailed) (ids : WorkflowIds) (now : Time)
    (name : String) (specs : List TaskSpec) (description : Option String) :
    (serve checks db (.publish ids now name specs description)).NeverFailed := by
  obtain ⟨_, _, _, hserve⟩ := serve_publish_frame checks db ids now name specs description
  rw [hserve]
  exact hnever

/-- **One operation fails no row.** -/
theorem neverFailed_serve (hinv : Inv checks db) (hnever : db.NeverFailed) (op : Op) :
    (serve checks db op).NeverFailed := by
  cases hop : op.isQueue with
  | true =>
      obtain ⟨g, hout, hstep⟩ := serve_outcome hinv hop
      intro r' hr'
      obtain ⟨r, hr, rfl⟩ := hstep.rewritten.mem_rows.mp hr'
      exact hout.ne_failed (hnever r hr)
  | false =>
      cases op with
      | publish ids now name specs description =>
          exact neverFailed_publish hnever ids now name specs description
      | submit ids clock workflow_id trigger_payload =>
          exact neverFailed_submit hinv hnever ids clock workflow_id trigger_payload
      | _ => cases hop

/-- No row is ever `FAILED`. -/
theorem Reachable.neverFailed (h : Reachable checks db) : db.NeverFailed := by
  refine Lts.Reach.invariant (fun db hi r hr => ?_) (fun db op db' hr hnever hstep => ?_) h
  · rw [hi.no_task_runs] at hr
    exact absurd hr List.not_mem_nil
  · rw [← hstep]
    have hinv : Inv checks db := Reachable.inv hr
    exact neverFailed_serve hinv hnever op

/-! ## Whole runs -/

end Conductor
