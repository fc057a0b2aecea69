/-
The transactions of the service's processes.

Most operations are committed by themselves: the API submits and cancels, the
worker claims, its heartbeat renews, the reaper reaps. A worker that has executed
a task does two things in one transaction, `_execute`: it reports the result and
refreshes the state of the run. The run id is the one that came with the claim, so
it is the run of the row.
-/
import Conductor.Service

set_option autoImplicit false

open Relational Txn

namespace Conductor

open RunRepository TaskQueueRepository WorkflowRepository

/-! ## Reports -/

/-- What came of executing a task: `output` when `error is None`, else the error. -/
inductive Result where
  | success (output : Option Dict)
  | failure (error : String)

/-- A worker's report about a task it claimed. -/
structure Report where
  task_run_id : UUID
  run_id : UUID
  worker_id : String
  result : Result
  clock : Clock
  uniform : ℚ → ℚ

section Transaction

variable (record_failure : Clock → (ℚ → ℚ) → ℕ → UUID → String → String → Tx (Option TaskState))

/-- The `if error is None` of `Worker._execute`; it returns `accepted`. -/
def recordResult_with (rounds : ℕ) (report : Report) : Tx Bool :=
  match report.result with
  | .success output => record_success report.clock report.task_run_id report.worker_id output
  | .failure error => do
      let state ← record_failure report.clock report.uniform rounds report.task_run_id
        report.worker_id error
      return state.isSome

/-- The transaction at the end of `Worker._execute`. -/
def complete_with (rounds : ℕ) (report : Report) : Tx Bool := do
  let accepted ← recordResult_with record_failure rounds report
  let _ ← refresh_run_state report.clock report.run_id
  return accepted

end Transaction

/-- The report in exact arithmetic. -/
def recordResult : ℕ → Report → Tx Bool := recordResult_with record_failure

/-- The transaction in exact arithmetic. -/
def complete : ℕ → Report → Tx Bool := complete_with record_failure

/-- The transaction with the floats of the policies. -/
def float_complete : ℕ → Report → Tx Bool := complete_with float_record_failure

/-- The report alone, as an operation on the queue. -/
def Report.op (report : Report) : Op :=
  match report.result with
  | .success output => .success report.clock report.task_run_id report.worker_id output
  | .failure error =>
      .failure report.clock report.uniform report.task_run_id report.worker_id error

theorem Report.op_isQueue (report : Report) : report.op.isQueue = true := by
  unfold Report.op
  split <;> rfl

/-! ## Requests -/

/-- One transaction of a process. -/
inductive Request where
  | op (op : Op)
  | complete (report : Report)

/-- The operations that are transactions by themselves. -/
def Op.alone : Op → Bool
  | .success .. | .failure .. | .refresh .. => false
  | _ => true

/-- A request that a process can make: a report names the run of its row. -/
def Request.Sound (db : Db) : Request → Prop
  | .op operation => operation.alone = true
  | .complete report => ∃ row ∈ db.task_runs.rows,
      row.id = report.task_run_id ∧ row.run_id = report.run_id

instance (db : Db) (request : Request) : Decidable (request.Sound db) := by
  cases request <;> unfold Request.Sound <;> infer_instance

/-- The database after a request. -/
def transact (checks : Bool) (db : Db) : Request → Db
  | .op op => serve checks db op
  | .complete report => commit checks (complete (walkRounds db) report) db

variable {checks : Bool} {db : Db}

/-- A report always returns, and says whether it was accepted. -/
theorem exec_recordResult (hinv : Inv checks db) (report : Report) :
    ∃ accepted, exec (store checks) (recordResult (walkRounds db) report) db
        = .ok (serve checks db report.op, accepted) ∧
      (accepted = true ↔ ∃ row, db.task_runs.get report.task_run_id = some row ∧
        row.state = .RUNNING ∧ row.worker_id = some report.worker_id) := by
  unfold Report.op recordResult recordResult_with
  cases report.result with
  | success output =>
      dsimp only
      -- A success is accepted from the worker whose lease is running,
      by_cases hheld : ∃ row ∈ db.task_runs.rows,
          heldBy report.task_run_id report.worker_id row = true
      · obtain ⟨row, hmem, hheld⟩ := hheld
        obtain ⟨hid, hworker, hrunning⟩ := heldBy_iff.mp hheld
        have hrow := Table.get_eq_some.mpr ⟨hmem, hid⟩
        exact ⟨true, (serve_success_held hinv report.clock output hrow hheld).1,
          iff_of_true rfl ⟨row, hrow, hrunning, hworker⟩⟩
      · push Not at hheld
        have hlost : ∀ r ∈ db.task_runs.rows,
            heldBy report.task_run_id report.worker_id r = false :=
          fun r hr => by simpa using hheld r hr
        obtain ⟨hexec, hserve⟩ := serve_success_lost hinv report.clock output hlost
        refine ⟨false, by rw [hserve]; exact hexec, iff_of_false (by simp) ?_⟩
        rintro ⟨row, hrow, hrunning, hworker⟩
        obtain ⟨hmem, hid⟩ := Table.get_eq_some.mp hrow
        exact hheld row hmem (heldBy_iff.mpr ⟨hid, hworker, hrunning⟩)
  | failure error =>
      dsimp only
      -- and a failure from the worker the row names, which only a running row does.
      by_cases hheld : ∃ row, db.task_runs.get report.task_run_id = some row ∧
          row.worker_id = some report.worker_id
      · obtain ⟨row, hrow, hworker⟩ := hheld
        have hrunning := (hinv.good.lawful row (Table.get_eq_some.mp hrow).1).running_of_worker
          (by rw [hworker]; rfl)
        refine ⟨true, ?_, iff_of_true rfl ⟨row, hrow, hrunning, hworker⟩⟩
        rcases lt_or_ge row.attempt row.max_attempts with hlt | hge
        · obtain ⟨_, hexec, -⟩ :=
            serve_failure_retry hinv report.clock report.uniform error hrow hworker hlt
          rw [exec_bind, hexec]
          rfl
        · obtain ⟨_, hexec, -⟩ :=
            serve_failure_terminal hinv report.clock report.uniform error hrow hworker hge
          rw [exec_bind, hexec]
          rfl
      · push Not at hheld
        obtain ⟨hexec, hserve⟩ : exec (store checks) _ db = _ ∧ serve checks db _ = db :=
          serve_failure_lost report.clock report.uniform error hheld
        refine ⟨false, ?_, iff_of_false (by simp) ?_⟩
        · rw [exec_bind, hexec, hserve]
          rfl
        · rintro ⟨row, hrow, -, hworker⟩
          exact hheld row hrow hworker

/-- **A completion is the report and then the refresh.** -/
theorem exec_complete (hinv : Inv checks db) (report : Report) :
    ∃ accepted, exec (store checks) (complete (walkRounds db) report) db
        = .ok (transact checks db (.complete report), accepted) ∧
      transact checks db (.complete report)
        = serve checks (serve checks db report.op) (.refresh report.clock report.run_id) ∧
      (accepted = true ↔ ∃ row, db.task_runs.get report.task_run_id = some row ∧
        row.state = .RUNNING ∧ row.worker_id = some report.worker_id) := by
  obtain ⟨accepted, hexec, haccepted⟩ := exec_recordResult hinv report
  have hinv' := serve_inv hinv report.op
  have hrefresh := hinv'.good.exec_refresh_run_state report.clock report.run_id
  have hserve : serve checks (serve checks db report.op) (.refresh report.clock report.run_id) = _ :=
    commit_ok hrefresh
  have hcomplete : exec (store checks) (complete (walkRounds db) report) db
      = .ok (serve checks (serve checks db report.op)
          (.refresh report.clock report.run_id), accepted) := by
    unfold complete complete_with
    rw [exec_bind, ← recordResult, hexec]
    simp only [Except.bind]
    rw [exec_bind, hrefresh, hserve]
    rfl
  have htransact : transact checks db (.complete report) = _ := commit_ok hcomplete
  exact ⟨accepted, by rw [htransact]; exact hcomplete, htransact, haccepted⟩

/-- The refresh after a report touches no task row. -/
theorem task_runs_complete (hinv : Inv checks db) (report : Report) :
    (transact checks db (.complete report)).task_runs = (serve checks db report.op).task_runs := by
  obtain ⟨-, -, htransact, -⟩ := exec_complete hinv report
  have hinv' := serve_inv hinv report.op
  have hserve : serve checks (serve checks db report.op) (.refresh report.clock report.run_id) = _ :=
    commit_ok (hinv'.good.exec_refresh_run_state report.clock report.run_id)
  rw [htransact, hserve]

theorem transact_inv (hinv : Inv checks db) (request : Request) :
    Inv checks (transact checks db request) := by
  cases request with
  | op op => exact serve_inv hinv op
  | complete report =>
      obtain ⟨-, -, hserve, -⟩ := exec_complete hinv report
      rw [hserve]
      exact serve_inv (serve_inv hinv report.op) _

/-- Databases reached by the processes' transactions. -/
def Requested (checks : Bool) (C : Db → Request → Prop) : Db → Prop :=
  Lts.ReachVia Initial (fun db request db' => transact checks db request = db')
    (fun db request => request.Sound db ∧ C db request)

theorem Requested.inv {C : Db → Request → Prop} (h : Requested checks C db) : Inv checks db :=
  Lts.Reach.invariant (fun _ hi => hi.inv)
    (fun db request db' _ hinv hstep => by rw [← hstep]; exact transact_inv hinv request) h.reach

/-- The database after some requests, from the empty one. -/
def transacted (checks : Bool) (requests : List Request) : Db :=
  requests.foldl (transact checks) Db.empty

end Conductor
