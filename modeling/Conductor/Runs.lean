/-
`db/repositories/runs.py`: runs and the task queue.

Every function is a transaction program (`Tx`), statement by statement as in the
source, so the same text is run atomically by `Txn.exec` and interleaved at its
statements under READ COMMITTED. What the source takes from its surroundings is
an argument:

* the clock: `utcnow()` of the process and `func.now()` of the database;
* the ids drawn by `uuid.uuid4()`;
* `tie`, the order in which the server visits rows that the `ORDER BY` of the
  claim leaves equal;
* `uniform`, the jitter of the retry policy, and whether its arithmetic is exact or that of
  floats, which may overflow;
* `rounds`, a bound on the `while` loop of `_block_descendants`.

The object a function gets from `session.get` is the row as the transaction saw
it at that read. All updates pass `synchronize_session=False`, so the object
does not follow them; after the first update of a function only its `run_id`,
`task_id` and `attempt` are used.
-/
import Conductor.Retry
import Conductor.Models
import Conductor.Workflows

set_option autoImplicit false

open Relational

namespace Conductor

/-- The two clocks a transaction reads. -/
structure Clock where
  utcnow : Time
  now : Time

/-- The ids a new run draws: its own, and one for each task it materialises. -/
structure RunIds where
  run_id : UUID
  task_run_id : UUID → UUID

/-- A claimed task, flattened for the worker. -/
structure ClaimedTask where
  task_run_id : UUID
  run_id : UUID
  executor : String
  params : Dict
  attempt : ℤ
  max_attempts : ℤ
  timeout_seconds : ℚ
  lease_expires_at : Option Time
  retry_policy : Dict

/-- The task rows of a run. -/
def Db.runTasks (db : Db) (run_id : UUID) : List TaskRun :=
  db.task_runs.rows.filter (fun r => r.run_id = run_id)

/-- The current states of a run's tasks. -/
def Db.taskStates (db : Db) (run_id : UUID) : List TaskState :=
  (db.runTasks run_id).map TaskRun.state

namespace RunRepository

/-- The row `create_run` adds for a task with `unmet` dependencies. -/
def newTaskRun (ids : RunIds) (clock : Clock) (unmet : ℕ) (policy : RetryPolicy) (task : Task) :
    TaskRun where
  id := ids.task_run_id task.id
  run_id := ids.run_id
  task_id := task.id
  -- Roots are immediately claimable; everything else waits.
  state := if unmet = 0 then .READY else .PENDING
  pending_deps := unmet
  attempt := 0
  max_attempts := policy.max_attempts
  priority := task.priority
  scheduled_at := clock.utcnow
  lease_expires_at := none
  worker_id := none
  started_at := none
  finished_at := none
  last_error := none
  output := none
  version := 0

/-- Materialise a workflow definition into an executable run. -/
def create_run (ids : RunIds) (clock : Clock) (workflow : Workflow)
    (dependencies : OrderedDict String (List String)) (trigger_payload : Option Dict) :
    Tx WorkflowRun := do
  let run : WorkflowRun :=
    { id := ids.run_id, workflow_id := workflow.id, state := .PENDING
      trigger_payload := trigger_payload.getD Dict.empty, created_at := clock.now
      started_at := none, finished_at := none, version := 0 }
  let row ← newTable WorkflowRun.id (.IntegrityError "workflow_runs_pkey") [run]
  insertRows { Db.empty with workflow_runs := row } id
  let tasks ← Txn.Prog.read (fun db =>
    .ret (db.tasks.rows.filter (fun t => t.workflow_id = workflow.id)))
  let rows ← Txn.Prog.lift (tasks.mapM (fun task => do
    let unmet := ((OrderedDict.lookup dependencies task.key).getD []).length
    let policy ← build_policy (some task.retry_policy)
    return newTaskRun ids clock unmet policy task))
  if tasks.isEmpty then
    .raise (.ValueError ("workflow " ++ pyRepr workflow.name ++ " has no tasks"))
  let rows ← newTable TaskRun.id (.IntegrityError "task_runs_pkey") rows
  insertRows { Db.empty with task_runs := rows } id
  return run

/-- A run with its task rows, each with the task it is for. -/
structure LoadedRun where
  run : WorkflowRun
  task_runs : List (TaskRun × Option Task)

/-- Load a run and its task rows in two queries. -/
def get_with_tasks (run_id : UUID) : Tx (Option LoadedRun) :=
  .read (fun db =>
    match db.workflow_runs.get run_id with
    | none => .ret none
    | some run => .read (fun db =>
        .ret (some ⟨run, (db.runTasks run_id).map (fun r => (r, db.tasks.get r.task_id))⟩)))

/-- What `refresh_run_state` writes into the run row. -/
def refreshed (now : Time) (derived : RunState) (run : WorkflowRun) : WorkflowRun :=
  { run with
    state := derived
    version := run.version + 1
    started_at := if derived ≠ .PENDING then run.started_at.or (some now) else run.started_at
    finished_at :=
      if derived.is_terminal then run.finished_at.or (some now) else run.finished_at }

theorem refreshed_id (now : Time) (derived : RunState) (run : WorkflowRun) :
    (refreshed now derived run).id = run.id := rfl

/-- Recompute the cached run state from its tasks. -/
def refresh_run_state (clock : Clock) (run_id : UUID) : Tx RunState :=
  .read (fun db => do
    let derived := derive_run_state (db.taskStates run_id)
    updateRuns (fun run => run.id = run_id) (refreshed clock.now derived)
      (refreshed_id clock.now derived)
    return derived)

/-- The rows `cancel` takes. -/
def cancellable (run_id : UUID) (r : TaskRun) : Bool :=
  r.run_id = run_id && r.state ∈ [.PENDING, .READY, .RUNNING, .RETRYING]

def cancelled (now : Time) (r : TaskRun) : TaskRun :=
  { r with
    state := .CANCELLED
    finished_at := some now
    lease_expires_at := none
    worker_id := none
    version := r.version + 1 }

theorem cancelled_id (now : Time) (r : TaskRun) : (cancelled now r).id = r.id := rfl

/-- Cancel every task that has not reached a terminal state. -/
def cancel (clock : Clock) (run_id : UUID) : Tx ℕ := do
  let rows ← updateTaskRuns (fun _ => cancellable run_id) (cancelled clock.now)
    (cancelled_id clock.now)
  let _ ← refresh_run_state clock run_id
  return rows.length

end RunRepository

namespace TaskQueueRepository

/-! ## Claiming -/

/-- Claimable now. -/
def claimable (now : Time) (r : TaskRun) : Bool := r.state = .READY && r.scheduled_at ≤ now

/-- `ORDER BY priority DESC, scheduled_at`, ties in the server's order. -/
def claimBefore (tie : UUID → ℕ) (a b : TaskRun) : Prop :=
  b.priority < a.priority ∨ (a.priority = b.priority ∧
    (a.scheduled_at < b.scheduled_at ∨ (a.scheduled_at = b.scheduled_at ∧ tie a.id ≤ tie b.id)))

instance (tie : UUID → ℕ) : DecidableRel (claimBefore tie) := fun a b => by
  unfold claimBefore; infer_instance

/-- `SELECT id ... ORDER BY ... LIMIT n FOR UPDATE SKIP LOCKED`, on the rows that
are not locked. -/
def candidates (tie : UUID → ℕ) (now : Time) (limit : ℕ) (rows : List TaskRun) : List UUID :=
  (((rows.filter (claimable now)).insertionSort (claimBefore tie)).take limit).map TaskRun.id

def claimed (worker_id : String) (lease_until now : Time) (r : TaskRun) : TaskRun :=
  { r with
    state := .RUNNING
    worker_id := some worker_id
    lease_expires_at := some lease_until
    attempt := r.attempt + 1
    started_at := r.started_at.or (some now)
    version := r.version + 1 }

theorem claimed_id (worker_id : String) (lease_until now : Time) (r : TaskRun) :
    (claimed worker_id lease_until now r).id = r.id := rfl

def newAttempt (worker_id : String) (now : Time) (r : TaskRun) : TaskAttempt where
  task_run_id := r.id
  attempt := r.attempt
  worker_id := worker_id
  state := .RUNNING
  started_at := now
  finished_at := none
  duration_ms := none
  error := none

/-- The `ClaimedTask` of a claimed row; `definitions[row.task_id]` must be there. -/
def toClaimedTask (db : Db) (r : TaskRun) : Except Exn ClaimedTask :=
  match db.tasks.get r.task_id with
  | none => .error (.KeyError "task_id")
  | some definition => .ok
      { task_run_id := r.id, run_id := r.run_id, executor := definition.executor
        params := definition.params, attempt := r.attempt, max_attempts := r.max_attempts
        timeout_seconds := definition.timeout_seconds, lease_expires_at := r.lease_expires_at
        retry_policy := definition.retry_policy }

/-- `except IntegrityError` around the flush of the attempt rows. -/
def duplicateAttempt : Exn → Exn
  | .IntegrityError _ => .ConflictError "duplicate attempt detected while claiming"
  | e => e

/-- Atomically claim up to `limit` ready tasks for `worker_id`. -/
def claim_batch (lease_seconds : ℚ) (clock : Clock) (tie : UUID → ℕ) (worker_id : String)
    (limit : ℕ) : Tx (List ClaimedTask) :=
  .write .skipLocked
    (fun db => { Db.empty with
      task_runs := db.task_runs.updated
        (fun r => r.id ∈ candidates tie clock.utcnow limit db.task_runs.rows)
        (claimed worker_id (clock.utcnow + lease_seconds) clock.now)
        (claimed_id worker_id (clock.utcnow + lease_seconds) clock.now) })
    id
    (fun d =>
      if d.task_runs.rows.isEmpty then .ret []
      else .read (fun db => do
        let results ← Txn.Prog.lift (d.task_runs.rows.mapM (toClaimedTask db))
        let attempts ← newTable TaskAttempt.pk (duplicateAttempt (.IntegrityError ""))
          (d.task_runs.rows.map (newAttempt worker_id clock.now))
        insertRows { Db.empty with task_attempts := attempts } duplicateAttempt
        return results))

/-- The row a worker still holds. -/
def heldBy (task_run_id : UUID) (worker_id : String) (r : TaskRun) : Bool :=
  r.id = task_run_id && r.worker_id = some worker_id && r.state = .RUNNING

def renewed (lease_until : Time) (r : TaskRun) : TaskRun :=
  { r with lease_expires_at := some lease_until, version := r.version + 1 }

theorem renewed_id (lease_until : Time) (r : TaskRun) : (renewed lease_until r).id = r.id := rfl

/-- Extend a lease. `false` means the lease was lost and work must stop. -/
def renew_lease (lease_seconds : ℚ) (clock : Clock) (task_run_id : UUID) (worker_id : String) :
    Tx Bool := do
  let rows ← updateTaskRuns (fun _ => heldBy task_run_id worker_id)
    (renewed (clock.utcnow + lease_seconds)) (renewed_id (clock.utcnow + lease_seconds))
  return rows.length = 1

/-! ## Internals -/

/-- What `_close_attempt` writes. -/
def closedAttempt (now : Time) (state : TaskState) (error : Option String) (a : TaskAttempt) :
    TaskAttempt :=
  { a with
    state := state
    finished_at := some now
    error := (error.filter (· ≠ "")).map (pySlice · 4000)
    duration_ms := some ((now - a.started_at) * 1000) }

theorem closedAttempt_pk (now : Time) (state : TaskState) (error : Option String)
    (a : TaskAttempt) : (closedAttempt now state error a).pk = a.pk := rfl

/-- The attempt row that a report about attempt `attempt` closes. -/
def openAttempt (task_run_id : UUID) (attempt : ℤ) (a : TaskAttempt) : Bool :=
  a.task_run_id = task_run_id && a.attempt = attempt && a.finished_at.isNone

/-- Stamp one specific attempt row with its outcome and duration. -/
def close_attempt (clock : Clock) (task_run_id : UUID) (attempt : ℤ) (state : TaskState)
    (error : Option String) : Tx Unit :=
  updateAttempts (openAttempt task_run_id attempt)
    (closedAttempt clock.now state error) (closedAttempt_pk clock.now state error)

/-- `SELECT child_task_id WHERE parent_task_id IN (...)`, as a set. -/
def childTaskIds (db : Db) (parents : List UUID) : List UUID :=
  ((db.task_dependencies.rows.filter (fun e => e.parent_task_id ∈ parents)).map
    TaskDependency.child_task_id).dedup

/-- `sibling_filter`: the waiting task rows of the same run that depend on this
task. -/
def waitingChild (db : Db) (row : TaskRun) (r : TaskRun) : Bool :=
  r.run_id = row.run_id && r.task_id ∈ childTaskIds db [row.task_id] && r.state = .PENDING

def decremented (r : TaskRun) : TaskRun :=
  { r with pending_deps := r.pending_deps - 1, version := r.version + 1 }

theorem decremented_id (r : TaskRun) : (decremented r).id = r.id := rfl

def released (r : TaskRun) : TaskRun := { r with state := .READY, version := r.version + 1 }

theorem released_id (r : TaskRun) : (released r).id = r.id := rfl

/-- Decrement dependants' counters and release those that hit zero. -/
def unblock_children (task_run_id : UUID) : Tx Unit :=
  .read (fun db =>
    match db.task_runs.get task_run_id with
    | none => .ret ()
    | some row => do
        let _ ← updateTaskRuns (fun db r => waitingChild db row r && 0 < r.pending_deps)
          decremented decremented_id
        let _ ← updateTaskRuns (fun db r => waitingChild db row r && r.pending_deps = 0)
          released released_id)

/-- The rows one level of the blocking walk takes. -/
def blockable (run_id : UUID) (children : List UUID) (r : TaskRun) : Bool :=
  r.run_id = run_id && r.task_id ∈ children && r.state ∈ [.PENDING, .READY]

def blocked (now : Time) (r : TaskRun) : TaskRun :=
  { r with state := .BLOCKED, finished_at := some now, version := r.version + 1 }

theorem blocked_id (now : Time) (r : TaskRun) : (blocked now r).id = r.id := rfl

/-- The `while frontier` loop of `_block_descendants`. -/
def blockLoop (now : Time) (run_id : UUID) : ℕ → List UUID → Tx Unit
  | _, [] => .ret ()
  | 0, _ :: _ => .raise .Unfinished
  | rounds + 1, task :: tasks =>
      .read (fun db =>
        let children := childTaskIds db (task :: tasks)
        if children.isEmpty then .ret ()
        else do
          let rows ← updateTaskRuns (fun _ => blockable run_id children) (blocked now)
            (blocked_id now)
          -- "already blocked by another failing branch"
          if rows.isEmpty then .ret () else blockLoop now run_id rounds children)

/-- Mark everything downstream of a terminal failure as `BLOCKED`. -/
def block_descendants (clock : Clock) (rounds : ℕ) (task_run_id : UUID) : Tx Unit :=
  .read (fun db =>
    match db.task_runs.get task_run_id with
    | none => .ret ()
    | some row => blockLoop clock.now row.run_id rounds [row.task_id])

/-! ## Completion -/

def succeeded (now : Time) (output : Option Dict) (r : TaskRun) : TaskRun :=
  { r with
    state := .SUCCEEDED
    finished_at := some now
    output := some (output.getD Dict.empty)
    lease_expires_at := none
    worker_id := none
    version := r.version + 1 }

theorem succeeded_id (now : Time) (output : Option Dict) (r : TaskRun) :
    (succeeded now output r).id = r.id := rfl

/-- Mark a task succeeded and unblock its children. `false` when the lease was
lost. -/
def record_success (clock : Clock) (task_run_id : UUID) (worker_id : String)
    (output : Option Dict) : Tx Bool := do
  let closed ← updateTaskRuns (fun _ => heldBy task_run_id worker_id)
    (succeeded clock.now output) (succeeded_id clock.now output)
  match closed with
  | [row] => do
      close_attempt clock task_run_id row.attempt .SUCCEEDED none
      unblock_children task_run_id
      return true
  | _ => return false

/-- The filter of both updates in `record_failure`: the worker, not the state. -/
def ownedBy (task_run_id : UUID) (worker_id : String) (r : TaskRun) : Bool :=
  r.id = task_run_id && r.worker_id = some worker_id

def failedTerminally (now : Time) (terminal : TaskState) (error : String) (r : TaskRun) :
    TaskRun :=
  { r with
    state := terminal
    finished_at := some now
    last_error := some (pySlice error 4000)
    lease_expires_at := none
    worker_id := none
    version := r.version + 1 }

theorem failedTerminally_id (now : Time) (terminal : TaskState) (error : String) (r : TaskRun) :
    (failedTerminally now terminal error r).id = r.id := rfl

def requeuedForRetry (scheduled_at : Time) (error : String) (r : TaskRun) : TaskRun :=
  { r with
    state := .READY
    scheduled_at := scheduled_at
    last_error := some (pySlice error 4000)
    lease_expires_at := none
    worker_id := none
    version := r.version + 1 }

theorem requeuedForRetry_id (scheduled_at : Time) (error : String) (r : TaskRun) :
    (requeuedForRetry scheduled_at error r).id = r.id := rfl

/-- `terminal`: "`DEAD_LETTER` rather than `FAILED` when the task burned every
attempt". -/
def terminalOf (row : TaskRun) : TaskState :=
  if row.max_attempts ≤ row.attempt then .DEAD_LETTER else .FAILED

/-- The branch of `record_failure` for exhausted retries. -/
def failTerminally (clock : Clock) (rounds : ℕ) (row : TaskRun) (worker_id : String)
    (error : String) : Tx (Option TaskState) := do
  let _ ← updateTaskRuns (fun _ => ownedBy row.id worker_id)
    (failedTerminally clock.now (terminalOf row) error)
    (failedTerminally_id clock.now (terminalOf row) error)
  close_attempt clock row.id row.attempt (terminalOf row) (some error)
  block_descendants clock rounds row.id
  return some (terminalOf row)

/-- The branch of `record_failure` that schedules another attempt. -/
def failForRetry (clock : Clock) (row : TaskRun) (worker_id : String) (error : String)
    (delay : ℚ) : Tx (Option TaskState) := do
  let _ ← updateTaskRuns (fun _ => ownedBy row.id worker_id)
    (requeuedForRetry (clock.utcnow + delay) error)
    (requeuedForRetry_id (clock.utcnow + delay) error)
  close_attempt clock row.id row.attempt .RETRYING (some error)
  return some .RETRYING

/-- Record a failure and apply the task's retry policy, of which `next_delay` is asked. `none`
when the row read at the start was no longer the worker's. -/
def record_failure_with (next_delay : RetryPolicy → (ℚ → ℚ) → ℤ → Except Exn (Option ℚ))
    (clock : Clock) (uniform : ℚ → ℚ) (rounds : ℕ) (task_run_id : UUID) (worker_id : String)
    (error : String) : Tx (Option TaskState) :=
  .read (fun db =>
    match db.task_runs.get task_run_id with
    | none => .ret none
    | some row =>
        if row.worker_id ≠ some worker_id then .ret none
        else
          match db.tasks.get row.task_id with
          | none => .raise (.KeyError "task")
          | some task => do
              let policy ← Txn.Prog.lift (build_policy (some task.retry_policy))
              let delay ← Txn.Prog.lift (next_delay policy uniform row.attempt)
              match delay with
              | none => failTerminally clock rounds row worker_id error
              | some delay => failForRetry clock row worker_id error delay)

/-- `record_failure` in exact arithmetic. -/
def record_failure : Clock → (ℚ → ℚ) → ℕ → UUID → String → String → Tx (Option TaskState) :=
  record_failure_with RetryPolicy.next_delay

/-- `record_failure` with the floats of the policies. -/
def float_record_failure :
    Clock → (ℚ → ℚ) → ℕ → UUID → String → String → Tx (Option TaskState) :=
  record_failure_with RetryPolicy.float_next_delay

/-! ## Lease expiry -/

/-- A running row whose lease is over. -/
def leaseExpired (now : Time) (r : TaskRun) : Bool :=
  r.state = .RUNNING && (r.lease_expires_at.elim false (fun lease => lease < now))

def LEASE_EXPIRED : String := "lease expired; worker presumed dead"

def reaped (r : TaskRun) : TaskRun :=
  { r with
    state := .READY
    worker_id := none
    lease_expires_at := none
    last_error := some LEASE_EXPIRED
    version := r.version + 1 }

theorem reaped_id (r : TaskRun) : (reaped r).id = r.id := rfl

/-- The loop that closes the attempt rows of reaped tasks. -/
def closeReaped (clock : Clock) : List TaskRun → Tx Unit
  | [] => .ret ()
  | row :: rest => do
      close_attempt clock row.id row.attempt .FAILED (some LEASE_EXPIRED)
      closeReaped clock rest

/-- Return tasks whose worker stopped renewing to the ready queue. -/
def reap_expired_leases (clock : Clock) : Tx ℕ := do
  let rows ← updateTaskRuns (fun _ => leaseExpired clock.utcnow) reaped reaped_id
  closeReaped clock rows
  return rows.length

end TaskQueueRepository

end Conductor
