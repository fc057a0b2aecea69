/-
`db/models.py`: the relational schema, as far as the service's transactions read
and write it.

A table is a `Relational.Table` on its primary key. `task_attempts` is keyed by
its `UNIQUE (task_run_id, attempt)` instead of by its generated id, which nothing
reads; the registry of workers is left out, because no queue operation consults
it. Columns that the schema declares as `String(32)` and that only ever hold an
enumeration are that enumeration.

The database is a `Txn.Store`: a transaction's writes are rows laid over the
committed ones, an `INSERT` is refused when a key or unique value is taken, and
any write is refused when a row it writes violates a `CHECK`. Foreign keys are
not checked: rows are never deleted and every insert of the service names rows
it has just read or written. `checks = false` is the schema without its `CHECK`
constraints.
-/
import Mathlib.Data.Rat.Defs
import Mathlib.Algebra.Order.Ring.Rat
import Conductor.State
import Conductor.Lib.Tables
import Conductor.Lib.Txn

set_option autoImplicit false

open Relational

namespace Conductor

/-! ## Rows -/

/-- An immutable, versioned workflow definition. -/
structure Workflow where
  id : UUID
  name : String
  version : ℤ
  description : Option String
  created_at : Time

/-- One node of a workflow definition. -/
structure Task where
  id : UUID
  workflow_id : UUID
  key : String
  executor : String
  params : Dict
  retry_policy : Dict
  priority : ℤ
  timeout_seconds : ℚ

/-- A single DAG edge: `child` waits for `parent`. -/
structure TaskDependency where
  parent_task_id : UUID
  child_task_id : UUID
deriving DecidableEq

def TaskDependency.pk (d : TaskDependency) : UUID × UUID := (d.parent_task_id, d.child_task_id)

/-- One execution of one workflow version. -/
structure WorkflowRun where
  id : UUID
  workflow_id : UUID
  state : RunState
  trigger_payload : Dict
  created_at : Time
  started_at : Option Time
  finished_at : Option Time
  version : ℤ

/-- One task within one run: the queue row workers compete for. -/
structure TaskRun where
  id : UUID
  run_id : UUID
  task_id : UUID
  state : TaskState
  pending_deps : ℤ
  attempt : ℤ
  max_attempts : ℤ
  priority : ℤ
  scheduled_at : Time
  lease_expires_at : Option Time
  worker_id : Option String
  started_at : Option Time
  finished_at : Option Time
  last_error : Option String
  output : Option Dict
  version : ℤ

/-- An append-only record of one execution attempt. -/
structure TaskAttempt where
  task_run_id : UUID
  attempt : ℤ
  worker_id : String
  state : TaskState
  started_at : Time
  finished_at : Option Time
  duration_ms : Option ℚ
  error : Option String

def TaskAttempt.pk (a : TaskAttempt) : UUID × ℤ := (a.task_run_id, a.attempt)

/-- Deduplicates run submissions. -/
structure IdempotencyKey where
  key : String
  request_hash : String
  run_id : UUID
  created_at : Time

/-! ## The database -/

structure Db where
  workflows : Table UUID Workflow Workflow.id
  tasks : Table UUID Task Task.id
  task_dependencies : Table (UUID × UUID) TaskDependency TaskDependency.pk
  workflow_runs : Table UUID WorkflowRun WorkflowRun.id
  task_runs : Table UUID TaskRun TaskRun.id
  task_attempts : Table (UUID × ℤ) TaskAttempt TaskAttempt.pk
  idempotency_keys : Table String IdempotencyKey IdempotencyKey.key

namespace Db

def empty : Db :=
  ⟨Table.empty, Table.empty, Table.empty, Table.empty, Table.empty, Table.empty, Table.empty⟩

/-- Written rows read on top of a database. -/
def overlay (d db : Db) : Db where
  workflows := d.workflows.overlay db.workflows
  tasks := d.tasks.overlay db.tasks
  task_dependencies := d.task_dependencies.overlay db.task_dependencies
  workflow_runs := d.workflow_runs.overlay db.workflow_runs
  task_runs := d.task_runs.overlay db.task_runs
  task_attempts := d.task_attempts.overlay db.task_attempts
  idempotency_keys := d.idempotency_keys.overlay db.idempotency_keys

end Db

/-! ## Constraints -/

/-- The first `CHECK` on `task_runs` that a row violates. -/
def TaskRun.violates (r : TaskRun) : Option String :=
  if r.attempt < 0 then some "ck_task_runs_attempt_non_negative"
  else if r.max_attempts < r.attempt then some "ck_task_runs_attempt_within_budget"
  else if decide (r.state = .RUNNING) ≠ (r.lease_expires_at.isSome && r.worker_id.isSome) then
    some "ck_task_runs_lease_iff_running"
  else if r.pending_deps < 0 then some "ck_task_runs_pending_deps_non_negative"
  else none

def WorkflowRun.violates (r : WorkflowRun) : Option String :=
  if r.finished_at.isSome && r.started_at.isNone then some "ck_runs_finished_implies_started"
  else none

def TaskAttempt.violates (a : TaskAttempt) : Option String :=
  if a.attempt < 1 then some "ck_task_attempts_attempt_positive" else none

def Workflow.violates (w : Workflow) : Option String :=
  if w.version < 1 then some "ck_workflows_version_positive" else none

def Task.violates (t : Task) : Option String :=
  if t.timeout_seconds ≤ 0 then some "ck_tasks_timeout_positive"
  else if t.key.isEmpty then some "ck_tasks_key_not_blank"
  else none

def TaskDependency.violates (d : TaskDependency) : Option String :=
  if d.parent_task_id = d.child_task_id then some "ck_task_deps_no_self_loop" else none

/-- The first `CHECK` that a written row violates. -/
def Db.violates (d : Db) : Option String :=
  (d.workflows.rows.findSome? Workflow.violates).or <|
  (d.tasks.rows.findSome? Task.violates).or <|
  (d.task_dependencies.rows.findSome? TaskDependency.violates).or <|
  (d.workflow_runs.rows.findSome? WorkflowRun.violates).or <|
  (d.task_runs.rows.findSome? TaskRun.violates).or <|
  d.task_attempts.rows.findSome? TaskAttempt.violates

/-- A unique index on `u` that inserting `new` beside `existing` would violate. -/
def uniqueConflict {ρ κ : Type} [DecidableEq κ] (name : String) (u : ρ → κ)
    (existing new : List ρ) : Option String :=
  if new.any (fun r => existing.any (fun s => u s = u r)) || !decide (new.map u).Nodup then
    some name
  else none

/-- The first unique index an `INSERT` of `d` into `db` would violate. -/
def Db.conflict (db d : Db) : Option String :=
  (uniqueConflict "workflows_pkey" Workflow.id db.workflows.rows d.workflows.rows).or <|
  (uniqueConflict "uq_workflows_name_version" (fun w : Workflow => (w.name, w.version))
    db.workflows.rows d.workflows.rows).or <|
  (uniqueConflict "tasks_pkey" Task.id db.tasks.rows d.tasks.rows).or <|
  (uniqueConflict "uq_tasks_workflow_key" (fun t : Task => (t.workflow_id, t.key))
    db.tasks.rows d.tasks.rows).or <|
  (uniqueConflict "task_dependencies_pkey" TaskDependency.pk
    db.task_dependencies.rows d.task_dependencies.rows).or <|
  (uniqueConflict "workflow_runs_pkey" WorkflowRun.id
    db.workflow_runs.rows d.workflow_runs.rows).or <|
  (uniqueConflict "task_runs_pkey" TaskRun.id db.task_runs.rows d.task_runs.rows).or <|
  (uniqueConflict "uq_task_runs_run_task" (fun r : TaskRun => (r.run_id, r.task_id))
    db.task_runs.rows d.task_runs.rows).or <|
  (uniqueConflict "uq_task_attempts_run_attempt" TaskAttempt.pk
    db.task_attempts.rows d.task_attempts.rows).or <|
  uniqueConflict "idempotency_keys_pkey" IdempotencyKey.key
    db.idempotency_keys.rows d.idempotency_keys.rows

/-- Why a write is refused, if it is. -/
def Db.validate (checks : Bool) (kind : Txn.Kind) (db d : Db) : Option Exn :=
  ((if kind = .insert then db.conflict d else none).or
    (if checks then d.violates else none)).map .IntegrityError

/-! ## Locks

A transaction that has written a row holds it until it ends, and with an inserted
row it holds the entries of the unique indexes. -/

inductive Lock where
  | workflow (id : UUID)
  | workflowVersion (name : String) (version : ℤ)
  | task (id : UUID)
  | dependency (parent child : UUID)
  | workflowRun (id : UUID)
  | taskRun (id : UUID)
  | taskAttempt (task_run_id : UUID) (attempt : ℤ)
  | idempotencyKey (key : String)
deriving DecidableEq

namespace Db

def locks (d : Db) : List Lock :=
  d.workflows.rows.map (fun w => .workflow w.id)
    ++ d.workflows.rows.map (fun w => .workflowVersion w.name w.version)
    ++ d.tasks.rows.map (fun t => .task t.id)
    ++ d.task_dependencies.rows.map (fun e => .dependency e.parent_task_id e.child_task_id)
    ++ d.workflow_runs.rows.map (fun r => .workflowRun r.id)
    ++ d.task_runs.rows.map (fun r => .taskRun r.id)
    ++ d.task_attempts.rows.map (fun a => .taskAttempt a.task_run_id a.attempt)
    ++ d.idempotency_keys.rows.map (fun k => .idempotencyKey k.key)

/-- The rows of `d` whose own lock passes `p`. -/
def keep (p : Lock → Bool) (d : Db) : Db where
  workflows := d.workflows.restrict (fun w => p (.workflow w.id))
  tasks := d.tasks.restrict (fun t => p (.task t.id))
  task_dependencies :=
    d.task_dependencies.restrict (fun e => p (.dependency e.parent_task_id e.child_task_id))
  workflow_runs := d.workflow_runs.restrict (fun r => p (.workflowRun r.id))
  task_runs := d.task_runs.restrict (fun r => p (.taskRun r.id))
  task_attempts := d.task_attempts.restrict (fun a => p (.taskAttempt a.task_run_id a.attempt))
  idempotency_keys := d.idempotency_keys.restrict (fun k => p (.idempotencyKey k.key))

end Db

/-- The database as the transactions of the service use it. -/
def store (checks : Bool) : Txn.Store Db Exn Lock where
  empty := .empty
  overlay := Db.overlay
  locks := Db.locks
  keep := Db.keep
  validate := Db.validate checks
  empty_overlay d := by simp [Db.overlay, Db.empty]
  overlay_overlay d e f := by simp [Db.overlay, Table.overlay_overlay]

/-! ## Statements -/

/-- A transaction of the service. -/
abbrev Tx (α : Type) := Txn.Prog Db Exn α

/-- `UPDATE task_runs SET f WHERE p RETURNING *`. The filter may hold a
sub-select, hence the database it is evaluated on. -/
def updateTaskRuns (p : Db → TaskRun → Bool) (f : TaskRun → TaskRun)
    (hf : ∀ r, (f r).id = r.id) : Tx (List TaskRun) :=
  .write .update (fun db => { Db.empty with task_runs := db.task_runs.updated (p db) f hf }) id
    (fun d => .ret d.task_runs.rows)

/-- `UPDATE workflow_runs SET f WHERE p`. -/
def updateRuns (p : WorkflowRun → Bool) (f : WorkflowRun → WorkflowRun)
    (hf : ∀ r, (f r).id = r.id) : Tx Unit :=
  .write .update (fun db => { Db.empty with workflow_runs := db.workflow_runs.updated p f hf }) id
    (fun _ => .ret ())

/-- `UPDATE task_attempts SET f WHERE p`. -/
def updateAttempts (p : TaskAttempt → Bool) (f : TaskAttempt → TaskAttempt)
    (hf : ∀ a, (f a).pk = a.pk) : Tx Unit :=
  .write .update (fun db => { Db.empty with task_attempts := db.task_attempts.updated p f hf }) id
    (fun _ => .ret ())

/-- A flush that inserts rows; `handler` is the `except` clause around it. -/
def insertRows (d : Db) (handler : Exn → Exn) : Tx Unit :=
  .write .insert (fun _ => d) handler (fun _ => .ret ())

/-- New rows as a table, or the exception that two of them share a key. -/
def newTable {κ ρ : Type} (key : ρ → κ) [DecidableEq κ] (e : Exn) (rows : List ρ) :
    Tx (Table κ ρ key) :=
  if h : (rows.map key).Nodup then .ret ⟨rows, h⟩ else .raise e

end Conductor
