/-
`db/repositories/workflows.py`: publishing a workflow definition and reading its
dependency map back.
-/
import Conductor.Dag
import Conductor.Retry
import Conductor.Models

set_option autoImplicit false

open Relational

namespace Conductor

/-- A validated task definition, as accepted by the API. -/
structure TaskSpec where
  key : String
  executor : String
  params : Dict
  depends_on : List String
  retry_policy : Dict
  priority : ℤ
  timeout_seconds : ℚ

/-- The ids a publish draws: one for the workflow, one for each task key. -/
structure WorkflowIds where
  workflow_id : UUID
  task_id : String → UUID

namespace WorkflowRepository

/-- The loop over the specs in `create`: every dependency is a known key, and
every retry policy builds. -/
def checkTasks (known : List String) : List TaskSpec → Except Exn Unit
  | [] => .ok ()
  | task :: rest => do
      let unknown := (task.depends_on.filter (· ∉ known)).dedup
      if !unknown.isEmpty then
        .error (.ValueError ("task " ++ pyRepr task.key ++ " depends on unknown tasks: "
          ++ pyReprList (unknown.insertionSort (· ≤ ·))))
      let _ ← build_policy (some task.retry_policy)
      checkTasks known rest

/-- A graph error as it leaves `create`. -/
def ofDagError : DagError String → Exn
  | .CycleError cycle => .CycleError cycle
  | .UnknownNodeError node => .UnknownNodeError node
  | .ValueError node msg => .ValueError (pyRepr node ++ msg)
  | .AssertionError msg => .AssertionError msg
  | .Unfinished => .Unfinished

/-- `{task.key: list(task.depends_on) for task in tasks}`. -/
def dependencyMap (tasks : List TaskSpec) : OrderedDict String (List String) :=
  tasks.foldl (fun d task => OrderedDict.set d task.key task.depends_on) Table.empty

/-- Everything `create` checks before it touches the database. -/
def checkSpecs (tasks : List TaskSpec) : Except Exn Unit := do
  if tasks.isEmpty then
    .error (.ValueError "a workflow must contain at least one task")
  let keys := tasks.map TaskSpec.key
  let duplicates := (keys.filter (fun key => 1 < keys.count key)).dedup
  if !duplicates.isEmpty then
    .error (.ValueError ("duplicate task keys: " ++ pyReprList (duplicates.insertionSort (· ≤ ·))))
  checkTasks keys tasks
  match Dag.from_dependencies (dependencyMap tasks) with
  | .error e => .error (ofDagError e)
  | .ok graph =>
      match graph.topological_order with
      | .error e => .error (ofDagError e)
      | .ok _ => .ok ()

/-- `_next_version`. -/
def next_version (name : String) : Tx ℤ :=
  .read (fun db =>
    .ret (((db.workflows.rows.filter (fun w => w.name = name)).map Workflow.version).foldl max 0
      + 1))

def newTask (ids : WorkflowIds) (spec : TaskSpec) : Task where
  id := ids.task_id spec.key
  workflow_id := ids.workflow_id
  key := spec.key
  executor := spec.executor
  params := spec.params
  retry_policy := spec.retry_policy
  priority := spec.priority
  timeout_seconds := spec.timeout_seconds

def newDependencies (ids : WorkflowIds) (tasks : List TaskSpec) : List TaskDependency :=
  tasks.flatMap (fun spec =>
    spec.depends_on.map (fun parent => ⟨ids.task_id parent, ids.task_id spec.key⟩))

/-- Publish a new version of a workflow. Only the last of its three flushes has
an `except IntegrityError` around it. -/
def create (ids : WorkflowIds) (now : Time) (name : String) (tasks : List TaskSpec)
    (description : Option String) : Tx Workflow := do
  Txn.Prog.lift (checkSpecs tasks)
  let version ← next_version name
  let workflow : Workflow :=
    { id := ids.workflow_id, name := name, version := version, description := description
      created_at := now }
  let row ← newTable Workflow.id (.IntegrityError "workflows_pkey") [workflow]
  insertRows { Db.empty with workflows := row } id
  let rows ← newTable Task.id (.IntegrityError "tasks_pkey") (tasks.map (newTask ids))
  insertRows { Db.empty with tasks := rows } id
  let conflict : Exn := .ConflictError
    ("workflow " ++ pyRepr name ++ " version " ++ toString version ++ " already exists")
  let edges ← newTable TaskDependency.pk conflict (newDependencies ids tasks)
  insertRows { Db.empty with task_dependencies := edges } (fun e =>
    match e with
    | .IntegrityError _ => conflict
    | e => e)
  return workflow

/-- Resolve a name to its newest version. -/
def get_latest (name : String) : Tx (Option Workflow) :=
  .read (fun db => .ret (((db.workflows.rows.filter (fun w => w.name = name)).insertionSort
    (fun v w => w.version ≤ v.version)).head?))

def get_version (name : String) (version : ℤ) : Tx (Option Workflow) :=
  .read (fun db =>
    .ret (db.workflows.rows.find? (fun w => w.name = name ∧ w.version = version)))

/-- The `{task_key: [parent keys]}` map of a workflow. -/
def dependencies (db : Db) (workflow_id : UUID) : OrderedDict String (List String) :=
  let rows := db.task_dependencies.rows.filterMap (fun e => do
    let parent ← db.tasks.get e.parent_task_id
    let child ← db.tasks.get e.child_task_id
    if child.workflow_id = workflow_id then some (child.key, parent.key) else none)
  let keys := (db.tasks.rows.filter (fun t => t.workflow_id = workflow_id)).map Task.key
  rows.foldl (fun d row => OrderedDict.modify d row.1 (· ++ [row.2]))
    (keys.foldl (fun d key => OrderedDict.set d key []) Table.empty)

end WorkflowRepository

end Conductor
