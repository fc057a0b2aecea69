/-
`POST /runs`: `create_run` of `api/routes/runs.py`, with what it uses of
`api/schemas.py`, `api/deps.py` and `api/errors.py`.

The handler is one transaction: `db_session` commits when it returns and rolls back
when it raises. Rate limiting and the validation of the body come before the session
is opened and are left out. `request_fingerprint` of a body, a SHA-256 of its JSON
text, is a parameter.
-/
import Conductor.Runs

set_option autoImplicit false

open Relational

namespace Conductor

open RunRepository WorkflowRepository

/-! ## Schemas -/

structure RunCreate where
  workflow_name : String
  workflow_version : Option ℤ
  payload : Dict

structure TaskRunResponse where
  id : UUID
  key : String
  state : TaskState
  attempt : ℤ
  max_attempts : ℤ
  scheduled_at : Time
  started_at : Option Time
  finished_at : Option Time
  last_error : Option String
  output : Option Dict

structure RunResponse where
  id : UUID
  workflow_id : UUID
  state : RunState
  created_at : Time
  started_at : Option Time
  finished_at : Option Time
  tasks : List TaskRunResponse

/-! ## Problems -/

/-- An `application/problem+json` document, less the path of the request. -/
structure Problem where
  type : String
  title : String
  status : ℕ
  detail : String
  cycle : Option (List String)
deriving DecidableEq

def PROBLEM_BASE : String := "https://conductor.dev/problems"

/-- The `type` of a document. -/
def problemType (problem_type : String) : String :=
  if "http".toList.isPrefixOf problem_type.toList then problem_type
  else PROBLEM_BASE ++ "/" ++ problem_type

/-- The document an exception is answered with. Those without one end as a 500. -/
def register_error_handlers : Exn → Option Problem
  | .ProblemDetail status_code title detail problem_type =>
      some ⟨problemType problem_type, title, status_code, detail, none⟩
  | .NotFoundError msg => some ⟨problemType "not-found", "Resource not found", 404, msg, none⟩
  | .ConflictError msg => some ⟨problemType "conflict", "Conflict", 409, msg, none⟩
  | .CycleError cycle =>
      some ⟨problemType "workflow-cycle", "Workflow contains a cycle", 422,
        "workflow contains a cycle: " ++ " -> ".intercalate cycle, some cycle⟩
  | .ValueError msg => some ⟨problemType "invalid-request", "Invalid request", 422, msg, none⟩
  | _ => none

/-- The status of the reply to an exception. -/
def errorStatus (e : Exn) : ℕ := ((register_error_handlers e).map Problem.status).getD 500

/-! ## The handler -/

namespace Api

/-- A request to `POST /runs`, with the ids and the clock its handler gets. -/
structure PostRun where
  body : RunCreate
  idempotency_key : Option String
  ids : RunIds
  clock : Clock

/-- A reply that is not an error. -/
structure RunReply where
  status_code : ℕ
  run : RunResponse

def toTaskResponse : TaskRun × Option Task → Except Exn TaskRunResponse
  | (_, none) => .error (.AttributeError "'NoneType' object has no attribute 'key'")
  | (r, some task) => .ok
      { id := r.id, key := task.key, state := r.state, attempt := r.attempt
        max_attempts := r.max_attempts, scheduled_at := r.scheduled_at, started_at := r.started_at
        finished_at := r.finished_at, last_error := r.last_error, output := r.output }

/-- `_to_response`. -/
def to_response (loaded : LoadedRun) : Except Exn RunResponse := do
  let tasks ← loaded.task_runs.mapM toTaskResponse
  return { id := loaded.run.id, workflow_id := loaded.run.workflow_id, state := loaded.run.state
           created_at := loaded.run.created_at, started_at := loaded.run.started_at
           finished_at := loaded.run.finished_at
           tasks := tasks.insertionSort (fun a b => a.key ≤ b.key) }

variable (fingerprint : RunCreate → String)

/-- The first `if` of `create_run`: the reply for a key that has been used before. -/
def replay (post : PostRun) : Tx (Option RunReply) :=
  match post.idempotency_key with
  | none => .ret none
  | some key => .read (fun db =>
      match db.idempotency_keys.get key with
      | none => .ret none
      | some existing =>
          if existing.request_hash ≠ fingerprint post.body then
            .raise (.ProblemDetail 409 "Idempotency key reused"
              "this Idempotency-Key was already used with a different request body"
              "idempotency-key-reused")
          else do
            match ← get_with_tasks existing.run_id with
            | none => return none
            | some loaded =>
                let response ← Txn.Prog.lift (to_response loaded)
                return some ⟨200, response⟩)

/-- The row that marks a key as used. -/
def keyRow (post : PostRun) (key : String) (run_id : UUID) : IdempotencyKey where
  key := key
  request_hash := fingerprint post.body
  run_id := run_id
  created_at := post.clock.now

/-- The second `if` and the flush: without a key there is nothing left to write. -/
def recordKey (post : PostRun) (run_id : UUID) : Tx Unit :=
  match post.idempotency_key with
  | none => .ret ()
  | some key => do
      let row ← newTable IdempotencyKey.key (.IntegrityError "idempotency_keys_pkey")
        [keyRow fingerprint post key run_id]
      insertRows { Db.empty with idempotency_keys := row } id

/-- The workflow a body names. -/
def resolve (body : RunCreate) : Tx (Option Workflow) :=
  match body.workflow_version with
  | some version => get_version body.workflow_name version
  | none => get_latest body.workflow_name

/-- The part of `create_run` that starts a run. -/
def startRun (post : PostRun) : Tx RunReply := do
  match ← resolve post.body with
  | none =>
      .raise (.NotFoundError ("workflow " ++ pyRepr post.body.workflow_name ++ " not found"))
  | some workflow =>
      let dependencies ← Txn.Prog.read (fun db => .ret (dependencies db workflow.id))
      let run ← RunRepository.create_run post.ids post.clock workflow dependencies
        (some post.body.payload)
      recordKey fingerprint post run.id
      match ← get_with_tasks run.id with
      | none => .raise (.AssertionError "")
      | some created =>
          let response ← Txn.Prog.lift (to_response created)
          return ⟨201, response⟩

/-- Start a run of a workflow. -/
def create_run (post : PostRun) : Tx RunReply := do
  match ← replay fingerprint post with
  | some reply => return reply
  | none => startRun fingerprint post

end Api

end Conductor
