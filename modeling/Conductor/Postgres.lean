/-
The system as it runs: on PostgreSQL, and with the floats of the interpreter.

Two things keep a transaction from being carried out here that the other files leave out.
PostgreSQL refuses to write U+0000, and a retry policy whose power overflows raises when a
failure is reported. Neither does anything else: what a transaction does here it does
there, or it raises and leaves the database as it was.
-/
import Conductor.NulText

set_option autoImplicit false

open Relational Txn

namespace Conductor

open RunRepository TaskQueueRepository WorkflowRepository

variable {checks : Bool} {db db' : Db}

/-! ## Reports that overflow -/

/-- The failure of a row is reported whose policy overflows when it is asked for the delay. -/
def Db.overflows (db : Db) (task_run_id : UUID) (worker_id : String) : Bool :=
  (db.task_runs.get task_run_id).any (fun row => row.worker_id = some worker_id &&
    (db.tasks.get row.task_id).any (fun task =>
      (build_policy (some task.retry_policy)).toOption.any (fun policy =>
        policy.overflows row.attempt)))

/-- What is reported of a row asks for such a delay. -/
def Result.overflows (db : Db) (task_run_id : UUID) (worker_id : String) : Result → Bool
  | .success _ => false
  | .failure _ => db.overflows task_run_id worker_id

/-- A row is asked for the policy of its own task. -/
theorem Db.overflows_of_row {task_run_id : UUID} {worker_id : String} {row : TaskRun} {task : Task}
    {policy : RetryPolicy} (hrow : db.task_runs.get task_run_id = some row)
    (hworker : row.worker_id = some worker_id) (htask : db.tasks.get row.task_id = some task)
    (hpolicy : build_policy (some task.retry_policy) = .ok policy) :
    db.overflows task_run_id worker_id = policy.overflows row.attempt := by
  unfold Db.overflows
  rw [hrow, Option.any_some, htask, Option.any_some, hpolicy, hworker, decide_eq_true rfl,
    Bool.true_and]
  rfl

/-- **Floats and exact arithmetic in a transaction:** where the policy overflows it raises
before it has written anything, and otherwise the two are the same. -/
theorem exec_float_record_failure (S : Store Db Exn Lock) (clock : Clock) (uniform : ℚ → ℚ)
    (rounds : ℕ) (task_run_id : UUID) (worker_id error : String) (db : Db) :
    exec S (float_record_failure clock uniform rounds task_run_id worker_id error) db =
      if db.overflows task_run_id worker_id then .error outOfRange
      else exec S (record_failure clock uniform rounds task_run_id worker_id error) db := by
  unfold float_record_failure record_failure record_failure_with Db.overflows
  rw [exec_read, exec_read]
  cases db.task_runs.get task_run_id with
  | none => rfl
  | some row =>
      by_cases hworker : row.worker_id = some worker_id
      · cases htask : db.tasks.get row.task_id with
        | none => simp [hworker, htask]
        | some task =>
            cases hpolicy : build_policy (some task.retry_policy) with
            | error e => simp [hworker, htask, hpolicy, Prog.lift, Except.toOption]
            | ok policy =>
                cases hfine : policy.overflows row.attempt with
                | true =>
                    simp [hworker, htask, hpolicy, hfine, Prog.lift, Except.toOption,
                      policy.float_next_delay_eq]
                | false =>
                    simp [hworker, htask, hpolicy, hfine, Prog.lift, Except.toOption,
                      policy.float_next_delay_eq]
      · simp [hworker]

theorem exec_float_complete (S : Store Db Exn Lock) (rounds : ℕ) (report : Report) (db : Db) :
    exec S (float_complete rounds report) db =
      if report.result.overflows db report.task_run_id report.worker_id then .error outOfRange
      else exec S (complete rounds report) db := by
  unfold float_complete complete complete_with recordResult_with Result.overflows
  cases report.result with
  | success output => rfl
  | failure error =>
      dsimp only
      rw [exec_bind, exec_bind, exec_bind, exec_bind, exec_float_record_failure]
      cases db.overflows report.task_run_id report.worker_id with
      | true => rfl
      | false => rfl

/-! ## The transactions -/

/-- The database after a transaction: as it left it, or unchanged if it raised. -/
def pgCommit {α : Type} (checks : Bool) (tx : Tx α) (db : Db) : Db :=
  match exec (postgres checks) tx db with
  | .ok out => out.1
  | .error _ => db

/-- The database after an operation. -/
def pgServe (checks : Bool) (db : Db) : Op → Db
  | .publish ids now name specs description =>
      pgCommit checks (create ids now name specs description) db
  | .submit ids clock workflow_id trigger_payload =>
      pgCommit checks (submitRun ids clock workflow_id trigger_payload) db
  | .claim lease_seconds clock tie worker_id limit =>
      pgCommit checks (claim_batch lease_seconds clock tie worker_id limit) db
  | .renew lease_seconds clock task_run_id worker_id =>
      pgCommit checks (renew_lease lease_seconds clock task_run_id worker_id) db
  | .success clock task_run_id worker_id output =>
      pgCommit checks (record_success clock task_run_id worker_id output) db
  | .failure clock uniform task_run_id worker_id error =>
      pgCommit checks
        (float_record_failure clock uniform (walkRounds db) task_run_id worker_id error) db
  | .reap clock => pgCommit checks (reap_expired_leases clock) db
  | .cancel clock run_id => pgCommit checks (RunRepository.cancel clock run_id) db
  | .refresh clock run_id => pgCommit checks (refresh_run_state clock run_id) db

/-- The database after a request. -/
def pgTransact (checks : Bool) (db : Db) : Request → Db
  | .op op => pgServe checks db op
  | .complete report => pgCommit checks (float_complete (walkRounds db) report) db

/-- The databases of the system on PostgreSQL. -/
def PgReachable (checks : Bool) : Db → Prop :=
  Lts.Reach (fun db => Initial db ∧ db.Clean) (fun db op db' => pgServe checks db op = db')

/-- PostgreSQL carries a transaction out as the database does, or refuses it. -/
theorem pgCommit_cases {α : Type} (tx : Tx α) (db : Db) :
    pgCommit checks tx db = db ∨ pgCommit checks tx db = commit checks tx db := by
  unfold pgCommit
  cases h : exec (postgres checks) tx db with
  | error e => exact .inl rfl
  | ok out => exact .inr (commit_ok (exec_of_postgres h).1).symm

theorem pgCommit_clean {α : Type} (tx : Tx α) (hdb : db.Clean) : (pgCommit checks tx db).Clean := by
  unfold pgCommit
  cases h : exec (postgres checks) tx db with
  | error e => exact hdb
  | ok out => exact (exec_of_postgres h).2 hdb

theorem pgCommit_eq {α : Type} {tx tx' : Tx α}
    (h : exec (postgres checks) tx db = exec (store checks) tx' db) :
    pgCommit checks tx db = commit checks tx' db := by
  cases hrun : exec (store checks) tx' db with
  | error e => rw [pgCommit, commit, h.trans hrun, hrun]
  | ok out => rw [pgCommit, commit, h.trans hrun, hrun]

/-- A transaction that is another one unless it raises. -/
theorem pgCommit_or {α : Type} {tx tx' : Tx α} {raises : Bool} {e : Exn}
    (h : exec (postgres checks) tx db =
      if raises then .error e else exec (postgres checks) tx' db) :
    pgCommit checks tx db = db ∨ pgCommit checks tx db = commit checks tx' db := by
  have hsame : pgCommit checks tx db = if raises then db else pgCommit checks tx' db := by
    unfold pgCommit
    rw [h]
    cases raises with
    | true => rfl
    | false => rfl
  rw [hsame]
  split
  · exact .inl rfl
  · exact pgCommit_cases tx' db

theorem pgServe_cases (db : Db) (op : Op) :
    pgServe checks db op = db ∨ pgServe checks db op = serve checks db op := by
  cases op with
  | failure clock uniform task_run_id worker_id error =>
      exact pgCommit_or (exec_float_record_failure _ clock uniform _ task_run_id worker_id error db)
  | _ => exact pgCommit_cases _ _

theorem pgServe_clean (hdb : db.Clean) (op : Op) : (pgServe checks db op).Clean := by
  cases op <;> exact pgCommit_clean _ hdb

theorem pgTransact_cases (db : Db) (request : Request) :
    pgTransact checks db request = db ∨
      pgTransact checks db request = transact checks db request := by
  cases request with
  | op op => exact pgServe_cases db op
  | complete report =>
      exact pgCommit_or (exec_float_complete _ _ report db)

/-- The database satisfies the invariant and holds no U+0000. -/
structure Db.Sound (checks : Bool) (db : Db) : Prop where
  inv : Inv checks db
  clean : db.Clean

theorem Db.Sound.pgServe (h : db.Sound checks) (op : Op) :
    (pgServe checks db op).Sound checks := by
  refine ⟨?_, pgServe_clean h.clean op⟩
  rcases pgServe_cases db op with hsame | hserved
  · rw [hsame]
    exact h.inv
  · rw [hserved]
    exact serve_inv h.inv op

theorem Db.Sound.pgTransact (h : db.Sound checks) (request : Request) :
    (pgTransact checks db request).Sound checks := by
  constructor
  · rcases pgTransact_cases db request with hsame | hdone
    · rw [hsame]
      exact h.inv
    · rw [hdone]
      exact transact_inv h.inv request
  · cases request with
    | op op => exact pgServe_clean h.clean op
    | complete report => exact pgCommit_clean _ h.clean

theorem PgReachable.sound (h : PgReachable checks db) : db.Sound checks := by
  refine Lts.Reach.invariant (P := Db.Sound checks) (fun _ hi => ⟨hi.1.inv, hi.2⟩)
    (fun db op db' _ hsound hstep => ?_) h
  rw [← hstep]
  exact hsound.pgServe op

/-- The database after some operations, from the empty one. -/
def pgServed (checks : Bool) (ops : List Op) : Db := ops.foldl (pgServe checks) Db.empty

theorem pgReachable_served (checks : Bool) (ops : List Op) :
    PgReachable checks (pgServed checks ops) :=
  Lts.Reach.foldl (.start ⟨initial_empty, by rfl⟩) ops

/-- The database after some requests, from the empty one. -/
def pgTransacted (checks : Bool) (requests : List Request) : Db :=
  requests.foldl (pgTransact checks) Db.empty

end Conductor
