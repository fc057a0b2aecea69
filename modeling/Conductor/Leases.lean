/-
The lease columns, without the help of the schema.

`ck_task_runs_lease_iff_running` and `ck_task_runs_pending_deps_non_negative` are
there in case the code forgets. It does not: with constraint checks switched off
every reachable row is lawful, so that switching them on again refuses no
operation on their account. For the second half `Prog.Raises` says what an
operation raises of itself and `LawfulWrite` what it writes; a store that refuses
lawful rows does so for other reasons.
-/
import Conductor.Service

set_option autoImplicit false

open Relational Txn

namespace Conductor

open RunRepository TaskQueueRepository WorkflowRepository

/-! ## What an operation raises -/

/-- The exception that a transaction ends with, if it does. -/
def refusal {α : Type} (checks : Bool) (tx : Tx α) (db : Db) : Option Exn :=
  match exec (store checks) tx db with
  | .ok _ => none
  | .error e => some e

/-- The exception that an operation ends with, if it does. -/
def raised (checks : Bool) (db : Db) : Op → Option Exn
  | .publish ids now name specs description =>
      refusal checks (create ids now name specs description) db
  | .submit ids clock workflow_id trigger_payload =>
      refusal checks (submitRun ids clock workflow_id trigger_payload) db
  | .claim lease_seconds clock tie worker_id limit =>
      refusal checks (claim_batch lease_seconds clock tie worker_id limit) db
  | .renew lease_seconds clock task_run_id worker_id =>
      refusal checks (renew_lease lease_seconds clock task_run_id worker_id) db
  | .success clock task_run_id worker_id output =>
      refusal checks (record_success clock task_run_id worker_id output) db
  | .failure clock uniform task_run_id worker_id error =>
      refusal checks (record_failure clock uniform (walkRounds db) task_run_id worker_id error) db
  | .reap clock => refusal checks (reap_expired_leases clock) db
  | .cancel clock run_id => refusal checks (RunRepository.cancel clock run_id) db
  | .refresh clock run_id => refusal checks (refresh_run_state clock run_id) db

/-- The two checks on the lease columns and the counter. -/
def leaseChecks : List String :=
  ["ck_task_runs_lease_iff_running", "ck_task_runs_pending_deps_non_negative"]

/-- The exception is not a violation of one of them. -/
def Unrelated (e : Exn) : Prop := ∀ c ∈ leaseChecks, e ≠ .IntegrityError c

instance (e : Exn) : Decidable (Unrelated e) := by
  unfold Unrelated
  infer_instance

/-- The exception comes from a refused statement. -/
def Exn.isIntegrityError : Exn → Bool
  | .IntegrityError _ => true
  | _ => false

/-- Any other exception than an `IntegrityError` will do. -/
theorem unrelated_of_other {e : Exn} (h : e.isIntegrityError = false) : Unrelated e := by
  rintro c - rfl
  cases h

section Raising

/-- A value that is no integer raises a `TypeError`. -/
theorem raising_integer (value : Json) : Raising Unrelated value.integer := by
  unfold Json.integer
  split
  · exact .ok _
  · exact .ok _
  · split
    · exact .ok _
    · exact .error (unrelated_of_other rfl)
  · exact .error (unrelated_of_other rfl)

theorem raising_number (value : Json) : Raising Unrelated value.number := by
  unfold Json.number
  split
  · exact .ok _
  · exact .ok _
  · exact .ok _
  · exact .error (unrelated_of_other rfl)

theorem raising_kwarg {α : Type} {kwargs : List (String × Json)} {name : String}
    {convert : Json → Except Exn α} {default : α}
    (h : ∀ value, Raising Unrelated (convert value)) :
    Raising Unrelated (kwarg kwargs name convert default) := by
  unfold kwarg
  split
  · exact .ok _
  · exact h _

theorem raising_validate (attempts : ℤ) (delay : ℚ) :
    Raising Unrelated (validate attempts delay) := by
  unfold validate
  split
  · exact .error (unrelated_of_other rfl)
  · split
    · exact .error (unrelated_of_other rfl)
    · exact .ok _

theorem raising_exponential (base factor : ℚ) (attempts : ℤ) (max_delay : ℚ) (jitter : Bool) :
    Raising Unrelated (ExponentialBackoff.new base factor attempts max_delay jitter) := by
  refine (raising_validate attempts base).bind (fun h => ?_)
  split
  · exact .error (unrelated_of_other rfl)
  · split
    · exact .error (unrelated_of_other rfl)
    · exact .ok _

/-- A constructor raises over its arguments, and never over the database. -/
theorem raising_constructPolicy (kind : String) (kwargs : List (String × Json)) :
    Raising Unrelated (constructPolicy kind kwargs) := by
  unfold constructPolicy
  split
  · exact .error (unrelated_of_other rfl)
  · split
    · exact .ok _
    · split
      · refine (raising_kwarg raising_integer).bind (fun attempts => ?_)
        refine (raising_validate attempts 0).bind (fun _ => ?_)
        refine (raising_kwarg raising_number).bind (fun delay => ?_)
        refine Raising.bind ?_ (fun p => .ok _)
        exact (raising_validate attempts delay).bind (fun _ => .ok _)
      · refine (raising_kwarg raising_integer).bind (fun attempts => ?_)
        refine (raising_validate attempts 0).bind (fun _ => ?_)
        refine (raising_kwarg raising_number).bind (fun base => ?_)
        refine (raising_validate attempts base).bind (fun _ => ?_)
        refine (raising_kwarg raising_number).bind (fun factor => ?_)
        refine (raising_exponential _ _ _ _ _).bind (fun _ => ?_)
        refine (raising_kwarg raising_number).bind (fun max_delay => ?_)
        refine (raising_kwarg (fun _ => .ok _)).bind (fun jitter => ?_)
        exact (raising_exponential _ _ _ _ _).bind (fun _ => .ok _)

theorem raising_build_policy (spec : Option Dict) : Raising Unrelated (build_policy spec) := by
  unfold build_policy
  dsimp only
  split
  · exact .ok _
  · split
    · exact .error (unrelated_of_other rfl)
    · split
      · exact raising_constructPolicy _ _
      · exact .error (unrelated_of_other rfl)

/-- A policy raises over the number of the attempt, or because it never retries. -/
theorem raising_next_delay (policy : RetryPolicy) (uniform : ℚ → ℚ) (attempt : ℤ) :
    Raising Unrelated (policy.next_delay uniform attempt) := by
  unfold RetryPolicy.next_delay
  split
  · exact .error (unrelated_of_other rfl)
  · split
    · exact .ok _
    · refine Raising.bind ?_ (fun _ => .ok _)
      cases policy with
      | NoRetry => exact .error (unrelated_of_other rfl)
      | FixedDelay p => exact .ok _
      | ExponentialBackoff p => exact .ok _

theorem raising_mapM {α β : Type} {f : α → Except Exn β} (h : ∀ a, Raising Unrelated (f a))
    (l : List α) : Raising Unrelated (l.mapM f) := by
  induction l with
  | nil =>
      rw [List.mapM_nil]
      exact .ok _
  | cons a l ih =>
      rw [List.mapM_cons]
      exact (h a).bind (fun _ => ih.bind (fun _ => .ok _))

end Raising

/-! ## The operations raise nothing of the kind -/

section Raises

/-- An `UPDATE` passes the exception of a refused statement on, as it is. -/
theorem raises_updateTaskRuns {p : Db → TaskRun → Bool} {f : TaskRun → TaskRun}
    {hf : ∀ r, (f r).id = r.id} : (updateTaskRuns p f hf).Raises Unrelated :=
  .write (fun _ he => he) (fun _ => .ret _)

theorem raises_close_attempt (clock : Clock) (task_run_id : UUID) (attempt : ℤ)
    (state : TaskState) (error : Option String) :
    (close_attempt clock task_run_id attempt state error).Raises Unrelated :=
  .write (fun _ he => he) (fun _ => .ret _)

/-- An `INSERT` raises what its handler makes of the refusal. -/
theorem raises_insertRows {d : Db} {handler : Exn → Exn}
    (h : ∀ e, Unrelated e → Unrelated (handler e)) : (insertRows d handler).Raises Unrelated :=
  .write h (fun _ => .ret _)

/-- Rows that repeat a key are refused with the exception of that key. -/
theorem raises_newTable {κ ρ : Type} {key : ρ → κ} [DecidableEq κ] {e : Exn} {rows : List ρ}
    (he : Unrelated e) : (newTable key e rows).Raises Unrelated := by
  unfold newTable
  split
  · exact .ret _
  · exact .raise he

theorem raises_refresh_run_state (clock : Clock) (run_id : UUID) :
    (refresh_run_state clock run_id).Raises Unrelated :=
  .read (fun _ => .write (fun _ he => he) (fun _ => .ret _))

theorem raises_cancel (clock : Clock) (run_id : UUID) :
    (RunRepository.cancel clock run_id).Raises Unrelated :=
  raises_updateTaskRuns.bind (fun _ =>
    (raises_refresh_run_state clock run_id).bind (fun _ => .ret _))

theorem raises_renew_lease (lease_seconds : ℚ) (clock : Clock) (task_run_id : UUID)
    (worker_id : String) :
    (renew_lease lease_seconds clock task_run_id worker_id).Raises Unrelated :=
  raises_updateTaskRuns.bind (fun _ => .ret _)

theorem raises_unblock_children (task_run_id : UUID) :
    (unblock_children task_run_id).Raises Unrelated := by
  refine .read (fun v => ?_)
  cases v.task_runs.get task_run_id with
  | none => exact .ret _
  | some row =>
      exact raises_updateTaskRuns.bind (fun _ => raises_updateTaskRuns.bind (fun _ => .ret _))

theorem raises_record_success (clock : Clock) (task_run_id : UUID) (worker_id : String)
    (output : Option Dict) :
    (record_success clock task_run_id worker_id output).Raises Unrelated := by
  refine raises_updateTaskRuns.bind (fun closed => ?_)
  match closed with
  | [row] =>
      exact (raises_close_attempt _ _ _ _ _).bind (fun _ =>
        (raises_unblock_children task_run_id).bind (fun _ => .ret _))
  | [] => exact .ret _
  | _ :: _ :: _ => exact .ret _

/-- The walk raises only when its rounds run out. -/
theorem raises_blockLoop (now : Time) (run_id : UUID) (rounds : ℕ) (frontier : List UUID) :
    (blockLoop now run_id rounds frontier).Raises Unrelated := by
  induction rounds generalizing frontier with
  | zero =>
      cases frontier with
      | nil => exact .ret _
      | cons => exact .raise (unrelated_of_other rfl)
  | succ rounds ih =>
      cases frontier with
      | nil => exact .ret _
      | cons task tasks =>
          refine .read (fun v => ?_)
          dsimp only
          split
          · exact .ret _
          · refine raises_updateTaskRuns.bind (fun rows => ?_)
            split
            · exact .ret _
            · exact ih _

theorem raises_block_descendants (clock : Clock) (rounds : ℕ) (task_run_id : UUID) :
    (block_descendants clock rounds task_run_id).Raises Unrelated := by
  refine .read (fun v => ?_)
  cases v.task_runs.get task_run_id with
  | none => exact .ret _
  | some row => exact raises_blockLoop clock.now row.run_id rounds [row.task_id]

/-- A failure report raises a `KeyError` for a task that is gone, or as its policy does. -/
theorem raises_record_failure (clock : Clock) (uniform : ℚ → ℚ) (rounds : ℕ) (task_run_id : UUID)
    (worker_id : String) (error : String) :
    (record_failure clock uniform rounds task_run_id worker_id error).Raises Unrelated := by
  refine .read (fun v => ?_)
  cases v.task_runs.get task_run_id with
  | none => exact .ret _
  | some row =>
      dsimp only
      split
      · exact .ret _
      · split
        · exact .raise (unrelated_of_other rfl)
        · refine (Prog.Raises.lift (raising_build_policy _)).bind (fun policy => ?_)
          refine (Prog.Raises.lift (raising_next_delay _ _ _)).bind (fun delay => ?_)
          cases delay with
          | none =>
              exact raises_updateTaskRuns.bind (fun _ => (raises_close_attempt _ _ _ _ _).bind
                (fun _ => (raises_block_descendants _ _ _).bind (fun _ => .ret _)))
          | some delay =>
              exact raises_updateTaskRuns.bind (fun _ =>
                (raises_close_attempt _ _ _ _ _).bind (fun _ => .ret _))

/-- A second row for one attempt is reported as a conflict. -/
theorem unrelated_duplicateAttempt (e : Exn) : Unrelated (duplicateAttempt e) := by
  cases e <;> exact unrelated_of_other rfl

/-- A claim raises a `KeyError` for a task that is gone, or the conflict of an attempt that
is recorded twice. -/
theorem raises_claim_batch (lease_seconds : ℚ) (clock : Clock) (tie : UUID → ℕ)
    (worker_id : String) (limit : ℕ) :
    (claim_batch lease_seconds clock tie worker_id limit).Raises Unrelated := by
  refine .write (fun _ he => he) (fun d => ?_)
  split
  · exact .ret _
  · refine .read (fun v => ?_)
    refine (Prog.Raises.lift (raising_mapM (fun r => ?_) _)).bind (fun results => ?_)
    · unfold toClaimedTask
      split
      · exact .error (unrelated_of_other rfl)
      · exact .ok _
    · exact (raises_newTable (unrelated_duplicateAttempt _)).bind (fun _ =>
        (raises_insertRows (fun e _ => unrelated_duplicateAttempt e)).bind (fun _ => .ret _))

/-- The sweep raises nothing of its own, however many leases have expired. -/
theorem raises_reap_expired_leases (clock : Clock) :
    (reap_expired_leases clock).Raises Unrelated := by
  refine raises_updateTaskRuns.bind (fun rows => Prog.Raises.bind ?_ (fun _ => .ret _))
  induction rows with
  | nil => exact .ret _
  | cons row rest ih => exact (raises_close_attempt _ _ _ _ _).bind (fun _ => ih)

/-- A run raises over its policies, or because its workflow has no tasks. -/
theorem raises_create_run (ids : RunIds) (clock : Clock) (workflow : Workflow)
    (dependencies : OrderedDict String (List String)) (trigger_payload : Option Dict) :
    (create_run ids clock workflow dependencies trigger_payload).Raises Unrelated := by
  refine (raises_newTable (by decide)).bind (fun row => ?_)
  refine (raises_insertRows (fun _ he => he)).bind (fun _ => ?_)
  refine Prog.Raises.bind (.read (fun _ => .ret _)) (fun tasks => ?_)
  refine (Prog.Raises.lift (raising_mapM (fun task => ?_) _)).bind (fun rows => ?_)
  · exact (raising_build_policy _).bind (fun _ => .ok _)
  · dsimp only
    split
    · exact .raise (unrelated_of_other rfl)
    · exact (raises_newTable (by decide)).bind (fun _ =>
        (raises_insertRows (fun _ he => he)).bind (fun _ => .ret _))

theorem raises_submitRun (ids : RunIds) (clock : Clock) (workflow_id : UUID)
    (trigger_payload : Option Dict) :
    (submitRun ids clock workflow_id trigger_payload).Raises Unrelated := by
  refine .read (fun v => ?_)
  cases v.workflows.get workflow_id with
  | none => exact .raise (unrelated_of_other rfl)
  | some workflow => exact raises_create_run _ _ _ _ _

theorem raising_checkTasks (known : List String) (specs : List TaskSpec) :
    Raising Unrelated (checkTasks known specs) := by
  induction specs with
  | nil => exact .ok _
  | cons task rest ih =>
      unfold checkTasks
      dsimp only
      split
      · exact .error (unrelated_of_other rfl)
      · exact (raising_build_policy _).bind (fun _ => ih)

/-- The errors of the graph code become errors of the request. -/
theorem unrelated_ofDagError (e : DagError String) : Unrelated (ofDagError e) := by
  cases e <;> exact unrelated_of_other rfl

/-- Publication checks the keys, the policies and the graph before it writes anything. -/
theorem raising_checkSpecs (specs : List TaskSpec) : Raising Unrelated (checkSpecs specs) := by
  unfold checkSpecs
  dsimp only
  split
  · exact .error (unrelated_of_other rfl)
  · split
    · exact .error (unrelated_of_other rfl)
    · refine (raising_checkTasks _ _).bind (fun _ => ?_)
      split
      · exact .error (unrelated_ofDagError _)
      · split
        · exact .error (unrelated_ofDagError _)
        · exact .ok _

/-- Of the three flushes of a publication only the last has its violations reported as a
conflict. -/
theorem raises_create (ids : WorkflowIds) (now : Time) (name : String) (specs : List TaskSpec)
    (description : Option String) : (create ids now name specs description).Raises Unrelated := by
  refine (Prog.Raises.lift (raising_checkSpecs specs)).bind (fun _ => ?_)
  refine Prog.Raises.bind (.read (fun _ => .ret _)) (fun version => ?_)
  refine (raises_newTable (by decide)).bind (fun _ => ?_)
  refine (raises_insertRows (fun _ he => he)).bind (fun _ => ?_)
  refine (raises_newTable (by decide)).bind (fun _ => ?_)
  refine (raises_insertRows (fun _ he => he)).bind (fun _ => ?_)
  refine (raises_newTable (unrelated_of_other rfl)).bind (fun _ => ?_)
  refine (raises_insertRows (fun e he => ?_)).bind (fun _ => .ret _)
  cases e with
  | IntegrityError => exact unrelated_of_other rfl
  | _ => exact he

end Raises

/-! ## The operations write lawful rows -/

/-- Every task row is lawful by itself. -/
def Db.Lawful (db : Db) : Prop := ∀ r ∈ db.task_runs.rows, r.Lawful

/-- Task rows written by a statement that saw lawful ones are lawful. -/
def LawfulWrite (v d : Db) : Prop := v.Lawful → d.Lawful

section Writes

/-- The rows that the queue writes are steps from the rows it saw. -/
theorem lawfulWrite_of_queue {P : TaskRun → Prop} {α : Type} {tx : Tx α}
    (h : tx.Writes (QueueWrite P)) : tx.Writes LawfulWrite := by
  refine h.mono (fun v d hd hv r' hr' => ?_)
  obtain ⟨r, hr, hstep⟩ := (hd.rows r' hr').2
  exact hstep.lawful (hv r hr)

/-- A statement that writes no task rows. -/
theorem lawfulWrite_none {v d : Db} (h : d.task_runs = Table.empty) : LawfulWrite v d := by
  intro _ r hr
  rw [h] at hr
  exact absurd hr List.not_mem_nil

theorem lawful_refresh_run_state (clock : Clock) (run_id : UUID) :
    (refresh_run_state clock run_id).Writes LawfulWrite :=
  .read (fun _ => .write (fun _ => lawfulWrite_none rfl) (fun _ => .ret _))

theorem lawful_cancel (clock : Clock) (run_id : UUID) :
    (RunRepository.cancel clock run_id).Writes LawfulWrite :=
  (lawfulWrite_of_queue (writes_cancel clock.now run_id)).bind (fun _ =>
    (lawful_refresh_run_state clock run_id).bind (fun _ => .ret _))

/-- The rows of a new run have no owner and wait for their parents. -/
theorem lawful_create_run (ids : RunIds) (clock : Clock) (workflow : Workflow)
    (dependencies : OrderedDict String (List String)) (trigger_payload : Option Dict) :
    (create_run ids clock workflow dependencies trigger_payload).Writes LawfulWrite := by
  refine writes_newTable (P := fun _ => True) (fun _ _ => trivial) (fun row _ => ?_)
  refine Prog.Writes.bind (.write (fun _ => lawfulWrite_none rfl) (fun _ => .ret _)) (fun _ => ?_)
  refine Prog.Writes.bind (.read (fun _ => .ret _)) (fun tasks => ?_)
  -- The rows are `newTaskRun`s, if they can be made at all.
  cases hrows : tasks.mapM (fun task => do
      let unmet := ((OrderedDict.lookup dependencies task.key).getD []).length
      let policy ← build_policy (some task.retry_policy)
      return newTaskRun ids clock unmet policy task) with
  | error e => exact .raise _
  | ok rows =>
      have hlawful : ∀ r ∈ rows, r.Lawful := by
        intro r hr
        obtain ⟨task, -, policy, -, rfl⟩ := exists_left_of_forall₂ (mapM_newRow.mp hrows) hr
        exact newTaskRun_lawful _ policy task
      show ((if tasks.isEmpty = true then _ else _ : Tx WorkflowRun)).Writes LawfulWrite
      split
      · exact .raise _
      · refine writes_newTable hlawful (fun t ht => ?_)
        exact Prog.Writes.bind (.write (fun _ _ => ht) (fun _ => .ret _)) (fun _ => .ret _)

theorem lawful_submitRun (ids : RunIds) (clock : Clock) (workflow_id : UUID)
    (trigger_payload : Option Dict) :
    (submitRun ids clock workflow_id trigger_payload).Writes LawfulWrite := by
  refine .read (fun v => ?_)
  cases v.workflows.get workflow_id with
  | none => exact .raise _
  | some workflow => exact lawful_create_run _ _ _ _ _

theorem lawful_create (ids : WorkflowIds) (now : Time) (name : String) (specs : List TaskSpec)
    (description : Option String) : (create ids now name specs description).Writes LawfulWrite := by
  refine (Prog.Writes.lift _).bind (fun _ => ?_)
  refine Prog.Writes.bind (.read (fun _ => .ret _)) (fun version => ?_)
  refine writes_newTable (P := fun _ => True) (fun _ _ => trivial) (fun _ _ => ?_)
  refine Prog.Writes.bind (.write (fun _ => lawfulWrite_none rfl) (fun _ => .ret _)) (fun _ => ?_)
  refine writes_newTable (P := fun _ => True) (fun _ _ => trivial) (fun _ _ => ?_)
  refine Prog.Writes.bind (.write (fun _ => lawfulWrite_none rfl) (fun _ => .ret _)) (fun _ => ?_)
  refine writes_newTable (P := fun _ => True) (fun _ _ => trivial) (fun _ _ => ?_)
  exact Prog.Writes.bind (.write (fun _ => lawfulWrite_none rfl) (fun _ => .ret _))
    (fun _ => .ret _)

end Writes

/-! ## What the schema refuses -/

section Refused

/-- The only check that a lawful row can fail is the budget. -/
theorem violates_of_lawful {r : TaskRun} (h : r.Lawful) {c : String} (hc : r.violates = some c) :
    c = "ck_task_runs_attempt_within_budget" := by
  have hattempt : ¬ r.attempt < 0 := not_lt.mpr h.attempt_nonneg
  by_cases hbudget : r.attempt ≤ r.max_attempts
  · rw [h.violates_eq_none.mpr hbudget] at hc
    cases hc
  · rw [TaskRun.violates, if_neg hattempt, if_pos (not_le.mp hbudget)] at hc
    exact (Option.some.inj hc).symm

/-- A unique index is reported by its name. -/
theorem uniqueConflict_name {ρ κ : Type} [DecidableEq κ] {name : String} {u : ρ → κ}
    {existing new : List ρ} {c : String} (h : uniqueConflict name u existing new = some c) :
    c = name := by
  unfold uniqueConflict at h
  split at h
  · exact (Option.some.inj h).symm
  · cases h

/-- A unique index has another name. -/
theorem conflict_unrelated {db d : Db} {c : String} (h : db.conflict d = some c) :
    c ∉ leaseChecks := by
  simp only [Db.conflict, Option.or_eq_some_iff] at h
  rcases h with h | ⟨-, h | ⟨-, h | ⟨-, h | ⟨-, h | ⟨-, h | ⟨-, h | ⟨-, h | ⟨-, h | ⟨-, h⟩⟩⟩⟩⟩⟩⟩⟩⟩
  all_goals
    rw [uniqueConflict_name h]
    decide

/-- A check that lawful rows fail is one of the others. -/
theorem violates_unrelated {d : Db} (hd : d.Lawful) {c : String} (h : d.violates = some c) :
    c ∉ leaseChecks := by
  simp only [Db.violates, Option.or_eq_some_iff] at h
  rcases h with h | ⟨-, h | ⟨-, h | ⟨-, h | ⟨-, h | ⟨-, h⟩⟩⟩⟩⟩
  all_goals obtain ⟨row, hrow, hc⟩ := List.exists_of_findSome?_eq_some h
  · simp only [Workflow.violates, Option.ite_none_right_eq_some, Option.some.injEq] at hc
    rw [← hc.2]
    decide
  · unfold Task.violates at hc
    split at hc
    · cases hc
      decide
    · simp only [Option.ite_none_right_eq_some, Option.some.injEq] at hc
      rw [← hc.2]
      decide
  · simp only [TaskDependency.violates, Option.ite_none_right_eq_some, Option.some.injEq] at hc
    rw [← hc.2]
    decide
  · simp only [WorkflowRun.violates, Option.ite_none_right_eq_some, Option.some.injEq] at hc
    rw [← hc.2]
    decide
  · rw [violates_of_lawful (hd row hrow) hc]
    decide
  · simp only [TaskAttempt.violates, Option.ite_none_right_eq_some, Option.some.injEq] at hc
    rw [← hc.2]
    decide

theorem validate_unrelated {checks : Bool} {kind : Kind} {v d : Db} {e : Exn} (hd : d.Lawful)
    (h : Db.validate checks kind v d = some e) : Unrelated e := by
  obtain ⟨c, hc, rfl⟩ := Option.map_eq_some_iff.mp h
  have hname : c ∉ leaseChecks := by
    rcases Option.or_eq_some_iff.mp hc with hc | ⟨-, hc⟩
    · split at hc
      · exact conflict_unrelated hc
      · cases hc
    · split at hc
      · exact violates_unrelated hd hc
      · cases hc
  intro c' hc' he
  cases he
  exact hname hc'

/-- **A transaction that writes lawful rows, and raises nothing of the kind of
itself, is not refused on account of the lease columns.** -/
theorem refusal_unrelated {checks : Bool} {α : Type} {tx : Tx α} (hr : tx.Raises Unrelated)
    (hw : tx.Writes LawfulWrite) {db : Db} (hdb : db.Lawful) {e : Exn}
    (h : refusal checks tx db = some e) : Unrelated e := by
  have hkeep : ∀ v d : Db, v.Lawful → LawfulWrite v d → ((store checks).overlay d v).Lawful := by
    intro v d hv hd r hr
    rcases Table.mem_overlay.mp hr with hr | ⟨hr, -⟩
    · exact hd hv r hr
    · exact hv r hr
  have hexec : exec (store checks) tx db = .error e := by
    unfold refusal at h
    split at h
    · cases h
    · rename_i e' he
      rw [he, Option.some.inj h]
  exact hr.exec (store checks) hw hkeep
    (fun kind v d e hv hd hval => validate_unrelated (hd hv) hval) hdb hexec

theorem raised_unrelated {checks : Bool} {db : Db} (hdb : db.Lawful) {op : Op} {e : Exn}
    (h : raised checks db op = some e) : Unrelated e := by
  cases op with
  | publish => exact refusal_unrelated (raises_create _ _ _ _ _) (lawful_create _ _ _ _ _) hdb h
  | submit => exact refusal_unrelated (raises_submitRun _ _ _ _) (lawful_submitRun _ _ _ _) hdb h
  | claim =>
      exact refusal_unrelated (raises_claim_batch _ _ _ _ _)
        (lawfulWrite_of_queue (writes_claim_batch _ _ _ _ _)) hdb h
  | renew =>
      exact refusal_unrelated (raises_renew_lease _ _ _ _)
        (lawfulWrite_of_queue (writes_renew_lease _ _ _ _)) hdb h
  | success =>
      exact refusal_unrelated (raises_record_success _ _ _ _)
        (lawfulWrite_of_queue (writes_record_success _ _ _ _)) hdb h
  | failure =>
      exact refusal_unrelated (raises_record_failure _ _ _ _ _ _)
        (lawfulWrite_of_queue (writes_record_failure _ _ _ _ _ _)) hdb h
  | reap =>
      exact refusal_unrelated (raises_reap_expired_leases _)
        (lawfulWrite_of_queue (writes_reap_expired_leases _)) hdb h
  | cancel => exact refusal_unrelated (raises_cancel _ _) (lawful_cancel _ _) hdb h
  | refresh =>
      exact refusal_unrelated (raises_refresh_run_state _ _) (lawful_refresh_run_state _ _) hdb h

end Refused

/-! ## The lease invariant -/

/-- **Leases go with running.** In every database that is reachable with constraint
checks ignored, a running row names its worker, its lease and an attempt, any other
row has neither worker nor lease, a row is finished exactly if its state is terminal,
and no counter is negative. Hence no operation, checked or not, is refused by the two
checks that say so. -/
theorem lease_iff_running {db : Db} (h : Reachable false db) :
    (∀ r ∈ db.task_runs.rows,
      (r.state = .RUNNING → r.lease_expires_at.isSome = true ∧ r.worker_id.isSome = true ∧
        1 ≤ r.attempt) ∧
      (r.state ≠ .RUNNING → r.lease_expires_at = none ∧ r.worker_id = none) ∧
      (r.finished_at.isSome = true ↔ r.state.is_terminal = true) ∧ 0 ≤ r.pending_deps) ∧
    (∀ checks op, raised checks db op ≠ some (.IntegrityError "ck_task_runs_lease_iff_running") ∧
      raised checks db op ≠ some (.IntegrityError "ck_task_runs_pending_deps_non_negative")) := by
  have hlawful : db.Lawful := h.inv.good.lawful
  constructor
  · intro r hr
    have hrow := hlawful r hr
    exact ⟨hrow.held, hrow.free, by rw [hrow.finished], hrow.pending_deps_nonneg⟩
  · intro checks op
    exact ⟨fun hraised => raised_unrelated hlawful hraised _ (by decide) rfl,
      fun hraised => raised_unrelated hlawful hraised _ (by decide) rfl⟩

/-- With the budget exhausted and unchecked, a renewal with checks on is refused, but
by another check. -/
theorem lease_iff_running_over_budget :
    raised true (served false (soloStart noRetry ++
        [claimAt 0 "w1", .reap (clockAt 100), claimAt 101 "w2"]))
      (.renew 30 (clockAt 102) 12 "w2")
      = some (.IntegrityError "ck_task_runs_attempt_within_budget") ∧
    raised true (served false (soloStart noRetry ++
        [claimAt 0 "w1", .reap (clockAt 100), claimAt 101 "w2"]))
      (.renew 30 (clockAt 102) 12 "w2")
      ≠ some (.IntegrityError "ck_task_runs_lease_iff_running") :=
  ⟨by decide +kernel, ((lease_iff_running (reachable_served false _)).2 true _).1⟩

end Conductor
