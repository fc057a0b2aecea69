/-
`worker/worker.py`: one iteration of the worker's loop, with what can be raised in it.

`Worker.run_once` claims a batch and calls `_execute` for its tasks one after the
other. Every `Exception` that an executor raises is caught there and becomes the error of a
failure; a `BaseException` is not. The transaction that reports the result stands outside the
`try` as well, so what it raises leaves `_execute`, and `run_once` with it: the refusal of
U+0000, and the overflow of the policy that a failure is put to.

The other processes and the heartbeat thread act at any time in between; their
transactions and this worker's run on PostgreSQL and with floats. No process but the worker
itself claims under its id.
-/
import Conductor.Postgres
import Conductor.Heartbeat

set_option autoImplicit false

open Relational Txn

namespace Conductor

open RunRepository TaskQueueRepository WorkflowRepository

/-! ## The worker -/

/-- What comes of `build_executor(task.executor).execute(...)`: its output, or the
exception it raises, which `build_executor` may have raised as well. -/
inductive ExecutorOutcome where
  | returned (output : Dict)
  | ExecutorError (msg : String)
  /-- Any other `Exception`: an executor bug, not a task failure. -/
  | crashed (typeName msg : String)
  /-- A `BaseException` that is no `Exception`, such as `SystemExit`. -/
  | exited (typeName : String)

/-- The `try` of `_execute`: the result, or what leaves it. -/
def ExecutorOutcome.result : ExecutorOutcome → Except Exn Result
  | .returned output => .ok (.success (some output))
  | .ExecutorError msg => .ok (.failure msg)
  | .crashed typeName msg => .ok (.failure (typeName ++ ": " ++ msg))
  | .exited typeName => .error (.BaseException typeName)

/-- What happens while an executor runs: a transaction of another process, or the
heartbeat thread wakes up. -/
inductive Occurrence where
  | other (op : Op)
  | beat (clock : Clock)

/-- What one execution meets with. -/
structure Turn where
  events : List Occurrence
  outcome : ExecutorOutcome
  /-- The transactions of others between the end of the heartbeat and the report. -/
  meanwhile : List Op
  clock : Clock
  uniform : ℚ → ℚ

/-- The counters that `run_once` keeps. -/
structure WorkerStats where
  claimed : ℕ
  succeeded : ℕ
  failed : ℕ
  lost_leases : ℕ
deriving DecidableEq

/-- `int(accepted)` on the counter of the result, and the `if not accepted`. -/
def WorkerStats.reported (stats : WorkerStats) (accepted : Bool) : Result → WorkerStats
  | .success _ =>
      if accepted then { stats with succeeded := stats.succeeded + 1 }
      else { stats with lost_leases := stats.lost_leases + 1 }
  | .failure _ =>
      if accepted then { stats with failed := stats.failed + 1 }
      else { stats with lost_leases := stats.lost_leases + 1 }

/-- A claim under this worker's id. -/
def Op.claimsFor (worker_id : String) : Op → Bool
  | .claim _ _ _ claimant _ => claimant = worker_id
  | _ => false

/-- A transaction of another process. -/
def elsewhere (checks : Bool) (worker_id : String) (db : Db) (op : Op) : Db :=
  if op.claimsFor worker_id then db else pgServe checks db op

/-- One event: the database after it, and `heartbeat.lost`. -/
def happen (checks : Bool) (settings : Settings) (worker_id : String) (task_run_id : UUID) :
    Db × Bool → Occurrence → Db × Bool
  | (db, lost), .other op => (elsewhere checks worker_id db op, lost)
  | (db, lost), .beat clock =>
      -- The thread returns when the lease is lost, and goes on after an exception.
      if lost then (db, lost)
      else
        match exec (postgres checks)
          (renew_lease settings.lease_seconds clock task_run_id worker_id) db with
        | .ok (db, renewed) => (db, !renewed)
        | .error _ => (db, false)

/-- How a call of `_execute` ends. -/
structure ExecuteCall where
  task : ClaimedTask
  /-- The database when the result was reported or discarded. -/
  reported : Db
  /-- The database and the counters that the call leaves. -/
  db : Db
  stats : WorkerStats
  /-- The exception that leaves the call. -/
  escaped : Option Exn

/-- `Worker._execute`. -/
def execute (checks : Bool) (settings : Settings) (worker_id : String) (turn : Turn) (db : Db)
    (stats : WorkerStats) (task : ClaimedTask) : ExecuteCall :=
  let (db, lost) :=
    turn.events.foldl (happen checks settings worker_id task.task_run_id) (db, false)
  match turn.outcome.result with
  | .error e => ⟨task, db, db, stats, some e⟩
  | .ok result =>
      if lost then
        -- "the result is discarded"
        ⟨task, db, db, { stats with lost_leases := stats.lost_leases + 1 }, none⟩
      else
        let db := turn.meanwhile.foldl (elsewhere checks worker_id) db
        match exec (postgres checks)
          (float_complete (walkRounds db) (task.report worker_id result turn.clock turn.uniform))
          db with
        | .ok (db', accepted) => ⟨task, db, db', stats.reported accepted result, none⟩
        | .error e => ⟨task, db, db, stats, some e⟩

/-- The loop of `run_once`: it ends with the batch, or with the call that raises. -/
def executeAll (checks : Bool) (settings : Settings) (worker_id : String)
    (turn : ClaimedTask → Turn) : Db → WorkerStats → List ClaimedTask → List ExecuteCall
  | _, _, [] => []
  | db, stats, task :: batch =>
      let call := execute checks settings worker_id (turn task) db stats task
      match call.escaped with
      | some _ => [call]
      | none => call :: executeAll checks settings worker_id turn call.db call.stats batch

/-- One iteration: the calls of `_execute`, and what `run_once` returns or raises. -/
structure Iteration where
  calls : List ExecuteCall
  returned : Except Exn ℕ

/-- An exception that leaves a call leaves the loop, and nothing catches it. -/
def Iteration.ofCalls (calls : List ExecuteCall) (size : ℕ) : Iteration where
  calls := calls
  returned :=
    match calls.findSome? ExecuteCall.escaped with
    | some e => .error e
    | none => .ok size

/-- `Worker.run_once`. -/
def run_once (checks : Bool) (settings : Settings) (claim_batch_size : ℕ) (worker_id : String)
    (limit : Option ℕ) (clock : Clock) (tie : UUID → ℕ) (turn : ClaimedTask → Turn) (db : Db)
    (stats : WorkerStats) : Iteration :=
  -- `limit or self.settings.claim_batch_size`
  let limit := (limit.filter (· ≠ 0)).getD claim_batch_size
  match exec (postgres checks)
    (claim_batch settings.lease_seconds clock tie worker_id limit) db with
  | .error e => ⟨[], .error e⟩
  | .ok (db, batch) =>
      let stats := { stats with claimed := stats.claimed + batch.length }
      .ofCalls (executeAll checks settings worker_id turn db stats batch) batch.length

variable {checks : Bool} {db db' : Db} {settings : Settings} {worker_id : String}

/-! ## Who holds the task -/

/-- The task row is running under the worker's lease. -/
def Db.HeldBy (db : Db) (worker_id : String) (task_run_id : UUID) : Prop :=
  ∃ r ∈ db.task_runs.rows, heldBy task_run_id worker_id r = true

instance (db : Db) (worker_id : String) (task_run_id : UUID) :
    Decidable (db.HeldBy worker_id task_run_id) := by
  unfold Db.HeldBy
  infer_instance

variable {task_run_id : UUID}

/-- No transaction takes a task out of a definition. -/
theorem mem_tasks_serve (hinv : Inv checks db) (op : Op) {t : Task} (ht : t ∈ db.tasks.rows) :
    t ∈ (serve checks db op).tasks.rows := by
  cases hop : op.isQueue with
  | true =>
      obtain ⟨g, -, hstep⟩ := serve_outcome hinv hop
      rw [hstep.rewritten.tasks]
      exact ht
  | false =>
      cases op with
      | publish ids now name specs description =>
          rcases serve_publish checks db ids now name specs description with hsame | ⟨_, hnew⟩
          · rw [hsame]
            exact ht
          · rw [hnew.tasks']
            exact List.mem_append_left _ ht
      | submit ids clock workflow_id trigger_payload =>
          rcases serve_submit checks db ids clock workflow_id trigger_payload with
            hsame | ⟨workflow, -, run, rows, hcreated⟩
          · rw [hsame]
            exact ht
          · rw [hcreated.frame]
            exact ht
      | _ => cases hop

/-- A row that the worker owns after the transaction of another is one that it owned before, at
the same attempt and for the same task. -/
theorem owned_of_serve (hinv : Inv checks db) {op : Op} (hop : op.claimsFor worker_id = false)
    {r' : TaskRun} (hr' : r' ∈ (serve checks db op).task_runs.rows)
    (hworker : r'.worker_id = some worker_id) :
    ∃ r ∈ db.task_runs.rows, r.id = r'.id ∧ r.worker_id = some worker_id ∧
      r.attempt = r'.attempt ∧ r.task_id = r'.task_id := by
  have hqueue : op.isQueue = true → NoNewOwner db (serve checks db op) →
      ∃ r ∈ db.task_runs.rows, r.id = r'.id ∧ r.worker_id = some worker_id ∧
        r.attempt = r'.attempt ∧ r.task_id = r'.task_id := by
    intro hop hquiet
    obtain ⟨r, hr, hid, howner, hattempt⟩ := hquiet r' hr' worker_id hworker
    obtain ⟨g, -, hstep⟩ := serve_outcome hinv hop
    obtain ⟨s, hs, rfl⟩ := hstep.rewritten.mem_rows.mp hr'
    obtain ⟨hsid, -, htask, -⟩ := (hstep.rewritten.change s hs).keeps
    have hsame : s = r := db.task_runs.eq_of_key hs hr (hsid.symm.trans hid.symm)
    subst hsame
    exact ⟨s, hs, hid, howner, hattempt, htask.symm⟩
  cases op with
  | publish ids now name specs description =>
      obtain ⟨_, _, _, hserve⟩ := serve_publish_frame checks db ids now name specs description
      rw [hserve] at hr'
      exact ⟨r', hr', rfl, hworker, rfl, rfl⟩
  | submit ids clock workflow_id trigger_payload =>
      rcases mem_task_runs_submit hinv hr' with hr | ⟨unmet, policy, task, rfl⟩
      · exact ⟨r', hr, rfl, hworker, rfl, rfl⟩
      · cases hworker
  | claim lease_seconds clock tie claimant limit =>
      have hne : worker_id ≠ claimant := by
        rintro rfl
        simp [Op.claimsFor] at hop
      cases hexec : exec (store checks) (claim_batch lease_seconds clock tie claimant limit) db with
      | error e =>
          rw [serve, commit_error hexec] at hr'
          exact ⟨r', hr', rfl, hworker, rfl, rfl⟩
      | ok out =>
          rw [serve, commit_ok hexec] at hr'
          exact ⟨r', claimed_other hinv hexec hr' hne hworker, rfl, hworker, rfl, rfl⟩
  | renew | success | failure | reap | cancel | refresh =>
      exact hqueue rfl (quiet_queue hinv rfl (fun _ _ _ _ _ he => by cases he)).2

/-- Only a claim under the worker's own id makes it the holder of a task. -/
theorem heldBy_of_serve (hinv : Inv checks db) {op : Op} (hop : op.claimsFor worker_id = false)
    (h : (serve checks db op).HeldBy worker_id task_run_id) : db.HeldBy worker_id task_run_id := by
  obtain ⟨r', hr', hheld⟩ := h
  obtain ⟨hid, hworker, -⟩ := heldBy_iff.mp hheld
  obtain ⟨r, hr, hrid, howner, -⟩ := owned_of_serve hinv hop hr' hworker
  have hrunning := (hinv.good.lawful r hr).running_of_worker (by rw [howner]; rfl)
  exact ⟨r, hr, heldBy_iff.mpr ⟨hrid.trans hid, howner, hrunning⟩⟩

/-- What is known while an executor runs: a heartbeat that saw the lease go was right,
and the worker does not get it back. -/
structure Watched (checks : Bool) (worker_id : String) (task_run_id : UUID) (s : Db × Bool) :
    Prop where
  sound : s.1.Sound checks
  lost : s.2 = true → ¬ s.1.HeldBy worker_id task_run_id

theorem elsewhere_sound (h : db.Sound checks) (op : Op) :
    (elsewhere checks worker_id db op).Sound checks := by
  unfold elsewhere
  split
  · exact h
  · exact h.pgServe op

theorem heldBy_of_elsewhere (h : db.Sound checks) {op : Op}
    (hheld : (elsewhere checks worker_id db op).HeldBy worker_id task_run_id) :
    db.HeldBy worker_id task_run_id := by
  unfold elsewhere at hheld
  split at hheld
  · exact hheld
  · rename_i hop
    rcases pgServe_cases db op with hsame | hserved
    · rw [hsame] at hheld
      exact hheld
    · rw [hserved] at hheld
      exact heldBy_of_serve h.inv (by simpa using hop) hheld

/-- A renewal is carried out on a clean database, and says that the lease is lost just
when the task is not the worker's. -/
theorem exec_renewal (h : db.Sound checks) (clock : Clock) :
    exec (postgres checks) (renew_lease settings.lease_seconds clock task_run_id worker_id) db =
      .ok (serve checks db (.renew settings.lease_seconds clock task_run_id worker_id),
        decide (db.HeldBy worker_id task_run_id)) := by
  have hexec := exec_renew_lease h.inv.good settings.lease_seconds clock task_run_id worker_id
  rw [exec_postgres (clean_renew_lease _ _ _ _) h.clean, serve, commit_ok hexec, hexec]
  have hone : (db.task_runs.rows.filter (heldBy task_run_id worker_id)).length = 1 ↔
      db.HeldBy worker_id task_run_id := by
    rw [filter_heldBy]
    constructor
    · intro hlength
      cases hget : db.task_runs.get task_run_id with
      | none =>
          rw [hget] at hlength
          cases hlength
      | some r =>
          rw [hget] at hlength
          cases hheld : heldBy task_run_id worker_id r with
          | true => exact ⟨r, (Table.get_eq_some.mp hget).1, hheld⟩
          | false =>
              rw [Option.filter_some, hheld] at hlength
              cases hlength
    · rintro ⟨r, hr, hheld⟩
      rw [Table.get_eq_some.mpr ⟨hr, (heldBy_iff.mp hheld).1⟩, Option.filter_some, hheld]
      rfl
  rw [decide_eq_decide.mpr hone]

theorem Watched.happen {s : Db × Bool} (h : Watched checks worker_id task_run_id s)
    (event : Occurrence) :
    Watched checks worker_id task_run_id
      (happen checks settings worker_id task_run_id s event) := by
  obtain ⟨db, lost⟩ := s
  cases event with
  | other op =>
      refine ⟨elsewhere_sound h.sound op, fun hlost hheld => h.lost hlost ?_⟩
      exact heldBy_of_elsewhere h.sound hheld
  | beat clock =>
      unfold Conductor.happen
      cases lost with
      | true => exact h
      | false =>
          simp only [Bool.false_eq_true, if_false, exec_renewal h.sound clock]
          have hsound : (serve checks db
              (.renew settings.lease_seconds clock task_run_id worker_id)).Sound checks := by
            refine ⟨serve_inv h.sound.inv _, ?_⟩
            exact (exec_of_postgres (exec_renewal h.sound clock)).2 h.sound.clean
          refine ⟨hsound, fun hlost hheld => ?_⟩
          have hbefore := heldBy_of_serve h.sound.inv rfl hheld
          simp [hbefore] at hlost

theorem Watched.events {s : Db × Bool} (h : Watched checks worker_id task_run_id s)
    (events : List Occurrence) :
    Watched checks worker_id task_run_id
      (events.foldl (Conductor.happen checks settings worker_id task_run_id) s) := by
  induction events generalizing s with
  | nil => exact h
  | cons event events ih => exact ih (h.happen event)

theorem meanwhile_sound (h : db.Sound checks) (ops : List Op) :
    (ops.foldl (elsewhere checks worker_id) db).Sound checks := by
  induction ops generalizing db with
  | nil => exact h
  | cons op ops ih => exact ih (elsewhere_sound h op)

/-! ## The report -/

/-- A report of a task that the worker holds moves it out of `RUNNING`, and stores what
was reported. -/
theorem reported_row (hinv : Inv checks db) (report : Report)
    (hheld : db.HeldBy report.worker_id report.task_run_id) :
    ∃ r ∈ (transact checks db (.complete report)).task_runs.rows, r.id = report.task_run_id ∧
      r.state ≠ .RUNNING ∧ (report.result.hasNul = true → r.hasNul = true) := by
  obtain ⟨row, hmem, hrow⟩ := hheld
  obtain ⟨hid, hworker, hrunning⟩ := heldBy_iff.mp hrow
  have hget := Table.get_eq_some.mpr ⟨hmem, hid⟩
  cases hresult : report.result with
  | success output =>
      obtain ⟨r, hr, hrid, hstate, hout⟩ := stored_success hinv hresult hget hrunning hworker
      refine ⟨r, hr, hrid, by rw [hstate]; decide, fun hnul => ?_⟩
      have hstored : r.output.any Dict.hasNul = true := by
        rw [hout]
        exact hnul
      rw [TaskRun.hasNul, hstored, Bool.or_true]
  | failure error =>
      have hop : report.op =
          .failure report.clock report.uniform report.task_run_id report.worker_id error := by
        unfold Report.op
        rw [hresult]
      obtain ⟨g, hout, hstep⟩ := serve_outcome hinv report.op_isQueue
      rw [task_runs_complete hinv report]
      refine ⟨g row, hstep.rewritten.mem_rows.mpr ⟨row, hmem, rfl⟩, ?_⟩
      -- The error stands in the row, whether there is another attempt or not.
      have herror : ∀ r : TaskRun, r.last_error = some (pySlice error 4000) →
          (Result.failure error).hasNul = true → r.hasNul = true := by
        intro r hr hnul
        have hstored : r.last_error.any nulText = true := by
          rw [hr]
          exact hnul
        rw [TaskRun.hasNul, hstored, Bool.or_true, Bool.true_or]
      rw [hop] at hout
      cases hout with
      | retried _ _ _ _ _ delay hrow' hworker' hlt =>
          have howned : ownedBy report.task_run_id report.worker_id row = true :=
            ownedBy_iff.mpr ⟨hid, hworker⟩
          dsimp only
          rw [if_pos howned]
          exact ⟨hid, (fun hstate => by cases hstate), herror _ rfl⟩
      | failed _ _ _ _ _ tasks hrow' hworker' hge hsound =>
          rw [hget] at hrow'
          cases hrow'
          rw [afterFailure, if_pos rfl]
          exact ⟨hid, (fun hstate => by cases hstate), herror _ rfl⟩
      | lateFailure _ _ _ _ _ hlost => exact absurd hworker (hlost row hget)

/-- An update whose rows are clean is not refused for its texts. -/
theorem exec_pg_update {p : Db → TaskRun → Bool} {f : TaskRun → TaskRun}
    {hf : ∀ r, (f r).id = r.id}
    (h : ∀ r ∈ db.task_runs.rows, p db r = true → (f r).hasNul = false) :
    exec (postgres checks) (updateTaskRuns p f hf) db =
      exec (store checks) (updateTaskRuns p f hf) db := by
  have hclean : nulRefused { Db.empty with task_runs := db.task_runs.updated (p db) f hf } =
      none := by
    refine taskRuns_not_refused (fun r hr => ?_)
    obtain ⟨old, hold, rfl⟩ := List.mem_map.mp hr
    obtain ⟨hmem, hp⟩ := List.mem_filter.mp hold
    exact h old hmem hp
  have hsame : (postgres checks).validate .update db
      { Db.empty with task_runs := db.task_runs.updated (p db) f hf } =
        (store checks).validate .update db
          { Db.empty with task_runs := db.task_runs.updated (p db) f hf } := by
    show (nulRefused _).or _ = _
    rw [hclean, Option.none_or]
  unfold updateTaskRuns
  simp only [exec, hsame]
  rfl

/-- A report about a task that is not the worker's writes nothing. -/
theorem exec_pg_recordResult_lost (h : db.Sound checks) {report : Report}
    (hlost : ¬ db.HeldBy report.worker_id report.task_run_id) :
    exec (postgres checks) (recordResult (walkRounds db) report) db = .ok (db, false) := by
  have hnot : ∀ r ∈ db.task_runs.rows,
      heldBy report.task_run_id report.worker_id r = false := by
    intro r hr
    by_contra hheld
    exact hlost ⟨r, hr, by simpa using hheld⟩
  unfold recordResult recordResult_with
  cases report.result with
  | success output =>
      have hnone : db.task_runs.rows.filter (heldBy report.task_run_id report.worker_id) = [] := by
        rw [List.filter_eq_nil_iff]
        intro r hr
        rw [hnot r hr]
        exact Bool.false_ne_true
      show exec (postgres checks) (record_success _ _ _ _) db = _
      unfold record_success
      rw [exec_bind, exec_pg_update (fun r hr hheld => by rw [hnot r hr] at hheld; cases hheld),
        h.inv.good.exec_update (f := succeeded report.clock.now output)
          (fun r _ hp => .succeed _ _ (heldBy_iff.mp hp).2.2) (fun _ => rfl)]
      simp only [Except.bind, hnone, List.map_nil, Table.update_eq_self hnot, Prog.pure_eq,
        exec_ret]
  | failure error =>
      show exec (postgres checks) (record_failure _ _ _ _ _ _ >>= _) db = _
      unfold record_failure record_failure_with
      rw [exec_bind, exec_read]
      cases hrow : db.task_runs.get report.task_run_id with
      | none => rfl
      | some row =>
          obtain ⟨hmem, hid⟩ := Table.get_eq_some.mp hrow
          have hworker : row.worker_id ≠ some report.worker_id := by
            intro hworker
            have hrunning := (h.inv.good.lawful row hmem).running_of_worker (by rw [hworker]; rfl)
            exact hlost ⟨row, hmem, heldBy_iff.mpr ⟨hid, hworker, hrunning⟩⟩
          simp only [if_pos hworker, exec_ret]
          rfl

/-- The report in exact arithmetic raises exactly when the worker still holds the task and
brings U+0000; otherwise it is carried out. -/
theorem exec_pg_exact (h : db.Sound checks) (report : Report) :
    ((∃ e, exec (postgres checks) (complete (walkRounds db) report) db = .error e) ↔
      db.HeldBy report.worker_id report.task_run_id ∧ report.result.hasNul = true) ∧
    ∀ db' accepted, exec (postgres checks) (complete (walkRounds db) report) db
        = .ok (db', accepted) →
      db' = transact checks db (.complete report) ∧ db'.Sound checks := by
  obtain ⟨accepted, hexec, -, -⟩ := exec_complete h.inv report
  have hcarried : ∀ db' accepted', exec (postgres checks) (complete (walkRounds db) report) db
      = .ok (db', accepted') →
      db' = transact checks db (.complete report) ∧ db'.Sound checks := by
    intro db' accepted' hok
    obtain ⟨hstore, hclean⟩ := exec_of_postgres hok
    rw [hexec] at hstore
    cases hstore
    exact ⟨rfl, transact_inv h.inv _, hclean h.clean⟩
  refine ⟨⟨fun ⟨e, he⟩ => ?_, fun ⟨hheld, hnul⟩ => ?_⟩, hcarried⟩
  · by_contra hfine
    have hsame : exec (postgres checks) (complete (walkRounds db) report) db =
        exec (store checks) (complete (walkRounds db) report) db := by
      by_cases hnul : report.result.hasNul = true
      · have hlost : ¬ db.HeldBy report.worker_id report.task_run_id :=
          fun hheld => hfine ⟨hheld, hnul⟩
        have hpg := exec_pg_recordResult_lost h hlost
        unfold recordResult at hpg
        unfold complete complete_with
        rw [exec_bind, exec_bind, hpg, (exec_of_postgres hpg).1]
        simp only [Except.bind]
        rw [exec_bind, exec_bind, exec_postgres (clean_refresh_run_state _ _) h.clean]
        rfl
      · exact exec_postgres (clean_complete _ (by simpa using hnul)) h.clean
    rw [hsame, hexec] at he
    cases he
  -- Had it been carried out, the database would hold the U+0000 that was reported.
  · cases hpg : exec (postgres checks) (complete (walkRounds db) report) db with
    | error e => exact ⟨e, rfl⟩
    | ok out =>
        obtain ⟨hdb', hsound⟩ := hcarried out.1 out.2 hpg
        obtain ⟨r, hr, -, -, hstored⟩ := reported_row h.inv report hheld
        rw [← hdb'] at hr
        have hclean := (Db.clean_iff.mp hsound.clean).2.2.2.1 r hr
        rw [hstored hnul] at hclean
        cases hclean

/-- Only a report about a task that the worker holds asks a policy for a delay. -/
theorem heldBy_of_overflows (hinv : Inv checks db)
    (h : db.overflows task_run_id worker_id = true) : db.HeldBy worker_id task_run_id := by
  obtain ⟨row, hrow, hoverflows⟩ := (Option.any_eq_true _ _).mp h
  obtain ⟨hworker, -⟩ := Bool.and_eq_true_iff.mp hoverflows
  have hworker := of_decide_eq_true hworker
  obtain ⟨hmem, hid⟩ := Table.get_eq_some.mp hrow
  have hrunning := (hinv.good.lawful row hmem).running_of_worker (by rw [hworker]; rfl)
  exact ⟨row, hmem, heldBy_iff.mpr ⟨hid, hworker, hrunning⟩⟩

/-- **The report on PostgreSQL and with floats.** It raises exactly when the worker still
holds the task and brings U+0000, or a failure whose policy overflows; otherwise it is carried
out. -/
theorem exec_pg_complete (h : db.Sound checks) (report : Report) :
    ((∃ e, exec (postgres checks) (float_complete (walkRounds db) report) db = .error e) ↔
      db.HeldBy report.worker_id report.task_run_id ∧
        (report.result.hasNul = true ∨
          report.result.overflows db report.task_run_id report.worker_id = true)) ∧
    ∀ db' accepted, exec (postgres checks) (float_complete (walkRounds db) report) db
        = .ok (db', accepted) →
      db' = transact checks db (.complete report) ∧ db'.Sound checks := by
  obtain ⟨hrefused, hcarried⟩ := exec_pg_exact h report
  rw [exec_float_complete]
  cases hoverflows : report.result.overflows db report.task_run_id report.worker_id with
  | true =>
      have hheld : db.HeldBy report.worker_id report.task_run_id := by
        cases hresult : report.result with
        | success output =>
            rw [hresult] at hoverflows
            cases hoverflows
        | failure error =>
            rw [hresult] at hoverflows
            exact heldBy_of_overflows h.inv hoverflows
      exact ⟨iff_of_true ⟨outOfRange, rfl⟩ ⟨hheld, .inr rfl⟩, fun _ _ hok => by cases hok⟩
  | false =>
      simp only [Bool.false_eq_true, if_false, or_false]
      exact ⟨hrefused, hcarried⟩

/-! ## What a call does to the database -/

variable {turn : ClaimedTask → Turn}

/-- A relation between earlier and later databases that all transactions meet which take
place while tasks are executed: those of the others, as far as `P` allows them, and the
worker's renewals and reports. -/
structure Carries (checks : Bool) (settings : Settings) (worker_id : String) (P : Op → Prop)
    (R : Db → Db → Prop) : Prop where
  refl : ∀ db, R db db
  trans : ∀ db₁ db₂ db₃, R db₁ db₂ → R db₂ db₃ → R db₁ db₃
  other : ∀ db op, db.Sound checks → P op → R db (elsewhere checks worker_id db op)
  renew : ∀ db clock task_run_id, db.Sound checks →
    R db (serve checks db (.renew settings.lease_seconds clock task_run_id worker_id))
  complete : ∀ db report, db.Sound checks → R db (transact checks db (.complete report))

/-- The transactions of others during a turn. -/
structure Turn.Allows (turn : Turn) (P : Op → Prop) : Prop where
  events : ∀ op, .other op ∈ turn.events → P op
  meanwhile : ∀ op ∈ turn.meanwhile, P op

namespace Carries

variable {P : Op → Prop} {R : Db → Db → Prop}

theorem meanwhile (h : Carries checks settings worker_id P R) {ops : List Op}
    (hsound : db.Sound checks) (hops : ∀ op ∈ ops, P op) :
    R db (ops.foldl (elsewhere checks worker_id) db) := by
  induction ops generalizing db with
  | nil => exact h.refl db
  | cons op ops ih =>
      have hfirst := h.other db op hsound (hops op List.mem_cons_self)
      exact h.trans _ _ _ hfirst
        (ih (elsewhere_sound hsound op) (fun op' hop' => hops op' (List.mem_cons_of_mem _ hop')))

theorem happen (h : Carries checks settings worker_id P R) {s : Db × Bool} {task_run_id : UUID}
    (hsound : s.1.Sound checks) {event : Occurrence} (hevent : ∀ op, event = .other op → P op) :
    R s.1 (Conductor.happen checks settings worker_id task_run_id s event).1 := by
  obtain ⟨db, lost⟩ := s
  cases event with
  | other op => exact h.other db op hsound (hevent op rfl)
  | beat clock =>
      unfold Conductor.happen
      cases lost with
      | true => exact h.refl db
      | false =>
          simp only [Bool.false_eq_true, if_false, exec_renewal hsound clock]
          exact h.renew db clock task_run_id hsound

theorem events (h : Carries checks settings worker_id P R) {s : Db × Bool} {task_run_id : UUID}
    {events : List Occurrence} (hwatched : Watched checks worker_id task_run_id s)
    (hevents : ∀ op, .other op ∈ events → P op) :
    R s.1 (events.foldl (Conductor.happen checks settings worker_id task_run_id) s).1 := by
  induction events generalizing s with
  | nil => exact h.refl s.1
  | cons event events ih =>
      have hfirst : R s.1 (Conductor.happen checks settings worker_id task_run_id s event).1 :=
        h.happen hwatched.sound (fun op heq => hevents op (heq ▸ List.mem_cons_self))
      exact h.trans _ _ _ hfirst
        (ih (hwatched.happen event) (fun op hop => hevents op (List.mem_cons_of_mem _ hop)))

/-- **One call of `_execute`,** up to its report and from there. -/
theorem execute (h : Carries checks settings worker_id P R) (hsound : db.Sound checks)
    (stats : WorkerStats) {task : ClaimedTask} (hturn : (turn task).Allows P) :
    R db (Conductor.execute checks settings worker_id (turn task) db stats task).reported ∧
    R (Conductor.execute checks settings worker_id (turn task) db stats task).reported
      (Conductor.execute checks settings worker_id (turn task) db stats task).db := by
  have hstart : Watched checks worker_id task.task_run_id (db, false) :=
    ⟨hsound, fun hlost => by cases hlost⟩
  have hwatched : Watched checks worker_id task.task_run_id ((turn task).events.foldl
      (Conductor.happen checks settings worker_id task.task_run_id) (db, false)) :=
    hstart.events _
  have hevents := h.events hstart hturn.events
  unfold Conductor.execute
  generalize (turn task).events.foldl
    (Conductor.happen checks settings worker_id task.task_run_id) (db, false) = s
    at hwatched hevents ⊢
  obtain ⟨db₁, lost⟩ := s
  cases hresult : (turn task).outcome.result with
  | error e => exact ⟨hevents, h.refl _⟩
  | ok result =>
      cases lost with
      | true => exact ⟨hevents, h.refl _⟩
      | false =>
          have hlater := h.meanwhile hwatched.sound hturn.meanwhile
          have hsound₂ : ((turn task).meanwhile.foldl (elsewhere checks worker_id) db₁).Sound
              checks := meanwhile_sound hwatched.sound _
          dsimp only at hevents ⊢
          rw [if_neg Bool.false_ne_true]
          generalize (turn task).meanwhile.foldl (elsewhere checks worker_id) db₁ = db₂
            at hsound₂ hlater ⊢
          cases hexec : exec (postgres checks) (float_complete (walkRounds db₂)
              (task.report worker_id result (turn task).clock (turn task).uniform)) db₂ with
          | error e => exact ⟨h.trans _ _ _ hevents hlater, h.refl _⟩
          | ok out =>
              obtain ⟨hdb', -⟩ := (exec_pg_complete hsound₂ _).2 out.1 out.2 hexec
              refine ⟨h.trans _ _ _ hevents hlater, ?_⟩
              dsimp only
              rw [hdb']
              exact h.complete db₂ _ hsound₂

end Carries

/-! ## The policy that a failure is put to -/

/-- A failure of the task, at the attempt that was claimed, would overflow its policy. -/
def ClaimedTask.overflows (task : ClaimedTask) : Bool :=
  (build_policy (some task.retry_policy)).toOption.any (fun policy =>
    policy.overflows task.attempt)

theorem ClaimedTask.overflows_first {task : ClaimedTask} (h : task.attempt = 1) :
    task.overflows = false := by
  unfold overflows
  rw [h]
  cases (build_policy (some task.retry_policy)).toOption with
  | none => rfl
  | some policy => exact policy.overflows_first

/-- Where the worker owns the row of the task, it is at the attempt of the claim, and its
definition has the policy that the claim handed out. -/
def Db.Describes (db : Db) (worker_id : String) (task : ClaimedTask) : Prop :=
  ∀ r ∈ db.task_runs.rows, r.id = task.task_run_id → r.worker_id = some worker_id →
    r.attempt = task.attempt ∧ ∃ t ∈ db.tasks.rows, t.id = r.task_id ∧
      t.retry_policy = task.retry_policy

/-- So the row overflows as the task does. -/
theorem Db.Describes.overflows_eq {task : ClaimedTask} (h : db.Describes worker_id task)
    (hheld : db.HeldBy worker_id task.task_run_id) :
    db.overflows task.task_run_id worker_id = task.overflows := by
  obtain ⟨r, hr, hrow⟩ := hheld
  obtain ⟨hid, hworker, -⟩ := heldBy_iff.mp hrow
  obtain ⟨hattempt, t, ht, htid, hpolicy⟩ := h r hr hid hworker
  unfold Db.overflows ClaimedTask.overflows
  rw [Table.get_eq_some.mpr ⟨hr, hid⟩, Option.any_some, Table.get_eq_some.mpr ⟨ht, htid⟩,
    Option.any_some, hworker, hattempt, hpolicy, decide_eq_true rfl, Bool.true_and]

/-- A task is described as its claim left it. -/
theorem describes_of_claim (hinv : Inv checks db) {lease_seconds : ℚ} {clock : Clock}
    {tie : UUID → ℕ} {limit : ℕ} {batch : List ClaimedTask}
    (h : exec (store checks) (claim_batch lease_seconds clock tie worker_id limit) db
      = .ok (db', batch)) {task : ClaimedTask} (htask : task ∈ batch) :
    db'.Describes worker_id task := by
  intro r' hr' hid hworker
  refine ⟨claimed_attempt hinv h htask hr' hid, ?_⟩
  obtain ⟨-, hresults, -⟩ :=
    (exec_claim_batch hinv.good hinv.claimable lease_seconds clock tie worker_id limit).mp h
  obtain ⟨s, hs, hok⟩ := exists_left_of_forall₂ hresults htask
  obtain ⟨r, ⟨hr, -⟩, rfl⟩ := mem_claimedRows.mp hs
  have hrewritten := rewritten_claim hinv h
  obtain ⟨r₀, hr₀, rfl⟩ := hrewritten.mem_rows.mp hr'
  obtain ⟨hrid, -, htaskid, -⟩ := (hrewritten.change r₀ hr₀).keeps
  unfold toClaimedTask at hok
  split at hok
  · cases hok
  · rename_i definition hdefinition
    cases hok
    obtain ⟨ht, htid⟩ := Table.get_eq_some.mp hdefinition
    have hsame : r₀ = r := db.task_runs.eq_of_key hr₀ hr (hrid.symm.trans hid)
    subst hsame
    refine ⟨definition, ?_, htid.trans htaskid.symm, rfl⟩
    rw [hrewritten.tasks]
    exact ht

/-- It stays so, for nothing but a claim of the worker's own puts a row into its hands. -/
theorem Db.Describes.traced {task : ClaimedTask} (h : db.Describes worker_id task)
    (howned : ∀ r' ∈ db'.task_runs.rows, r'.worker_id = some worker_id →
      ∃ r ∈ db.task_runs.rows, r.id = r'.id ∧ r.worker_id = some worker_id ∧
        r.attempt = r'.attempt ∧ r.task_id = r'.task_id)
    (htasks : ∀ t ∈ db.tasks.rows, t ∈ db'.tasks.rows) : db'.Describes worker_id task := by
  intro r' hr' hid hworker
  obtain ⟨r, hr, hrid, howner, hattempt, htask⟩ := howned r' hr' hworker
  obtain ⟨hsame, t, ht, htid, hpolicy⟩ := h r hr (hrid.trans hid) howner
  exact ⟨hattempt.symm.trans hsame, t, htasks t ht, htid.trans htask, hpolicy⟩

theorem Db.Describes.serve (hinv : Inv checks db) {task : ClaimedTask}
    (h : db.Describes worker_id task) {op : Op} (hop : op.claimsFor worker_id = false) :
    (serve checks db op).Describes worker_id task :=
  h.traced (fun _ hr' hworker => owned_of_serve hinv hop hr' hworker)
    (fun _ ht => mem_tasks_serve hinv op ht)

theorem carries_describes (checks : Bool) (settings : Settings) (worker_id : String) :
    Carries checks settings worker_id (fun _ => True) (fun db db' =>
      ∀ task, db.Describes worker_id task → db'.Describes worker_id task) where
  refl _ _ h := h
  trans _ _ _ h h' task hdescribes := h' task (h task hdescribes)
  other db op hsound _ task h := by
    unfold elsewhere
    split
    · exact h
    · rename_i hop
      rcases pgServe_cases db op with hsame | hserved
      · rw [hsame]
        exact h
      · rw [hserved]
        exact h.serve hsound.inv (by simpa using hop)
  renew _ _ _ hsound _ h := h.serve hsound.inv rfl
  complete db report hsound task h := by
    obtain ⟨-, -, htransact, -⟩ := exec_complete hsound.inv report
    have hreport : report.op.claimsFor worker_id = false := by
      unfold Report.op
      split <;> rfl
    rw [htransact]
    exact (h.serve hsound.inv hreport).serve (serve_inv hsound.inv report.op) rfl

theorem Turn.allows_true (turn : Turn) : turn.Allows (fun _ => True) :=
  ⟨fun _ _ => trivial, fun _ _ => trivial⟩

/-! ## One call of `_execute` -/

/-- The call raises: its executor exits, or it reports about a task that the worker holds, and
what it reports has a U+0000 in it or is a failure whose policy overflows. -/
def ExecuteCall.Poisoned (worker_id : String) (turn : ClaimedTask → Turn) (call : ExecuteCall) :
    Prop :=
  match (turn call.task).outcome.result with
  | .error _ => True
  | .ok result => call.reported.HeldBy worker_id call.task.task_run_id ∧
      (result.hasNul = true ∨
        result.overflows call.reported call.task.task_run_id worker_id = true)

theorem ExecuteCall.poisoned_of_error (call : ExecuteCall) {e : Exn}
    (h : (turn call.task).outcome.result = .error e) : call.Poisoned worker_id turn := by
  unfold Poisoned
  rw [h]
  trivial

theorem ExecuteCall.poisoned_iff (call : ExecuteCall) {result : Result}
    (h : (turn call.task).outcome.result = .ok result) :
    call.Poisoned worker_id turn ↔ call.reported.HeldBy worker_id call.task.task_run_id ∧
      (result.hasNul = true ∨
        result.overflows call.reported call.task.task_run_id worker_id = true) := by
  unfold Poisoned
  rw [h]

/-- The call comes to its end, and the task is out of `RUNNING` if it was still the
worker's. -/
structure ExecuteCall.Settled (worker_id : String) (call : ExecuteCall) : Prop where
  ended : call.escaped = none
  moved : call.reported.HeldBy worker_id call.task.task_run_id →
    ∃ r, call.db.task_runs.get call.task.task_run_id = some r ∧ r.state ≠ .RUNNING

variable (settings worker_id turn) in
/-- **One call.** It is about its task and leaves a sound database; an exception leaves it just
when it is poisoned; and it is settled otherwise. -/
theorem execute_spec (h : db.Sound checks) (stats : WorkerStats) (task : ClaimedTask) :
    (execute checks settings worker_id (turn task) db stats task).task = task ∧
    (execute checks settings worker_id (turn task) db stats task).db.Sound checks ∧
    ((execute checks settings worker_id (turn task) db stats task).escaped = none ↔
      ¬ (execute checks settings worker_id (turn task) db stats task).Poisoned worker_id turn) ∧
    ((execute checks settings worker_id (turn task) db stats task).escaped = none →
      (execute checks settings worker_id (turn task) db stats task).Settled worker_id) := by
  have hstart : Watched checks worker_id task.task_run_id (db, false) :=
    ⟨h, fun hlost => by cases hlost⟩
  have hwatched : Watched checks worker_id task.task_run_id ((turn task).events.foldl
      (happen checks settings worker_id task.task_run_id) (db, false)) := hstart.events _
  unfold execute
  generalize (turn task).events.foldl
    (happen checks settings worker_id task.task_run_id) (db, false) = s at hwatched ⊢
  obtain ⟨db₁, lost⟩ := s
  cases hresult : (turn task).outcome.result with
  | error e =>
      exact ⟨rfl, hwatched.sound, iff_of_false (fun he => by cases he)
        (fun hnot => hnot (ExecuteCall.poisoned_of_error _ hresult)), fun he => by cases he⟩
  | ok result =>
      cases lost with
      -- The result is discarded, and the task is not the worker's any more.
      | true =>
          have hlost := hwatched.lost rfl
          exact ⟨rfl, hwatched.sound, iff_of_true rfl
            (fun hpoisoned => hlost ((ExecuteCall.poisoned_iff _ hresult).mp hpoisoned).1),
            fun _ => ⟨rfl, fun hheld => absurd hheld hlost⟩⟩
      | false =>
          have hsound : ((turn task).meanwhile.foldl (elsewhere checks worker_id) db₁).Sound
              checks := meanwhile_sound hwatched.sound _
          dsimp only
          rw [if_neg Bool.false_ne_true]
          generalize (turn task).meanwhile.foldl (elsewhere checks worker_id) db₁ = db₂
            at hsound ⊢
          obtain ⟨hrefused, hcarried⟩ := exec_pg_complete hsound
            (task.report worker_id result (turn task).clock (turn task).uniform)
          cases hexec : exec (postgres checks) (float_complete (walkRounds db₂)
              (task.report worker_id result (turn task).clock (turn task).uniform)) db₂ with
          | error e =>
              have hpoisoned := hrefused.mp ⟨e, hexec⟩
              exact ⟨rfl, hsound, iff_of_false (fun he => by cases he)
                (fun hnot => hnot ((ExecuteCall.poisoned_iff _ hresult).mpr hpoisoned)),
                fun he => by cases he⟩
          | ok out =>
              obtain ⟨hdb', hsound'⟩ := hcarried out.1 out.2 hexec
              refine ⟨rfl, hsound', iff_of_true rfl (fun hpoisoned => ?_),
                fun _ => ⟨rfl, fun hheld => ?_⟩⟩
              · obtain ⟨e, he⟩ := hrefused.mpr ((ExecuteCall.poisoned_iff _ hresult).mp hpoisoned)
                rw [hexec] at he
                cases he
              · obtain ⟨r, hr, hid, hstate, -⟩ := reported_row hsound.inv
                  (task.report worker_id result (turn task).clock (turn task).uniform) hheld
                rw [← hdb'] at hr
                exact ⟨r, Table.get_eq_some.mpr ⟨hr, hid⟩, hstate⟩

/-- A call that ends counts its task once. -/
theorem execute_counts (db : Db) (stats : WorkerStats) (task : ClaimedTask)
    (hended : (execute checks settings worker_id (turn task) db stats task).escaped = none) :
    let after := (execute checks settings worker_id (turn task) db stats task).stats
    after.claimed = stats.claimed ∧ after.succeeded + after.failed + after.lost_leases =
      stats.succeeded + stats.failed + stats.lost_leases + 1 := by
  unfold execute at hended ⊢
  cases hresult : (turn task).outcome.result with
  | error e =>
      rw [hresult] at hended
      cases hended
  | ok result =>
      rw [hresult] at hended
      dsimp only at hended ⊢
      split
      · exact ⟨rfl, rfl⟩
      · rename_i hkept
        rw [if_neg hkept] at hended
        split
        · unfold WorkerStats.reported
          split <;> split <;> exact ⟨rfl, by dsimp only; omega⟩
        · rename_i hexec
          rw [hexec] at hended
          cases hended

/-! ## A whole batch -/

variable (settings worker_id turn) in
/-- **The loop.** Every call before the last one ends; the calls are settled, and they
are the batch, just when none of them is poisoned. -/
theorem executeAll_spec (h : db.Sound checks) (stats : WorkerStats) (batch : List ClaimedTask) :
    ((∀ call ∈ executeAll checks settings worker_id turn db stats batch,
        ¬ call.Poisoned worker_id turn) →
      (executeAll checks settings worker_id turn db stats batch).map ExecuteCall.task = batch ∧
      ∀ call ∈ executeAll checks settings worker_id turn db stats batch,
        call.Settled worker_id) ∧
    ((∀ call ∈ executeAll checks settings worker_id turn db stats batch,
        call.escaped = none) →
      ∀ call ∈ executeAll checks settings worker_id turn db stats batch,
        ¬ call.Poisoned worker_id turn) := by
  induction batch generalizing db stats with
  | nil =>
      exact ⟨fun _ => ⟨rfl, fun call hcall => by cases hcall⟩, fun _ call hcall => by cases hcall⟩
  | cons task batch ih =>
      obtain ⟨htask, hsound, hescaped, hsettled⟩ :=
        execute_spec settings worker_id turn h stats task
      rw [executeAll]
      cases hcase : (execute checks settings worker_id (turn task) db stats task).escaped with
      -- The call raises: it is the last one, and it is poisoned.
      | some e =>
          have hpoisoned : (execute checks settings worker_id (turn task) db stats task).Poisoned
              worker_id turn := by
            by_contra hnot
            rw [hescaped.mpr hnot] at hcase
            cases hcase
          refine ⟨fun hclean => absurd hpoisoned (hclean _ List.mem_cons_self), fun hended => ?_⟩
          have hnone := hended _ List.mem_cons_self
          rw [hcase] at hnone
          cases hnone
      | none =>
          obtain ⟨hforth, hback⟩ := ih hsound
            (execute checks settings worker_id (turn task) db stats task).stats
          refine ⟨fun hclean => ?_, fun hended => List.forall_mem_cons.mpr ⟨hescaped.mp hcase, ?_⟩⟩
          · obtain ⟨hmap, hall⟩ :=
              hforth (fun call hcall => hclean call (List.mem_cons_of_mem _ hcall))
            refine ⟨?_, List.forall_mem_cons.mpr ⟨hsettled hcase, hall⟩⟩
            rw [List.map_cons, htask, hmap]
          · exact hback (fun call hcall => hended call (List.mem_cons_of_mem _ hcall))

/-- The loop calls `_execute` for tasks of the batch. -/
theorem executeAll_task_mem (h : db.Sound checks) (stats : WorkerStats)
    {batch : List ClaimedTask} :
    ∀ call ∈ executeAll checks settings worker_id turn db stats batch, call.task ∈ batch := by
  induction batch generalizing db stats with
  | nil => exact fun call hcall => by cases hcall
  | cons task batch ih =>
      obtain ⟨htask, hsound, -⟩ :=
        execute_spec settings worker_id turn h stats task
      have hfirst : (execute checks settings worker_id (turn task) db stats task).task ∈
          task :: batch := by
        rw [htask]
        exact List.mem_cons_self
      rw [executeAll]
      cases (execute checks settings worker_id (turn task) db stats task).escaped with
      | some e => exact List.forall_mem_cons.mpr ⟨hfirst, fun call hcall => by cases hcall⟩
      | none =>
          exact List.forall_mem_cons.mpr
            ⟨hfirst, fun call hcall => List.mem_cons_of_mem _ (ih hsound _ call hcall)⟩

/-- `run_once` returns after `_execute` came to its end for every task of the batch, and
every task that was still the worker's is out of `RUNNING`. -/
structure Iteration.Through (worker_id : String) (batch : List ClaimedTask) (it : Iteration) :
    Prop where
  returned : it.returned = .ok batch.length
  executed : it.calls.map ExecuteCall.task = batch
  settled : ∀ call ∈ it.calls, call.Settled worker_id

/-- What `run_once` does once it has claimed a batch. -/
theorem run_once_of_claim {claim_batch_size : ℕ} {limit : Option ℕ} {clock : Clock}
    {tie : UUID → ℕ} {batch : List ClaimedTask}
    (hclaim : exec (postgres checks) (claim_batch settings.lease_seconds clock tie worker_id
      ((limit.filter (· ≠ 0)).getD claim_batch_size)) db = .ok (db', batch))
    (turn : ClaimedTask → Turn) (stats : WorkerStats) :
    run_once checks settings claim_batch_size worker_id limit clock tie turn db stats =
      .ofCalls (executeAll checks settings worker_id turn db'
        { stats with claimed := stats.claimed + batch.length } batch) batch.length := by
  unfold run_once
  simp only [hclaim]

/-- The loop over a claimed batch goes through just when no call is poisoned. -/
theorem through_iff (h : db.Sound checks) (stats : WorkerStats) (batch : List ClaimedTask) :
    (Iteration.ofCalls (executeAll checks settings worker_id turn db stats batch)
        batch.length).Through worker_id batch ↔
      ∀ call ∈ executeAll checks settings worker_id turn db stats batch,
        ¬ call.Poisoned worker_id turn := by
  obtain ⟨hforth, hback⟩ := executeAll_spec settings worker_id turn h stats batch
  constructor
  · exact fun hthrough => hback (fun call hcall => (hthrough.settled call hcall).ended)
  · intro hfine
    obtain ⟨hmap, hsettled⟩ := hforth hfine
    refine ⟨?_, hmap, hsettled⟩
    have hnone : (executeAll checks settings worker_id turn db stats batch).findSome?
        ExecuteCall.escaped = none :=
      List.findSome?_eq_none_iff.mpr (fun call hcall => (hsettled call hcall).ended)
    unfold Iteration.ofCalls
    rw [hnone]

/-- The calls report to databases that come after the one the loop started from. -/
theorem Carries.reported {R : Db → Db → Prop}
    (h : Carries checks settings worker_id (fun _ => True) R) (hsound : db.Sound checks)
    (stats : WorkerStats) {batch : List ClaimedTask} :
    ∀ call ∈ executeAll checks settings worker_id turn db stats batch, R db call.reported := by
  induction batch generalizing db stats with
  | nil => exact fun call hcall => by cases hcall
  | cons task batch ih =>
      obtain ⟨hbefore, hafter⟩ := h.execute hsound stats (turn task).allows_true
      rw [executeAll]
      cases (Conductor.execute checks settings worker_id (turn task) db stats task).escaped with
      | some e => exact List.forall_mem_cons.mpr ⟨hbefore, fun call hcall => by cases hcall⟩
      | none =>
          have hsound' := (execute_spec settings worker_id turn hsound stats task).2.1
          refine List.forall_mem_cons.mpr ⟨hbefore, fun call hcall => ?_⟩
          exact h.trans _ _ _ (h.trans _ _ _ hbefore hafter) (ih hsound' _ call hcall)

/-- The executor does harm: it exits, or what comes of it has a U+0000 in it, or it is a failure
of a task whose policy overflows. -/
def ExecutorOutcome.harms (task : ClaimedTask) (outcome : ExecutorOutcome) : Bool :=
  match outcome.result with
  | .error _ => true
  | .ok (.success output) => (Result.success output).hasNul
  | .ok (.failure error) => (Result.failure error).hasNul || task.overflows

/-- About a task that is held, a report does harm just when its executor does. -/
theorem ExecuteCall.poisoned_of_held (call : ExecuteCall)
    (hdescribes : call.reported.Describes worker_id call.task)
    (hheld : call.reported.HeldBy worker_id call.task.task_run_id) :
    call.Poisoned worker_id turn ↔ (turn call.task).outcome.harms call.task = true := by
  have hsame := hdescribes.overflows_eq hheld
  unfold ExecutorOutcome.harms
  cases hresult : (turn call.task).outcome.result with
  | error e => exact iff_of_true (call.poisoned_of_error hresult) rfl
  | ok result =>
      rw [call.poisoned_iff hresult]
      cases result with
      | success output =>
          simp only [hheld, true_and, Result.overflows, Bool.false_eq_true, or_false]
      | failure error => simp only [hheld, true_and, Result.overflows, hsame, Bool.or_eq_true]

/-- Whoever holds what: without harm there is no call that raises. -/
theorem ExecuteCall.not_poisoned (call : ExecuteCall)
    (hdescribes : call.reported.Describes worker_id call.task)
    (hfine : (turn call.task).outcome.harms call.task = false) :
    ¬ call.Poisoned worker_id turn := by
  intro hpoisoned
  have hheld : call.reported.HeldBy worker_id call.task.task_run_id := by
    cases hresult : (turn call.task).outcome.result with
    | error e =>
        unfold ExecutorOutcome.harms at hfine
        rw [hresult] at hfine
        cases hfine
    | ok result => exact ((call.poisoned_iff hresult).mp hpoisoned).1
  rw [call.poisoned_of_held hdescribes hheld, hfine] at hpoisoned
  cases hpoisoned

/-- Wherever a call reports, its task is described as the claim left it. -/
theorem calls_describe (hinv : Inv checks db) {lease_seconds : ℚ} {clock : Clock}
    {tie : UUID → ℕ} {limit : ℕ} {batch : List ClaimedTask}
    (hclaim : exec (store checks) (claim_batch lease_seconds clock tie worker_id limit) db
      = .ok (db', batch)) (hsound : db'.Sound checks) (stats : WorkerStats) :
    ∀ call ∈ executeAll checks settings worker_id turn db' stats batch,
      call.reported.Describes worker_id call.task := by
  intro call hcall
  have htask := executeAll_task_mem hsound stats call hcall
  exact (carries_describes checks settings worker_id).reported hsound stats call hcall call.task
    (describes_of_claim hinv hclaim htask)

end Conductor
