/-
When a failed attempt is tried again.

`record_failure` sends the row "straight back to READY with a future `scheduled_at`: the
claim query already filters on that, so the backoff needs no separate timer and survives a
scheduler restart". So nobody watches a task that waits, and what keeps it from being tried
too early is one comparison, with the clock of whichever host claims next.

Here every transaction has its moment and the clocks are off by some `skew`, as in
`Recovery`. A row that waits is not written at all until it is claimed or ended, and that
is the argument: until a claim comes whose clock has reached `scheduled_at`, the row is the
one that `record_failure` left.

All this on PostgreSQL, where a transaction may be refused. Moments and delays are exact
here; `timedelta` rounds a delay to microseconds.
-/
import Conductor.Polling
import Conductor.Recovery
import Conductor.Postgres

set_option autoImplicit false

open Relational Txn

namespace Conductor

open RunRepository TaskQueueRepository WorkflowRepository

variable {checks : Bool} {db : Db}

/-! ## Failures and their delay -/

/-- A failure that a worker reports. -/
structure Failure where
  clock : Clock
  uniform : ℚ → ℚ
  task_run_id : UUID
  worker_id : String
  error : String

def Op.failed : Op → Option Failure
  | .failure clock uniform task_run_id worker_id error =>
      some ⟨clock, uniform, task_run_id, worker_id, error⟩
  | _ => none

def Request.failed : Request → Option Failure
  | .op request => request.failed
  | .complete report => report.op.failed

/-- The delay that the policy of its task gives a row whose attempt has failed. A policy that
raises gives none. -/
def Db.backoff (db : Db) (uniform : ℚ → ℚ) (row : TaskRun) : Option ℚ := do
  let task ← db.tasks.get row.task_id
  let policy ← (build_policy (some task.retry_policy)).toOption
  (policy.float_next_delay uniform row.attempt).toOption.join

theorem backoff_eq_some {uniform : ℚ → ℚ} {row : TaskRun} {delay : ℚ}
    (h : db.backoff uniform row = some delay) :
    ∃ task policy, db.tasks.get row.task_id = some task ∧
      build_policy (some task.retry_policy) = .ok policy ∧
      policy.overflows row.attempt = false ∧
      policy.next_delay uniform row.attempt = .ok (some delay) := by
  unfold Db.backoff at h
  obtain ⟨task, htask, h⟩ := Option.bind_eq_some_iff.mp h
  obtain ⟨policy, hpolicy, h⟩ := Option.bind_eq_some_iff.mp h
  rw [policy.float_next_delay_eq] at h
  refine ⟨task, policy, htask, ?_, ?_⟩
  · cases hbuild : build_policy (some task.retry_policy) with
    | error e =>
        rw [hbuild] at hpolicy
        cases hpolicy
    | ok built =>
        rw [hbuild] at hpolicy
        cases hpolicy
        rfl
  · cases hoverflows : policy.overflows row.attempt with
    | true =>
        rw [hoverflows] at h
        cases h
    | false =>
        rw [hoverflows, if_neg Bool.false_ne_true] at h
        refine ⟨rfl, ?_⟩
        cases hdelay : policy.next_delay uniform row.attempt with
        | error e =>
            rw [hdelay] at h
            cases h
        | ok found =>
            rw [hdelay] at h
            cases h
            rfl

/-- `record_failure` where the policy of the task gives a delay. -/
theorem exec_record_failure_backoff (hg : db.Good checks) {failure : Failure} {row : TaskRun}
    {delay : ℚ} (rounds : ℕ) (hrow : db.task_runs.get failure.task_run_id = some row)
    (hworker : row.worker_id = some failure.worker_id)
    (hdelay : db.backoff failure.uniform row = some delay) :
    ∃ db', exec (store checks) (record_failure failure.clock failure.uniform rounds
        failure.task_run_id failure.worker_id failure.error) db = .ok (db', some .RETRYING) ∧
      db'.task_runs = db.task_runs.update (ownedBy failure.task_run_id failure.worker_id)
        (requeuedForRetry (failure.clock.utcnow + delay) failure.error)
        (requeuedForRetry_id (failure.clock.utcnow + delay) failure.error) := by
  obtain ⟨task, policy, htask, hpolicy, -, hnext⟩ := backoff_eq_some hdelay
  obtain ⟨-, hid⟩ := Table.get_eq_some.mp hrow
  have hstep : ∀ r ∈ db.task_runs.rows,
      ownedBy failure.task_run_id failure.worker_id r = true →
      RowStep r (requeuedForRetry (failure.clock.utcnow + delay) failure.error r) :=
    fun r _ hp => .retry _ _ (by rw [(ownedBy_iff.mp hp).2]; rfl)
  have hgood : Db.Good checks { db with
      task_runs := db.task_runs.update (ownedBy failure.task_run_id failure.worker_id)
        (requeuedForRetry (failure.clock.utcnow + delay) failure.error)
        (requeuedForRetry_id (failure.clock.utcnow + delay) failure.error) } :=
    hg.update hstep (fun _ => rfl)
  unfold record_failure record_failure_with
  rw [exec_read]
  simp only [hrow, hworker, ne_eq, not_true_eq_false, if_false, htask, hpolicy, hnext, Prog.lift,
    Prog.ret_bind, failForRetry, hid]
  rw [exec_bind, hg.exec_update (p := fun _ => ownedBy failure.task_run_id failure.worker_id) hstep
    (fun _ => rfl)]
  simp only [Except.bind]
  rw [exec_bind, hgood.exec_close_attempt]
  exact ⟨_, rfl, rfl⟩

/-- The row that was reported failed waits for the delay of its policy. -/
theorem requeued_serve (hinv : Inv checks db) {failure : Failure} {row : TaskRun} {delay : ℚ}
    (hrow : db.task_runs.get failure.task_run_id = some row)
    (hworker : row.worker_id = some failure.worker_id)
    (hdelay : db.backoff failure.uniform row = some delay) {op : Op}
    (hop : op.failed = some failure) :
    requeuedForRetry (failure.clock.utcnow + delay) failure.error row ∈
      (serve checks db op).task_runs.rows := by
  obtain ⟨hmem, hid⟩ := Table.get_eq_some.mp hrow
  obtain ⟨db', hexec, htask_runs⟩ :=
    exec_record_failure_backoff hinv.good (walkRounds db) hrow hworker hdelay
  cases op with
  | failure clock uniform task_run_id worker_id error =>
      cases hop
      have hserve : serve checks db (.failure clock uniform task_run_id worker_id error) = db' :=
        commit_ok hexec
      rw [hserve, htask_runs]
      refine List.mem_map.mpr ⟨row, hmem, ?_⟩
      rw [if_pos (ownedBy_iff.mpr ⟨hid, hworker⟩)]
  | _ => cases hop

/-- The same for the transaction of a worker, which also refreshes the run. -/
theorem requeued_transact (hinv : Inv checks db) {failure : Failure} {row : TaskRun} {delay : ℚ}
    (hrow : db.task_runs.get failure.task_run_id = some row)
    (hworker : row.worker_id = some failure.worker_id)
    (hdelay : db.backoff failure.uniform row = some delay) {request : Request}
    (hfailed : request.failed = some failure) :
    requeuedForRetry (failure.clock.utcnow + delay) failure.error row ∈
      (transact checks db request).task_runs.rows := by
  cases request with
  | op operation => exact requeued_serve hinv hrow hworker hdelay hfailed
  | complete report =>
      obtain ⟨-, -, htransact, -⟩ := exec_complete hinv report
      have hreport : report.op.failed = some failure := hfailed
      have hrequeued := requeued_serve hinv hrow hworker hdelay hreport
      have hrefresh := serve_refresh (serve_inv hinv report.op) report.clock report.run_id
      rw [htransact]
      exact hrefresh.rewritten.mem_rows.mpr ⟨_, hrequeued, rfl⟩

/-- The report of a failure whose text can be stored and whose policy answers is carried out
by PostgreSQL. -/
theorem pgTransact_failed (hclean : db.Clean) {failure : Failure}
    (hnul : nulText (pySlice failure.error 4000) = false)
    (hfine : db.overflows failure.task_run_id failure.worker_id = false) {request : Request}
    (hfailed : request.failed = some failure) :
    pgTransact checks db request = transact checks db request := by
  cases request with
  | op operation =>
      cases operation with
      | failure clock uniform task_run_id worker_id error =>
          cases hfailed
          refine pgCommit_eq ?_
          rw [exec_float_record_failure, hfine, if_neg Bool.false_ne_true]
          exact exec_postgres (clean_record_failure _ _ _ _ _ hnul) hclean
      | _ => cases hfailed
  | complete report =>
      obtain ⟨task_run_id, run_id, worker_id, result, clock, uniform⟩ := report
      cases result with
      | success output => cases hfailed
      | failure error =>
          cases hfailed
          refine pgCommit_eq ?_
          rw [exec_float_complete]
          refine (if_neg (Bool.eq_false_iff.mp hfine)).trans ?_
          exact exec_postgres (clean_complete _ hnul) hclean

/-- So its row waits. -/
theorem requeued_pg (hsound : db.Sound checks) {failure : Failure} {row : TaskRun} {delay : ℚ}
    (hrow : db.task_runs.get failure.task_run_id = some row)
    (hworker : row.worker_id = some failure.worker_id)
    (hnul : nulText (pySlice failure.error 4000) = false)
    (hdelay : db.backoff failure.uniform row = some delay) {request : Request}
    (hfailed : request.failed = some failure) :
    requeuedForRetry (failure.clock.utcnow + delay) failure.error row ∈
      (pgTransact checks db request).task_runs.rows := by
  obtain ⟨task, policy, htask, hpolicy, hfine, -⟩ := backoff_eq_some hdelay
  rw [pgTransact_failed hsound.clean hnul
    ((Db.overflows_of_row hrow hworker htask hpolicy).trans hfine) hfailed]
  exact requeued_transact hsound.inv hrow hworker hdelay hfailed

/-! ## A row that waits -/

/-- A claim by a clock that has reached `due`. -/
def Request.ClaimsAt (due : Time) (request : Request) : Prop :=
  ∃ lease ∈ request.lease, lease.task_run_id = none ∧ due ≤ lease.utcnow

/-- What a request makes of a row that waits: it leaves it as it is, ends it, or claims it
once it is due. -/
inductive Waits (request : Request) (r r' : TaskRun) : Prop where
  | kept (h : r' = r)
  | ended (h : r'.state.is_terminal = true)
  | claimed (h : request.ClaimsAt r.scheduled_at) (hattempt : r'.attempt = r.attempt + 1)

/-- Nobody owns a row that waits. -/
theorem unowned_of_ready (hinv : Inv checks db) {r : TaskRun} (hr : r ∈ db.task_runs.rows)
    (hready : r.state = .READY) (task_run_id : UUID) (worker_id : String) :
    ownedBy task_run_id worker_id r ≠ true := by
  intro howned
  have hworker := (ownedBy_iff.mp howned).2
  have hrunning := (hinv.good.lawful r hr).running_of_worker (by rw [hworker]; rfl)
  rw [hready] at hrunning
  cases hrunning

/-- It is not the row of a worker that reports. -/
theorem id_ne_of_running {r row : TaskRun} (hr : r ∈ db.task_runs.rows) (hready : r.state = .READY)
    {task_run_id : UUID} (hrow : db.task_runs.get task_run_id = some row)
    (hrunning : row.state = .RUNNING) : r.id ≠ row.id := by
  intro hid
  obtain rfl := db.task_runs.eq_of_key hr (Table.get_eq_some.mp hrow).1 hid
  rw [hready] at hrunning
  cases hrunning

theorem Outcome.waits (hinv : Inv checks db) {op : Op} {g : TaskRun → TaskRun}
    (hout : Outcome checks db op g) {r : TaskRun} (hr : r ∈ db.task_runs.rows)
    (hready : r.state = .READY) : Waits (.op op) r (g r) := by
  cases hout with
  | refused => exact .kept rfl
  | lateSuccess => exact .kept rfl
  | lateFailure => exact .kept rfl
  | refreshed => exact .kept rfl
  | claimed lease_seconds clock tie worker_id limit =>
      dsimp only
      split
      · rename_i hpicked
        exact .claimed ⟨_, rfl, rfl, (claimable_of_picked hr hpicked).2⟩ rfl
      · exact .kept rfl
  | renewed lease_seconds clock task_run_id worker_id =>
      refine .kept (if_neg (fun hheld => ?_))
      have hrunning := (heldBy_iff.mp hheld).2.2
      rw [hready] at hrunning
      cases hrunning
  | succeeded clock task_run_id worker_id output hrow hheld =>
      -- The children that are unblocked are still PENDING.
      have hother := id_ne_of_running hr hready hrow (heldBy_iff.mp hheld).2.2
      refine .kept ?_
      unfold afterSuccess afterUnblock
      rw [if_neg hother, if_neg (fun hwaiting => ?_)]
      have hpending := waitingChild_state hwaiting
      rw [hready] at hpending
      cases hpending
  | retried => exact .kept (if_neg (unowned_of_ready hinv hr hready _ _))
  | failed clock uniform task_run_id worker_id error tasks hrow hworker =>
      have hrunning := (hinv.good.lawful _ (Table.get_eq_some.mp hrow).1).running_of_worker
        (by rw [hworker]; rfl)
      unfold afterFailure
      rw [if_neg (id_ne_of_running hr hready hrow hrunning)]
      split
      · exact .ended rfl
      · exact .kept rfl
  | reaped clock =>
      refine .kept (if_neg (fun hexpired => ?_))
      unfold leaseExpired at hexpired
      rw [hready] at hexpired
      cases hexpired
  | cancelled clock run_id =>
      dsimp only
      split
      · exact .ended rfl
      · exact .kept rfl

/-- Publishing and submitting write no row that is there. -/
theorem mem_serve_of_not_queue {op : Op} (hop : op.isQueue = false) {r : TaskRun}
    (hr : r ∈ db.task_runs.rows) : r ∈ (serve checks db op).task_runs.rows := by
  cases op with
  | publish ids now name specs description =>
      obtain ⟨_, _, _, hserve⟩ := serve_publish_frame checks db ids now name specs description
      rw [hserve]
      exact hr
  | submit ids clock workflow_id trigger_payload =>
      rcases serve_submit checks db ids clock workflow_id trigger_payload with
        hsame | ⟨workflow, -, new, rows, hcreated⟩
      · rw [hsame]
        exact hr
      · rw [hcreated.task_runs']
        exact List.mem_append_left _ hr
  | _ => cases hop

/-- A row after one operation: a later version of it, and if it waits, one of the three. -/
theorem waits_serve (hinv : Inv checks db) (op : Op) {r : TaskRun} (hr : r ∈ db.task_runs.rows) :
    ∃ r' ∈ (serve checks db op).task_runs.rows, r.Advances r' ∧
      (r.state = .READY → Waits (.op op) r r') := by
  cases hop : op.isQueue with
  | true =>
      obtain ⟨g, hout, hstep⟩ := serve_outcome hinv hop
      exact ⟨g r, hstep.rewritten.mem_rows.mpr ⟨r, hr, rfl⟩,
        .of_steps (hstep.rewritten.change r hr).steps (hinv.good.lawful r hr),
        hout.waits hinv hr⟩
  | false => exact ⟨r, mem_serve_of_not_queue hop hr, .refl r, fun _ => .kept rfl⟩

/-- The same for a whole transaction. -/
theorem waits_transact (hinv : Inv checks db) (request : Request) {r : TaskRun}
    (hr : r ∈ db.task_runs.rows) :
    ∃ r' ∈ (transact checks db request).task_runs.rows, r.Advances r' ∧
      (r.state = .READY → Waits request r r') := by
  cases request with
  | op operation => exact waits_serve hinv operation hr
  | complete report =>
      obtain ⟨-, -, htransact, -⟩ := exec_complete hinv report
      obtain ⟨r', hr', hadvances, hwaits⟩ := waits_serve hinv report.op hr
      refine ⟨r', ?_, hadvances, fun hready => ?_⟩
      · rw [htransact]
        exact (serve_refresh (serve_inv hinv report.op) report.clock
          report.run_id).rewritten.mem_rows.mpr ⟨r', hr', rfl⟩
      · -- A report is no claim.
        cases hwaits hready with
        | kept h => exact .kept h
        | ended h => exact .ended h
        | claimed h =>
            obtain ⟨lease, hlease, -⟩ := h
            unfold Report.op at hlease
            split at hlease <;> cases hlease

/-- A transaction that PostgreSQL refuses leaves the row as it is. -/
theorem waits_pg (hinv : Inv checks db) (request : Request) {r : TaskRun}
    (hr : r ∈ db.task_runs.rows) :
    ∃ r' ∈ (pgTransact checks db request).task_runs.rows, r.Advances r' ∧
      (r.state = .READY → Waits request r r') := by
  rcases pgTransact_cases db request with hsame | hdone
  · rw [hsame]
    exact ⟨r, hr, .refl r, fun _ => .kept rfl⟩
  · rw [hdone]
    exact waits_transact hinv request hr

/-- The database after these transactions on PostgreSQL. -/
def Db.pgThrough (checks : Bool) (db : Db) (events : List Timed) : Db :=
  events.foldl (fun db e => pgTransact checks db e.request) db

theorem Db.Sound.pgThrough (hsound : db.Sound checks) (events : List Timed) :
    (db.pgThrough checks events).Sound checks := by
  induction events generalizing db with
  | nil => exact hsound
  | cons e rest ih => exact ih (hsound.pgTransact e.request)

theorem Db.pgThrough_append (db : Db) (events events' : List Timed) :
    db.pgThrough checks (events ++ events') =
      (db.pgThrough checks events).pgThrough checks events' :=
  List.foldl_append

/-- What a run makes of a row that waits. -/
inductive Awaits (events : List Timed) (r r' : TaskRun) : Prop where
  | kept (h : r' = r)
  | ended (h : r'.state.is_terminal = true)
  | claimed {e : Timed} (he : e ∈ events) (h : e.request.ClaimsAt r.scheduled_at)
      (hattempt : r.attempt < r'.attempt)

/-- **A row that waits does so until it is due.** -/
theorem awaits_through (hsound : db.Sound checks) (events : List Timed) {r : TaskRun}
    (hr : r ∈ db.task_runs.rows) (hready : r.state = .READY) :
    ∃ r' ∈ (db.pgThrough checks events).task_runs.rows, r.Advances r' ∧ Awaits events r r' := by
  induction events using List.reverseRecOn with
  | nil => exact ⟨r, hr, .refl r, .kept rfl⟩
  | append_singleton events e ih =>
      obtain ⟨m, hm, hadvances, hawaits⟩ := ih
      have hinvm := (hsound.pgThrough events).inv
      obtain ⟨r', hr', hadvances', hwaits⟩ := waits_pg hinvm e.request hm
      refine ⟨r', ?_, hadvances.trans hadvances', ?_⟩
      · rw [Db.pgThrough_append]
        exact hr'
      · cases hawaits with
        | kept h =>
            subst h
            cases hwaits hready with
            | kept h' => exact .kept h'
            | ended h' => exact .ended h'
            | claimed h' hattempt =>
                exact .claimed (List.mem_append_right _ (List.mem_singleton.mpr rfl)) h' (by omega)
        | ended h =>
            obtain rfl := hadvances'.terminal h
            exact .ended h
        | claimed he h hattempt =>
            exact .claimed (List.mem_append_left _ he) h
              (lt_of_lt_of_le hattempt hadvances'.attempt)

/-- A claim with room for all that is due takes it. -/
theorem picked_of_room {now : Time} {limit : ℕ} (tie : UUID → ℕ) {r : TaskRun}
    (hr : r ∈ db.task_runs.rows) (hready : r.state = .READY) (hdue : r.scheduled_at ≤ now)
    (hroom : (db.task_runs.rows.filter (claimable now)).length ≤ limit) :
    picked tie now limit db r = true := by
  have hclaimable : claimable now r = true := by
    unfold claimable
    rw [hready, decide_eq_true hdue]
    rfl
  unfold picked candidates
  rw [List.take_of_length_le (by rw [List.length_insertionSort]; exact hroom)]
  refine decide_eq_true (List.mem_map_of_mem ?_)
  rw [List.mem_insertionSort]
  exact List.mem_filter.mpr ⟨hr, hclaimable⟩

/-- So it counts one attempt more, if the claim returns. -/
theorem claimed_of_room (hinv : Inv checks db) {lease_seconds : ℚ} {clock : Clock}
    {tie : UUID → ℕ} {worker_id : String} {limit : ℕ} {r : TaskRun} (hr : r ∈ db.task_runs.rows)
    (hready : r.state = .READY) (hdue : r.scheduled_at ≤ clock.utcnow)
    (hroom : (db.task_runs.rows.filter (claimable clock.utcnow)).length ≤ limit)
    (hok : ∃ out, exec (postgres checks) (claim_batch lease_seconds clock tie worker_id limit) db
      = .ok out) :
    ∃ r' ∈ (pgServe checks db (.claim lease_seconds clock tie worker_id limit)).task_runs.rows,
      r'.id = r.id ∧ r'.attempt = r.attempt + 1 := by
  obtain ⟨out, hout⟩ := hok
  have hstore := (exec_of_postgres hout).1
  have hsame : pgServe checks db (.claim lease_seconds clock tie worker_id limit) =
      serve checks db (.claim lease_seconds clock tie worker_id limit) :=
    pgCommit_eq (hout.trans hstore.symm)
  have hbudget : checks = true → db.WithinBudget tie clock.utcnow limit := by
    by_contra hnone
    obtain ⟨⟨e, hrefused⟩, -⟩ :=
      serve_claim_refused hinv lease_seconds clock tie worker_id limit hnone
    rw [hstore] at hrefused
    cases hrefused
  obtain ⟨-, -, -, hstep⟩ := serve_claim hinv lease_seconds clock tie worker_id limit hbudget
  have hmem := hstep.rewritten.mem_rows.mpr ⟨r, hr, rfl⟩
  rw [if_pos (picked_of_room tie hr hready hdue hroom)] at hmem
  rw [hsame]
  exact ⟨_, hmem, rfl, rfl⟩

/-- Who claims a row that waits does so when it is due, up to the clock of its host. -/
theorem not_claimed_early (hsound : db.Sound checks) {events : List Timed} {skew : ℚ}
    (hleases : ∀ e ∈ events, ∀ lease ∈ e.request.lease, |lease.utcnow - e.moment| ≤ skew)
    {r : TaskRun} (hr : r ∈ db.task_runs.rows) (hready : r.state = .READY) :
    ∃ r' ∈ (db.pgThrough checks events).task_runs.rows, r'.id = r.id ∧
      (r' = r ∨ r'.state.is_terminal = true ∨ r.attempt < r'.attempt ∧
        ∃ e ∈ events, (∃ due, e.request.ClaimsAt due) ∧ r.scheduled_at ≤ e.moment + skew) := by
  obtain ⟨r', hr', hadvances, hawaits⟩ := awaits_through hsound events hr hready
  refine ⟨r', hr', hadvances.id, ?_⟩
  cases hawaits with
  | kept hkept => exact Or.inl hkept
  | ended hended => exact Or.inr (Or.inl hended)
  | claimed he hclaims hattempt =>
      rename_i e
      refine Or.inr (Or.inr ⟨hattempt, e, he, ⟨_, hclaims⟩, ?_⟩)
      obtain ⟨lease, hlease, -, hdue⟩ := hclaims
      have hskew := abs_le.mp (hleases e he lease hlease)
      linarith

/-- And a claim that finds it due and has room takes it, where nobody has. -/
theorem claimed_when_due (hsound : db.Sound checks) {events : List Timed} {claim : Timed}
    {lease_seconds : ℚ} {clock : Clock} {tie : UUID → ℕ} {worker_id : String} {limit : ℕ}
    {r : TaskRun} (hr : r ∈ db.task_runs.rows) (hready : r.state = .READY)
    (hclaim : claim.request = .op (.claim lease_seconds clock tie worker_id limit))
    (hdue : r.scheduled_at ≤ clock.utcnow)
    (hroom : ((db.pgThrough checks events).task_runs.rows.filter
      (claimable clock.utcnow)).length ≤ limit)
    (hok : ∃ out, exec (postgres checks) (claim_batch lease_seconds clock tie worker_id limit)
      (db.pgThrough checks events) = .ok out) :
    ∃ r' ∈ (db.pgThrough checks (events ++ [claim])).task_runs.rows, r'.id = r.id ∧
      (r'.state.is_terminal = true ∨ r.attempt < r'.attempt) := by
  obtain ⟨m, hm, hadvances, hawaits⟩ := awaits_through hsound events hr hready
  have hinvm := (hsound.pgThrough events).inv
  rw [Db.pgThrough_append]
  cases hawaits with
  | kept hkept =>
      -- It still waits, so this claim is the one.
      subst hkept
      obtain ⟨r', hr', hid, hattempt⟩ := claimed_of_room hinvm hm hready hdue hroom hok
      refine ⟨r', ?_, hid, Or.inr ?_⟩
      · show r' ∈ (pgTransact checks _ claim.request).task_runs.rows
        rw [hclaim]
        exact hr'
      · rw [hattempt]
        exact Int.lt_succ m.attempt
  | ended hended =>
      obtain ⟨r', hr', hlater, -⟩ := waits_pg hinvm claim.request hm
      obtain rfl := hlater.terminal hended
      exact ⟨r', hr', hadvances.id, Or.inl hended⟩
  | claimed _ _ hattempt =>
      obtain ⟨r', hr', hlater, -⟩ := waits_pg hinvm claim.request hm
      exact ⟨r', hr', (hadvances.trans hlater).id,
        Or.inr (lt_of_lt_of_le hattempt hlater.attempt)⟩

/-! ## Neither early nor late -/

/-- Transactions one after the other, by clocks that are off by `skew` at most. -/
structure Clocked (skew : ℚ) (events : List Timed) : Prop where
  ordered : events.Pairwise (fun a b => a.moment ≤ b.moment)
  leases : ∀ e ∈ events, ∀ lease ∈ e.request.lease, |lease.utcnow - e.moment| ≤ skew
  failures : ∀ e ∈ events, ∀ failure ∈ e.request.failed, |failure.clock.utcnow - e.moment| ≤ skew

section Backoff

variable {skew delay : ℚ} {before rest : List Timed} {fail : Timed} {failure : Failure}
  {row : TaskRun}

/-- **The backoff is kept.** A failure that its worker reports at `fail.moment`, with a text
that PostgreSQL can store, and to which the policy of the task answers with `delay`, leaves
a row that waits. It is not tried again before `delay` is over, whatever happens and whoever
claims; until then it is as it was left, unless it has ended. And the first claim from then
on that returns and has room for what is due takes it. Both up to the clocks of the two
hosts. -/
theorem backoff_kept (hinit : Initial db) (hclean : db.Clean)
    (h : Clocked skew (before ++ fail :: rest))
    (hfailed : fail.request.failed = some failure)
    (hrow : (db.pgThrough checks before).task_runs.get failure.task_run_id = some row)
    (hworker : row.worker_id = some failure.worker_id)
    (hnul : nulText (pySlice failure.error 4000) = false)
    (hdelay : (db.pgThrough checks before).backoff failure.uniform row = some delay) :
    (∃ r ∈ (db.pgThrough checks (before ++ fail :: rest)).task_runs.rows, r.id = row.id ∧
      (r = requeuedForRetry (failure.clock.utcnow + delay) failure.error row ∨
        r.state.is_terminal = true ∨
        row.attempt < r.attempt ∧ ∃ e ∈ rest, (∃ due, e.request.ClaimsAt due) ∧
          fail.moment + delay ≤ e.moment + 2 * skew)) ∧
    ∀ mid claim after lease_seconds clock tie worker_id limit, rest = mid ++ claim :: after →
      claim.request = .op (.claim lease_seconds clock tie worker_id limit) →
      fail.moment + delay + 2 * skew ≤ claim.moment →
      ((db.pgThrough checks (before ++ fail :: mid)).task_runs.rows.filter
        (claimable clock.utcnow)).length ≤ limit →
      (∃ out, exec (postgres checks) (claim_batch lease_seconds clock tie worker_id limit)
        (db.pgThrough checks (before ++ fail :: mid)) = .ok out) →
      ∃ r ∈ (db.pgThrough checks (before ++ fail :: (mid ++ [claim]))).task_runs.rows,
        r.id = row.id ∧ (r.state.is_terminal = true ∨ row.attempt < r.attempt) := by
  have hsound : Db.Sound checks (db.pgThrough checks before) :=
    Db.Sound.pgThrough ⟨hinit.inv, hclean⟩ before
  have hsoundfail := hsound.pgTransact fail.request
  have hrequeued := requeued_pg hsound hrow hworker hnul hdelay hfailed
  have hfailmem : fail ∈ before ++ fail :: rest := List.mem_append_right _ List.mem_cons_self
  have hfailskew := abs_le.mp (h.failures fail hfailmem failure hfailed)
  have hthrough : ∀ events, db.pgThrough checks (before ++ fail :: events) =
      (pgTransact checks (db.pgThrough checks before) fail.request).pgThrough checks events := by
    intro events
    rw [Db.pgThrough_append]
    rfl
  refine ⟨?_, ?_⟩
  · have hleases : ∀ e ∈ rest, ∀ lease ∈ e.request.lease, |lease.utcnow - e.moment| ≤ skew :=
      fun e he => h.leases e (List.mem_append_right _ (List.mem_cons_of_mem _ he))
    obtain ⟨r, hr, hid, hwaits⟩ := not_claimed_early hsoundfail hleases hrequeued rfl
    refine ⟨r, by rw [hthrough]; exact hr, hid, ?_⟩
    rcases hwaits with hkept | hended | ⟨hattempt, e, he, hclaims, hscheduled⟩
    · exact Or.inl hkept
    · exact Or.inr (Or.inl hended)
    · refine Or.inr (Or.inr ⟨hattempt, e, he, hclaims, ?_⟩)
      have hdue : failure.clock.utcnow + delay ≤ e.moment + skew := hscheduled
      linarith
  · rintro mid claim after lease_seconds clock tie worker_id limit rfl hclaim hmoment hroom hok
    rw [hthrough] at hroom hok
    have hclaimmem : claim ∈ before ++ fail :: (mid ++ claim :: after) :=
      List.mem_append_right _ (List.mem_cons_of_mem _
        (List.mem_append_right _ List.mem_cons_self))
    have hclaimskew := abs_le.mp (h.leases claim hclaimmem
      ⟨worker_id, none, clock.utcnow, lease_seconds⟩ (by rw [hclaim]; rfl))
    -- The row is due by the clock of this claim.
    have hdue : failure.clock.utcnow + delay ≤ clock.utcnow := by linarith
    have hclaimed := claimed_when_due hsoundfail hrequeued rfl hclaim hdue hroom hok
    rw [hthrough]
    exact hclaimed

end Backoff

/-! ## One retry -/

/-- A worker claims the task of a run at 0. -/
def firstTry : List Timed :=
  (soloStart retryOnce ++ [claimAt 0 "w1"]).map (fun op => ⟨0, .op op⟩)

/-- It reports at 1 that it has failed. -/
def firstFailure : Failure := ⟨clockAt 1, id, 12, "w1", "exit 1"⟩

def failedTry : Timed :=
  ⟨1, .complete ⟨12, 10, "w1", .failure "exit 1", clockAt 1, id⟩⟩

/-- Another worker polls, too early and then when the delay is over. -/
def polledEarly : Timed := ⟨3, .op (claimAt 3 "w2")⟩
def polledLater : Timed := ⟨100, .op (claimAt 100 "w2")⟩

theorem clocked_polled : Clocked 0 (firstTry ++ failedTry :: [polledEarly, polledLater]) where
  ordered := by decide +kernel
  leases := by decide +kernel
  failures := by decide +kernel

/-- The early poll finds the row as it was left, due at 6, and the later one claims it. -/
theorem backoff_kept_once :
    (∃ r ∈ (Db.empty.pgThrough true (firstTry ++ failedTry :: [polledEarly])).task_runs.rows,
      r.id = 12 ∧ r.state = .READY ∧ r.scheduled_at = 6) ∧
    ∃ r ∈ (Db.empty.pgThrough true
        (firstTry ++ failedTry :: ([polledEarly] ++ [polledLater]))).task_runs.rows,
      r.id = 12 ∧ (r.state.is_terminal = true ∨ 1 < r.attempt) := by
  have hheld : ((Db.empty.pgThrough true firstTry).task_runs.get 12).any (fun row =>
      row.id = 12 && row.worker_id = some "w1" && row.attempt = 1 &&
        (Db.empty.pgThrough true firstTry).backoff id row = some 5) = true := by
    decide +kernel
  obtain ⟨row, hrow, hheld⟩ := (Option.any_eq_true _ _).mp hheld
  simp only [Bool.and_eq_true, decide_eq_true_eq] at hheld
  obtain ⟨⟨⟨hid, hworker⟩, hattempt⟩, hdelay⟩ := hheld
  have hfailed : failedTry.request.failed = some firstFailure := rfl
  have hok : (exec (postgres true) (claim_batch 30 (clockAt 100) (fun _ => 0) "w2" 1)
      (Db.empty.pgThrough true (firstTry ++ failedTry :: [polledEarly]))).isOk = true := by
    decide +kernel
  have hreturns : ∃ out, exec (postgres true) (claim_batch 30 (clockAt 100) (fun _ => 0) "w2" 1)
      (Db.empty.pgThrough true (firstTry ++ failedTry :: [polledEarly])) = .ok out := by
    cases hexec : exec (postgres true) (claim_batch 30 (clockAt 100) (fun _ => 0) "w2" 1)
        (Db.empty.pgThrough true (firstTry ++ failedTry :: [polledEarly])) with
    | ok out => exact ⟨out, rfl⟩
    | error e =>
        rw [hexec] at hok
        cases hok
  have hmoment : failedTry.moment + 5 + 2 * 0 ≤ polledLater.moment := by decide +kernel
  obtain ⟨-, hlate⟩ := backoff_kept initial_empty (by rfl) clocked_polled hfailed hrow
    hworker (by decide +kernel) hdelay
  refine ⟨by decide +kernel, ?_⟩
  rw [← hid, ← hattempt]
  exact hlate [polledEarly] polledLater [] 30 (clockAt 100) (fun _ => 0) "w2" 1 rfl rfl hmoment
    (by decide +kernel) hreturns

end Conductor
