/-
Workers: who holds what, and whose report counts.

A `World` is the database together with what each worker still has to execute and
report. A worker claims only when it has nothing left, as `Worker.run_once` does;
for every task of its batch in turn it makes one report or, when its heartbeat saw
the lease go, none. Everything else (heartbeats, the reaper, the API) may happen at
any time, and a worker that crashes simply does nothing more.

Reports name the worker and not the attempt. That a report about an old attempt is
refused nevertheless rests on `linked`: a row held by a worker that has a task of
it in its batch is at the attempt of that claim, because the worker cannot have
claimed the row again before being done with the batch.
-/
import Conductor.Requests

set_option autoImplicit false

open Relational Txn

namespace Conductor

open RunRepository TaskQueueRepository WorkflowRepository

/-! ## The system -/

structure World where
  db : Db
  /-- What a worker has claimed and not yet reported, in order. -/
  batch : String → List ClaimedTask
  /-- Every task that a claim has ever handed out. -/
  handed : List ClaimedTask
  /-- Every accepted success report: the task row and the output it passed. -/
  successes : List (UUID × Option Dict)

structure World.Initial (s : World) : Prop where
  db : Conductor.Initial s.db
  batch : ∀ w, s.batch w = []
  handed : s.handed = []
  successes : s.successes = []

/-- A transaction of some process, or a worker passing over a task. -/
inductive Action where
  | other (op : Op)
  | claim (worker_id : String) (lease_seconds : ℚ) (clock : Clock) (tie : UUID → ℕ) (limit : ℕ)
  | report (worker_id : String) (result : Result) (clock : Clock) (uniform : ℚ → ℚ)
  | discard (worker_id : String)

/-- The transactions that are not made from a worker's loop. -/
def Op.outside : Op → Bool
  | .publish .. | .submit .. | .renew .. | .reap .. | .cancel .. => true
  | _ => false

/-- The attempt that a claim handed out. -/
def ClaimedTask.key (c : ClaimedTask) : UUID × ℤ := (c.task_run_id, c.attempt)

/-- A worker's report about a task it claimed. -/
def ClaimedTask.report (c : ClaimedTask) (worker_id : String) (result : Result) (clock : Clock)
    (uniform : ℚ → ℚ) : Report where
  task_run_id := c.task_run_id
  run_id := c.run_id
  worker_id := worker_id
  result := result
  clock := clock
  uniform := uniform

/-- The success reports after one more report. -/
def recordSuccess (successes : List (UUID × Option Dict)) (c : ClaimedTask) (accepted : Bool) :
    Result → List (UUID × Option Dict)
  | .success output => if accepted then successes ++ [(c.task_run_id, output)] else successes
  | .failure _ => successes

/-- One step. An action that its worker cannot take now does nothing. -/
def act (checks : Bool) (s : World) : Action → World
  | .other op => if op.outside then { s with db := serve checks s.db op } else s
  | .claim worker_id lease_seconds clock tie limit =>
      match s.batch worker_id,
        exec (store checks) (claim_batch lease_seconds clock tie worker_id limit) s.db with
      | [], .ok (db, results) =>
          { s with db := db, batch := Function.update s.batch worker_id results,
                   handed := s.handed ++ results }
      | _, _ => s
  | .report worker_id result clock uniform =>
      match s.batch worker_id with
      | [] => s
      | c :: rest =>
          match exec (store checks)
            (complete (walkRounds s.db) (c.report worker_id result clock uniform)) s.db with
          | .error _ => s
          | .ok (db, accepted) =>
              { s with db := db, batch := Function.update s.batch worker_id rest,
                       successes := recordSuccess s.successes c accepted result }
  | .discard worker_id =>
      { s with batch := Function.update s.batch worker_id (s.batch worker_id).tail }

variable {checks : Bool} {db db' : Db} {g : TaskRun → TaskRun}

/-! ## What an operation does to the owner of a row -/

/-- Rows persist, count up, and are final when terminal. -/
def Persists (db db' : Db) : Prop :=
  ∀ r ∈ db.task_runs.rows, ∃ r' ∈ db'.task_runs.rows, r'.id = r.id ∧ r.attempt ≤ r'.attempt ∧
    (r.state.is_terminal = true → r' = r)

/-- Nobody comes to hold a row. -/
def NoNewOwner (db db' : Db) : Prop :=
  ∀ r' ∈ db'.task_runs.rows, ∀ w, r'.worker_id = some w →
    ∃ r ∈ db.task_runs.rows, r.id = r'.id ∧ r.worker_id = some w ∧ r.attempt = r'.attempt

theorem Rewritten.persists (hinv : Inv checks db) (h : Rewritten checks db db' g) :
    Persists db db' := by
  intro r hr
  obtain ⟨hid, -, -, -, hle⟩ := (h.change r hr).keeps
  exact ⟨g r, h.mem_rows.mpr ⟨r, hr, rfl⟩, hid, hle,
    RowStep.eq_of_terminal (h.change r hr).steps (hinv.good.lawful r hr)⟩

theorem unblocked_worker (r : TaskRun) : (unblocked r).worker_id = r.worker_id := by
  simp only [unblocked]
  split <;> split <;> rfl

/-- Only a claim gives a row an owner. -/
theorem Outcome.owner {op : Op} (hout : Outcome checks db op g)
    (hop : ∀ lease_seconds clock tie worker_id limit,
      op ≠ .claim lease_seconds clock tie worker_id limit) {r : TaskRun} {w : String}
    (hw : (g r).worker_id = some w) : r.worker_id = some w ∧ r.attempt = (g r).attempt := by
  cases hout with
  | claimed => exact absurd rfl (hop _ _ _ _ _)
  | refused => exact absurd rfl (hop _ _ _ _ _)
  | lateSuccess => exact ⟨hw, rfl⟩
  | lateFailure => exact ⟨hw, rfl⟩
  | refreshed => exact ⟨hw, rfl⟩
  -- Every other rewrite leaves the owner or takes it away.
  | renewed =>
      dsimp only at hw ⊢
      split at hw
      · rename_i hheld
        rw [if_pos hheld]
        exact ⟨hw, rfl⟩
      · rename_i hheld
        rw [if_neg hheld]
        exact ⟨hw, rfl⟩
  | succeeded =>
      unfold afterSuccess at hw ⊢
      split at hw
      · cases hw
      · rename_i hid
        rw [if_neg hid]
        unfold afterUnblock at hw ⊢
        split at hw
        · rename_i hwaiting
          rw [if_pos hwaiting]
          exact ⟨(unblocked_worker r).symm.trans hw, (unblocked_cases r).2.2.2.symm⟩
        · rename_i hwaiting
          rw [if_neg hwaiting]
          exact ⟨hw, rfl⟩
  | retried =>
      dsimp only at hw ⊢
      split at hw
      · cases hw
      · rename_i howned
        rw [if_neg howned]
        exact ⟨hw, rfl⟩
  | failed =>
      unfold afterFailure at hw ⊢
      split at hw
      · cases hw
      · rename_i hid
        rw [if_neg hid]
        split at hw
        · rename_i hb
          rw [if_pos hb]
          exact ⟨hw, rfl⟩
        · rename_i hb
          rw [if_neg hb]
          exact ⟨hw, rfl⟩
  | reaped =>
      dsimp only at hw ⊢
      split at hw
      · cases hw
      · rename_i hexpired
        rw [if_neg hexpired]
        exact ⟨hw, rfl⟩
  | cancelled =>
      dsimp only at hw ⊢
      split at hw
      · cases hw
      · rename_i hc
        rw [if_neg hc]
        exact ⟨hw, rfl⟩

/-- A queue operation other than a claim. -/
theorem quiet_queue (hinv : Inv checks db) {op : Op} (hqueue : op.isQueue = true)
    (hop : ∀ lease_seconds clock tie worker_id limit,
      op ≠ .claim lease_seconds clock tie worker_id limit) :
    Persists db (serve checks db op) ∧ NoNewOwner db (serve checks db op) := by
  obtain ⟨g, hout, hstep⟩ := serve_outcome hinv hqueue
  refine ⟨hstep.rewritten.persists hinv, fun r' hr' w hw => ?_⟩
  obtain ⟨r, hr, rfl⟩ := hstep.rewritten.mem_rows.mp hr'
  obtain ⟨howner, hattempt⟩ := hout.owner hop hw
  exact ⟨r, hr, (hstep.rewritten.change r hr).keeps.1.symm, howner, hattempt⟩

theorem quiet_refl (db : Db) : Persists db db ∧ NoNewOwner db db :=
  ⟨fun r hr => ⟨r, hr, rfl, le_refl _, fun _ => rfl⟩, fun r hr _ hw => ⟨r, hr, rfl, hw, rfl⟩⟩

theorem quiet_submit (hinv : Inv checks db) (ids : RunIds) (clock : Clock) (workflow_id : UUID)
    (trigger_payload : Option Dict) :
    Persists db (serve checks db (.submit ids clock workflow_id trigger_payload)) ∧
      NoNewOwner db (serve checks db (.submit ids clock workflow_id trigger_payload)) := by
  constructor
  · rcases serve_submit checks db ids clock workflow_id trigger_payload with
      hsame | ⟨workflow, -, run, rows, hcreated⟩
    · rw [hsame]
      exact (quiet_refl db).1
    · unfold Persists
      rw [hcreated.task_runs']
      exact fun r hr => ⟨r, List.mem_append_left _ hr, rfl, le_refl _, fun _ => rfl⟩
  · intro r hr w hw
    rcases mem_task_runs_submit hinv hr with hr | ⟨unmet, policy, task, rfl⟩
    · exact ⟨r, hr, rfl, hw, rfl⟩
    · cases hw

theorem quiet_publish (ids : WorkflowIds) (now : Time) (name : String) (specs : List TaskSpec)
    (description : Option String) :
    Persists db (serve checks db (.publish ids now name specs description)) ∧
      NoNewOwner db (serve checks db (.publish ids now name specs description)) := by
  obtain ⟨_, _, _, hserve⟩ := serve_publish_frame checks db ids now name specs description
  rw [hserve]
  exact quiet_refl db

/-- A transaction from outside the workers' loops. -/
theorem quiet_outside (hinv : Inv checks db) {op : Op} (hop : op.outside = true) :
    Persists db (serve checks db op) ∧ NoNewOwner db (serve checks db op) := by
  cases op with
  | publish ids now name specs description => exact quiet_publish ids now name specs description
  | submit ids clock workflow_id trigger_payload =>
      exact quiet_submit hinv ids clock workflow_id trigger_payload
  | renew => exact quiet_queue hinv rfl (fun _ _ _ _ _ => nofun)
  | reap => exact quiet_queue hinv rfl (fun _ _ _ _ _ => nofun)
  | cancel => exact quiet_queue hinv rfl (fun _ _ _ _ _ => nofun)
  | claim => cases hop
  | success => cases hop
  | failure => cases hop
  | refresh => cases hop

/-- A completion: the report, and a refresh that touches no task row. -/
theorem quiet_complete (hinv : Inv checks db) (report : Report) :
    Persists db (transact checks db (.complete report)) ∧
      NoNewOwner db (transact checks db (.complete report)) := by
  unfold Persists NoNewOwner
  rw [task_runs_complete hinv report]
  refine quiet_queue hinv report.op_isQueue (fun _ _ _ _ _ => ?_)
  unfold Report.op
  split <;> nofun

/-! ## Claims -/

section Claim

variable {lease_seconds : ℚ} {clock : Clock} {tie : UUID → ℕ} {worker_id : String} {limit : ℕ}
  {results : List ClaimedTask}

theorem rewritten_claim (hinv : Inv checks db)
    (h : exec (store checks) (claim_batch lease_seconds clock tie worker_id limit) db
      = .ok (db', results)) :
    Rewritten checks db db' (fun r => if picked tie clock.utcnow limit db r
      then claimed worker_id (clock.utcnow + lease_seconds) clock.now r else r) := by
  have hbudget :=
    ((exec_claim_batch hinv.good hinv.claimable lease_seconds clock tie worker_id limit).mp h).1
  obtain ⟨results', hexec, -, hstep⟩ :=
    serve_claim hinv lease_seconds clock tie worker_id limit hbudget
  rw [h] at hexec
  cases hexec
  exact hstep.rewritten

/-- A claim hands out every row once. -/
theorem claimed_task_run_ids (hinv : Inv checks db)
    (h : exec (store checks) (claim_batch lease_seconds clock tie worker_id limit) db
      = .ok (db', results)) : (results.map ClaimedTask.task_run_id).Nodup := by
  obtain ⟨-, hresults, -⟩ :=
    (exec_claim_batch hinv.good hinv.claimable lease_seconds clock tie worker_id limit).mp h
  have hids : results.map ClaimedTask.task_run_id
      = (db.task_runs.rows.filter (picked tie clock.utcnow limit db)).map TaskRun.id := by
    have hkeys : ∀ {rows : List TaskRun} {results : List ClaimedTask},
        List.Forall₂ (fun r c => toClaimedTask db r = .ok c) rows results →
        results.map ClaimedTask.task_run_id = rows.map TaskRun.id := by
      intro rows results hall
      induction hall with
      | nil => rfl
      | cons hok _ ih =>
          rw [List.map_cons, List.map_cons, ih]
          unfold toClaimedTask at hok
          split at hok
          · cases hok
          · cases hok
            rfl
    rw [hkeys hresults, claimedRows, List.map_map]
    rfl
  rw [hids]
  exact db.task_runs.nodup.sublist (List.filter_sublist.map _)

/-- A claim hands out every task once. -/
theorem claimed_nodup (hinv : Inv checks db)
    (h : exec (store checks) (claim_batch lease_seconds clock tie worker_id limit) db
      = .ok (db', results)) : (results.map ClaimedTask.key).Nodup := by
  have hnodup := claimed_task_run_ids hinv h
  refine List.Nodup.of_map Prod.fst ?_
  rw [List.map_map]
  exact hnodup

/-- After a claim a row is held by its worker at the attempt it handed out. -/
theorem claimed_attempt (hinv : Inv checks db)
    (h : exec (store checks) (claim_batch lease_seconds clock tie worker_id limit) db
      = .ok (db', results)) {c : ClaimedTask} (hc : c ∈ results) {r' : TaskRun}
    (hr' : r' ∈ db'.task_runs.rows) (hid : r'.id = c.task_run_id) : r'.attempt = c.attempt := by
  obtain ⟨r, hr, hpicked, hcid, -, hattempt⟩ := claimed_task hinv h hc
  obtain ⟨s, hs, rfl⟩ := (rewritten_claim hinv h).mem_rows.mp hr'
  have hsid : s.id = r.id := by
    rw [((rewritten_claim hinv h).change s hs).keeps.1] at hid
    exact hid.trans hcid
  rw [db.task_runs.eq_of_key hs hr hsid, if_pos hpicked, hattempt]
  rfl

/-- A claim makes nobody else an owner. -/
theorem claimed_other (hinv : Inv checks db)
    (h : exec (store checks) (claim_batch lease_seconds clock tie worker_id limit) db
      = .ok (db', results)) {r' : TaskRun} (hr' : r' ∈ db'.task_runs.rows) {w : String}
    (hne : w ≠ worker_id) (hw : r'.worker_id = some w) : r' ∈ db.task_runs.rows := by
  obtain ⟨r, hr, rfl⟩ := (rewritten_claim hinv h).mem_rows.mp hr'
  split at hw
  · cases hw
    exact absurd rfl hne
  · rename_i hp
    rw [if_neg hp]
    exact hr

end Claim

/-! ## The invariant -/

structure World.Safe (checks : Bool) (s : World) : Prop where
  inv : Inv checks s.db
  /-- A row that a worker holds is at the attempt of that worker's claim. -/
  linked : ∀ w, ∀ c ∈ s.batch w, ∀ r ∈ s.db.task_runs.rows, r.id = c.task_run_id →
    r.worker_id = some w → r.attempt = c.attempt
  /-- What was handed out has been counted. -/
  counted : ∀ c ∈ s.handed, ∃ r ∈ s.db.task_runs.rows, r.id = c.task_run_id ∧
    c.attempt ≤ r.attempt
  handed_once : (s.handed.map ClaimedTask.key).Nodup
  stored : ∀ x ∈ s.successes, ∃ r ∈ s.db.task_runs.rows, r.id = x.1 ∧ r.state = .SUCCEEDED ∧
    r.output = some (x.2.getD Dict.empty)
  accepted_once : (s.successes.map Prod.fst).Nodup

variable {s : World}

namespace World.Safe

/-- A step that only moves the database, and makes nobody an owner. -/
theorem quiet (h : s.Safe checks) (hinv : Inv checks db')
    (hquiet : Persists s.db db' ∧ NoNewOwner s.db db') {batch : String → List ClaimedTask}
    (hbatch : ∀ w, ∀ c ∈ batch w, c ∈ s.batch w) :
    World.Safe checks { s with db := db', batch := batch } := by
  refine ⟨hinv, fun w c hc r' hr' hid hw => ?_, fun c hc => ?_, h.handed_once, fun x hx => ?_,
    h.accepted_once⟩
  · obtain ⟨r, hr, hrid, hworker, hattempt⟩ := hquiet.2 r' hr' w hw
    rw [← hattempt]
    exact h.linked w c (hbatch w c hc) r hr (hrid.trans hid) hworker
  · obtain ⟨r, hr, hid, hle⟩ := h.counted c hc
    obtain ⟨r', hr', hid', hle', -⟩ := hquiet.1 r hr
    exact ⟨r', hr', hid'.trans hid, hle.trans hle'⟩
  · obtain ⟨r, hr, hid, hs, hout⟩ := h.stored x hx
    obtain ⟨r', hr', -, -, hsame⟩ := hquiet.1 r hr
    have he := hsame (by rw [hs]; rfl)
    rw [he] at hr'
    exact ⟨r, hr', hid, hs, hout⟩

theorem claim (h : s.Safe checks) {lease_seconds : ℚ} {clock : Clock} {tie : UUID → ℕ}
    {worker_id : String} {limit : ℕ} {results : List ClaimedTask} (hidle : s.batch worker_id = [])
    (hexec : exec (store checks) (claim_batch lease_seconds clock tie worker_id limit) s.db
      = .ok (db', results)) :
    World.Safe checks { s with db := db', batch := Function.update s.batch worker_id results,
                               handed := s.handed ++ results } := by
  have hinv := h.inv
  have hrewritten := rewritten_claim hinv hexec
  have hpersists := hrewritten.persists hinv
  have hinv' : Inv checks db' := by
    rw [← commit_ok hexec]
    exact serve_inv hinv (.claim lease_seconds clock tie worker_id limit)
  refine ⟨hinv', fun w c hc r' hr' hid hw => ?_, fun c hc => ?_, ?_,
    fun x hx => ?_, h.accepted_once⟩
  · by_cases he : w = worker_id
    · subst he
      simp only [Function.update_self] at hc
      exact claimed_attempt hinv hexec hc hr' hid
    · simp only [Function.update_of_ne he] at hc
      exact h.linked w c hc r' (claimed_other hinv hexec hr' he hw) hid hw
  · rcases List.mem_append.mp hc with hc | hc
    · obtain ⟨r, hr, hid, hle⟩ := h.counted c hc
      obtain ⟨r', hr', hid', hle', -⟩ := hpersists r hr
      exact ⟨r', hr', hid'.trans hid, hle.trans hle'⟩
    · obtain ⟨r, hr, -, hid, -⟩ := claimed_task hinv hexec hc
      obtain ⟨r', hr', hid', -⟩ := hpersists r hr
      have hrid := hid'.trans hid.symm
      exact ⟨r', hr', hrid, (claimed_attempt hinv hexec hc hr' hrid).ge⟩
  · rw [List.map_append]
    refine List.nodup_append.mpr ⟨h.handed_once, claimed_nodup hinv hexec, ?_⟩
    -- An old claim of the same row counted a smaller attempt.
    intro k hk k' hk' he
    obtain ⟨c, hc, rfl⟩ := List.mem_map.mp hk
    obtain ⟨c', hc', rfl⟩ := List.mem_map.mp hk'
    obtain ⟨r, hr, hid, hle⟩ := h.counted c hc
    obtain ⟨r', hr', -, hid', -, hattempt⟩ := claimed_task hinv hexec hc'
    have hids : c.task_run_id = c'.task_run_id := congrArg Prod.fst he
    have hattempts : c.attempt = c'.attempt := congrArg Prod.snd he
    rw [s.db.task_runs.eq_of_key hr hr' (hid.trans (hids.trans hid'))] at hle
    omega
  · obtain ⟨r, hr, hid, hs, hout⟩ := h.stored x hx
    obtain ⟨r', hr', -, -, hsame⟩ := hpersists r hr
    have he := hsame (by rw [hs]; rfl)
    rw [he] at hr'
    exact ⟨r, hr', hid, hs, hout⟩

end World.Safe

/-- A report is accepted exactly when its worker still holds the row, and then the
row is at the attempt of the claim. -/
theorem World.Safe.accepted_iff (h : s.Safe checks) {w : String} {c : ClaimedTask}
    (hc : c ∈ s.batch w) :
    (∃ row, s.db.task_runs.get c.task_run_id = some row ∧ row.state = .RUNNING ∧
        row.worker_id = some w) ↔
      ∃ row, s.db.task_runs.get c.task_run_id = some row ∧ row.state = .RUNNING ∧
        row.worker_id = some w ∧ row.attempt = c.attempt := by
  refine exists_congr (fun row => and_congr_right (fun hrow => ?_))
  obtain ⟨hmem, hid⟩ := Table.get_eq_some.mp hrow
  exact ⟨fun ⟨hs, hw⟩ => ⟨hs, hw, h.linked w c hc row hmem hid hw⟩, fun ⟨hs, hw, _⟩ => ⟨hs, hw⟩⟩

/-- An accepted success stores its output. -/
theorem stored_success (hinv : Inv checks db) {report : Report} {output : Option Dict}
    (hresult : report.result = .success output) {row : TaskRun}
    (hrow : db.task_runs.get report.task_run_id = some row) (hrunning : row.state = .RUNNING)
    (hworker : row.worker_id = some report.worker_id) :
    ∃ r ∈ (transact checks db (.complete report)).task_runs.rows, r.id = report.task_run_id ∧
      r.state = .SUCCEEDED ∧ r.output = some (output.getD Dict.empty) := by
  obtain ⟨hmem, hid⟩ := Table.get_eq_some.mp hrow
  have hheld : heldBy report.task_run_id report.worker_id row = true :=
    heldBy_iff.mpr ⟨hid, hworker, hrunning⟩
  obtain ⟨-, -, htransact, -⟩ := exec_complete hinv report
  have hinv' := serve_inv hinv report.op
  have hserve : serve checks (serve checks db report.op) (.refresh report.clock report.run_id) = _ :=
    commit_ok (hinv'.good.exec_refresh_run_state report.clock report.run_id)
  have hop : report.op = .success report.clock report.task_run_id report.worker_id output := by
    unfold Report.op
    rw [hresult]
  rw [htransact, hserve, hop]
  have hstep := (serve_success_held hinv report.clock output hrow hheld).2.rewritten
  refine ⟨_, hstep.mem_rows.mpr ⟨row, hmem, rfl⟩, ?_⟩
  rw [afterSuccess, if_pos rfl]
  exact ⟨hid, rfl, rfl⟩

theorem World.Safe.report (h : s.Safe checks) {worker_id : String} {c : ClaimedTask}
    {rest : List ClaimedTask} (hbatch : s.batch worker_id = c :: rest) (result : Result)
    (clock : Clock) (uniform : ℚ → ℚ) {accepted : Bool}
    (hexec : exec (store checks)
      (complete (walkRounds s.db) (c.report worker_id result clock uniform)) s.db
      = .ok (db', accepted)) :
    World.Safe checks { s with db := db', batch := Function.update s.batch worker_id rest,
                               successes := recordSuccess s.successes c accepted result } := by
  have hinv := h.inv
  obtain ⟨accepted', hcomplete, -, haccepted⟩ :=
    exec_complete hinv (c.report worker_id result clock uniform)
  rw [hexec] at hcomplete
  cases hcomplete
  have hquiet := quiet_complete hinv (c.report worker_id result clock uniform)
  have hrest : ∀ w, ∀ c' ∈ Function.update s.batch worker_id rest w, c' ∈ s.batch w := by
    intro w c' hc'
    by_cases he : w = worker_id
    · subst he
      rw [Function.update_self] at hc'
      rw [hbatch]
      exact List.mem_cons_of_mem _ hc'
    · rwa [Function.update_of_ne he] at hc'
  have hsafe := h.quiet (transact_inv hinv _) hquiet hrest
  cases result with
  | failure error => exact hsafe
  | success output =>
      cases accepted with
      | false => exact hsafe
      | true =>
          obtain ⟨row, hrow, hrunning, hworker⟩ := haccepted.mp rfl
          obtain ⟨hmem, hid⟩ := Table.get_eq_some.mp hrow
          refine ⟨hsafe.inv, hsafe.linked, hsafe.counted, hsafe.handed_once, fun x hx => ?_, ?_⟩
          · rcases List.mem_append.mp hx with hx | hx
            · exact hsafe.stored x hx
            · rw [List.mem_singleton.mp hx]
              exact stored_success hinv rfl hrow hrunning hworker
          · -- A row whose success was accepted before is not running any more.
            show ((s.successes ++ [(c.task_run_id, output)]).map Prod.fst).Nodup
            rw [List.map_append]
            refine List.nodup_append.mpr ⟨h.accepted_once, List.nodup_singleton _, ?_⟩
            intro t ht t' ht' he
            obtain ⟨x, hx, rfl⟩ := List.mem_map.mp ht
            obtain ⟨r, hr, hxid, hs, -⟩ := h.stored x hx
            have ht'' : t' = c.task_run_id := by simpa using ht'
            have hsame := s.db.task_runs.eq_of_key hr hmem
              (hxid.trans (he.trans (ht''.trans hid.symm)))
            rw [hsame, hrunning] at hs
            cases hs

/-- **Every step keeps the workers safe.** -/
theorem act_safe (h : s.Safe checks) (action : Action) : (act checks s action).Safe checks := by
  cases action with
  | other op =>
      unfold act
      dsimp only
      split
      · exact h.quiet (serve_inv h.inv op) (quiet_outside h.inv ‹_›) (fun _ _ hc => hc)
      · exact h
  | claim worker_id lease_seconds clock tie limit =>
      unfold act
      dsimp only
      split
      · exact h.claim ‹_› ‹_›
      · exact h
  | report worker_id result clock uniform =>
      unfold act
      dsimp only
      split
      · exact h
      · split
        · exact h
        · exact h.report ‹_› result clock uniform ‹_›
  | discard worker_id =>
      refine h.quiet h.inv (quiet_refl s.db) (fun w c hc => ?_)
      by_cases he : w = worker_id
      · subst he
        rw [Function.update_self] at hc
        exact List.mem_of_mem_tail hc
      · rwa [Function.update_of_ne he] at hc

theorem World.Initial.safe (h : s.Initial) : s.Safe checks := by
  refine ⟨h.db.inv, fun w c hc => ?_, fun c hc => ?_, ?_, fun x hx => ?_, ?_⟩
  · rw [h.batch w] at hc
    exact absurd hc List.not_mem_nil
  · rw [h.handed] at hc
    exact absurd hc List.not_mem_nil
  · rw [h.handed]
    exact List.nodup_nil
  · rw [h.successes] at hx
    exact absurd hx List.not_mem_nil
  · rw [h.successes]
    exact List.nodup_nil

/-- The worlds that the workers and the other processes reach. -/
def World.Reachable (checks : Bool) : World → Prop :=
  Lts.Reach World.Initial (fun s action s' => act checks s action = s')

theorem World.Reachable.safe (h : s.Reachable checks) : s.Safe checks :=
  Lts.Reach.invariant (fun _ hi => hi.safe)
    (fun _ action _ _ hs hstep => by rw [← hstep]; exact act_safe hs action) h

/-- An accepted success stays on record. -/
theorem successes_act (s : World) (action : Action) {x : UUID × Option Dict}
    (hx : x ∈ s.successes) : x ∈ (act checks s action).successes := by
  cases action with
  | other op =>
      unfold act
      dsimp only
      split <;> exact hx
  | claim =>
      unfold act
      dsimp only
      split <;> exact hx
  | report worker_id result =>
      unfold act
      dsimp only
      split
      · exact hx
      · split
        · exact hx
        · cases result with
          | failure => exact hx
          | success =>
              dsimp only [recordSuccess]
              split
              · exact List.mem_append_left _ hx
              · exact hx
  | discard => exact hx

theorem successes_foldl (actions : List Action) {x : UUID × Option Dict}
    (hx : x ∈ s.successes) : x ∈ (actions.foldl (act checks) s).successes := by
  induction actions generalizing s with
  | nil => exact hx
  | cons action actions ih => exact ih (successes_act s action hx)

/-- **Fencing and at-most-once effect.** In every reachable world no attempt has been
handed out twice; a report about a claimed task is accepted exactly when the row is
running, held by that worker, and at the attempt of the claim; every row has had at
most one accepted success, and from then on, whatever happens, the row holds the
output that this report passed. -/
theorem fenced (h : s.Reachable checks) :
    (s.handed.map ClaimedTask.key).Nodup ∧
    (∀ w, ∀ c ∈ s.batch w, ∀ result clock uniform, ∃ db' accepted,
      exec (store checks)
        (recordResult (walkRounds s.db) (c.report w result clock uniform)) s.db
        = .ok (db', accepted) ∧
      (accepted = true ↔ ∃ row, s.db.task_runs.get c.task_run_id = some row ∧
        row.state = .RUNNING ∧ row.worker_id = some w ∧ row.attempt = c.attempt)) ∧
    (s.successes.map Prod.fst).Nodup ∧
    (∀ x ∈ s.successes, ∀ actions : List Action, ∃ row,
      (actions.foldl (act checks) s).db.task_runs.get x.1 = some row ∧ row.state = .SUCCEEDED ∧
        row.output = some (x.2.getD Dict.empty)) := by
  have hsafe := h.safe
  refine ⟨hsafe.handed_once, fun w c hc result clock uniform => ?_, hsafe.accepted_once,
    fun x hx actions => ?_⟩
  · obtain ⟨accepted, hexec, haccepted⟩ :=
      exec_recordResult hsafe.inv (c.report w result clock uniform)
    exact ⟨_, accepted, hexec, haccepted.trans (hsafe.accepted_iff hc)⟩
  · have hlater : World.Reachable checks (actions.foldl (act checks) s) := Lts.Reach.foldl h actions
    obtain ⟨r, hr, hid, hs, hout⟩ := hlater.safe.stored x (successes_foldl actions hx)
    exact ⟨r, Table.get_eq_some.mpr ⟨hr, hid⟩, hs, hout⟩

/-- Worker `w1` loses its lease to `w2` and reports all the same. -/
def zombieTrace : List Action :=
  (soloStart retryOnce).map .other ++
    [.claim "w1" 30 (clockAt 0) (fun _ => 0) 1, .other (.reap (clockAt 100)),
      .claim "w2" 30 (clockAt 101) (fun _ => 0) 1, .report "w1" (.success none) (clockAt 102) id]

/-- A world in which nothing has happened. -/
def World.empty : World := ⟨Db.empty, fun _ => [], [], []⟩

/-- The late report is refused, and both attempts were handed out once. -/
theorem fenced_zombie :
    let s := zombieTrace.foldl (act true) World.empty
    (s.handed.map ClaimedTask.key).Nodup ∧ s.handed.map ClaimedTask.key = [(12, 1), (12, 2)] ∧
      s.successes.length = 0 ∧ (s.batch "w2").length = 1 :=
  ⟨(fenced (Lts.Reach.foldl (.start ⟨initial_empty, fun _ => rfl, rfl, rfl⟩) zombieTrace)).1,
    by decide +kernel, by decide +kernel, by decide +kernel⟩

end Conductor
