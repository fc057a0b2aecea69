/-
The cached state of a run.

`workflow_runs.state` repeats what `derive_run_state` says of the run's tasks. A
completion and a cancellation refresh it in their own transaction; a claim and a
reap change task states and do not. The cache is then stale exactly when the change
moves the derived state: a claim that starts a run, and a reap that sends back
everything the run had started.
-/
import Conductor.Lifecycle
import Conductor.Requests

set_option autoImplicit false

open Relational Txn

namespace Conductor

open RunRepository TaskQueueRepository WorkflowRepository

variable {checks : Bool} {db db' : Db} {g : TaskRun → TaskRun}

/-- The cached state of the run is its derived state. -/
def Db.FreshAt (db : Db) (run_id : UUID) : Prop :=
  ∀ run ∈ db.workflow_runs.rows, run.id = run_id →
    run.state = derive_run_state (db.taskStates run_id)

instance (db : Db) (run_id : UUID) : Decidable (db.FreshAt run_id) := by
  unfold Db.FreshAt; infer_instance

/-- The two transactions that leave the cached state of a run stale: a claim takes a
task of the run before any has started, or a reap takes back every started task of
it. -/
def Disturbs (checks : Bool) (db : Db) (run_id : UUID) : Request → Prop
  | .op (.claim _ clock tie _ limit) =>
      (checks = true → db.WithinBudget tie clock.utcnow limit) ∧
      (∃ r ∈ db.runTasks run_id, picked tie clock.utcnow limit db r = true) ∧
      ∀ s ∈ db.runTasks run_id, s.state.not_yet_started = true
  | .op (.reap clock) =>
      (∃ r ∈ db.runTasks run_id, leaseExpired clock.utcnow r = true) ∧
      ∀ s ∈ db.runTasks run_id,
        s.state.not_yet_started = true ∨ leaseExpired clock.utcnow s = true
  | _ => False

instance (db : Db) (tie : UUID → ℕ) (now : Time) (limit : ℕ) :
    Decidable (db.WithinBudget tie now limit) := by
  unfold Db.WithinBudget; infer_instance

instance (checks : Bool) (db : Db) (run_id : UUID) (request : Request) :
    Decidable (Disturbs checks db run_id request) := by
  unfold Disturbs; split <;> infer_instance

/-- The transactions that recompute the cached state of a run. -/
def Request.refreshes (run_id : UUID) : Request → Bool
  | .op (.cancel _ cancelled) => cancelled = run_id
  | .complete report => report.run_id = run_id
  | _ => false

/-! ## Transactions that do not refresh -/

/-- Under untouched run rows a fresh entry stays fresh exactly when the derived state
stays. -/
theorem freshAt_iff (hruns : db'.workflow_runs = db.workflow_runs) {run_id : UUID}
    (hfresh : db.FreshAt run_id) :
    db'.FreshAt run_id ↔ ∀ run ∈ db.workflow_runs.rows, run.id = run_id →
      derive_run_state (db'.taskStates run_id) = derive_run_state (db.taskStates run_id) := by
  unfold Db.FreshAt
  rw [hruns]
  refine forall₃_congr (fun run hrun hid => ?_)
  rw [hfresh run hrun hid]
  exact eq_comm

/-- A run with a task row has a run row. -/
theorem Inv.exists_run (hinv : Inv checks db) {run_id : UUID} {r : TaskRun}
    (hr : r ∈ db.runTasks run_id) : ∃ run ∈ db.workflow_runs.rows, run.id = run_id := by
  obtain ⟨hr, hid⟩ := Db.mem_runTasks.mp hr
  obtain ⟨run, hrun, -, -, -, hrid, -⟩ := hinv.defined r hr
  exact ⟨run, hrun, hrid.trans hid⟩

/-- A rewrite that touches no row of a run leaves its task states alone. -/
theorem Rewritten.taskStates_eq (h : Rewritten checks db db' g) {run_id : UUID}
    (hsame : ∀ r ∈ db.runTasks run_id, (g r).state = r.state) :
    db'.taskStates run_id = db.taskStates run_id := by
  unfold Db.taskStates
  rw [h.runTasks, List.map_map]
  exact List.map_congr_left hsame

/-- A claim moves the derived state of a run exactly when it takes the first task
of it. -/
theorem derive_claim_iff {tie : UUID → ℕ} {clock : Clock} {limit : ℕ} {worker_id : String}
    {lease_until : Time}
    (h : Rewritten checks db db' (fun r => if picked tie clock.utcnow limit db r
      then claimed worker_id lease_until clock.now r else r)) (run_id : UUID) :
    derive_run_state (db'.taskStates run_id) = derive_run_state (db.taskStates run_id) ↔
      ¬ ((∃ r ∈ db.runTasks run_id, picked tie clock.utcnow limit db r = true) ∧
        ∀ s ∈ db.runTasks run_id, s.state.not_yet_started = true) := by
  by_cases hpicks : ∃ r ∈ db.runTasks run_id, picked tie clock.utcnow limit db r = true
  -- With a claimed row the run is `RUNNING` afterwards; before, it was unless nothing had started.
  · obtain ⟨r, hr, hpicked⟩ := hpicks
    have hready := picked_state (Db.mem_runTasks.mp hr).1 hpicked
    have hrunning : derive_run_state (db'.taskStates run_id) = .RUNNING := by
      have hmem : TaskState.RUNNING ∈ db'.taskStates run_id :=
        h.mem_taskStates.mpr ⟨r, hr, by rw [if_pos hpicked]; rfl⟩
      exact derive_eq_running.mpr ⟨⟨_, hmem, rfl⟩, ⟨_, hmem, rfl⟩⟩
    rw [hrunning]
    by_cases hall : ∀ s ∈ db.runTasks run_id, s.state.not_yet_started = true
    · have hpending : derive_run_state (db.taskStates run_id) = .PENDING := by
        refine derive_eq_pending.mpr (fun s hs => ?_)
        obtain ⟨t, ht, rfl⟩ := List.mem_map.mp hs
        exact hall t ht
      rw [hpending]
      exact iff_of_false (by simp) (not_not.mpr ⟨⟨r, hr, hpicked⟩, hall⟩)
    · refine iff_of_true ?_ (fun hd => hall hd.2)
      push Not at hall
      obtain ⟨s, hs, hstarted⟩ := hall
      refine (derive_eq_running.mpr ⟨⟨s.state, List.mem_map_of_mem hs, by simpa using hstarted⟩,
        ⟨r.state, List.mem_map_of_mem hr, ?_⟩⟩).symm
      rw [hready]
      rfl
  · refine iff_of_true ?_ (fun hd => hpicks hd.1)
    rw [h.taskStates_eq (fun r hr => ?_)]
    rw [if_neg (fun hp => hpicks ⟨r, hr, hp⟩)]

/-- A reap moves the derived state of a run exactly when it takes back everything
the run had started. -/
theorem derive_reap_iff {clock : Clock}
    (h : Rewritten checks db db' (fun r => if leaseExpired clock.utcnow r then reaped r else r))
    (run_id : UUID) :
    derive_run_state (db'.taskStates run_id) = derive_run_state (db.taskStates run_id) ↔
      ¬ ((∃ r ∈ db.runTasks run_id, leaseExpired clock.utcnow r = true) ∧
        ∀ s ∈ db.runTasks run_id,
          s.state.not_yet_started = true ∨ leaseExpired clock.utcnow s = true) := by
  by_cases hexpires : ∃ r ∈ db.runTasks run_id, leaseExpired clock.utcnow r = true
  -- With a running row the run is `RUNNING` before; afterwards it is if something started is left.
  · obtain ⟨r, hr, hexpired⟩ := hexpires
    have hstate := leaseExpired_state hexpired
    have hbefore : derive_run_state (db.taskStates run_id) = .RUNNING := by
      have hmem : TaskState.RUNNING ∈ db.taskStates run_id := hstate ▸ List.mem_map_of_mem hr
      exact derive_eq_running.mpr ⟨⟨_, hmem, rfl⟩, ⟨_, hmem, rfl⟩⟩
    rw [hbefore]
    by_cases hall : ∀ s ∈ db.runTasks run_id,
        s.state.not_yet_started = true ∨ leaseExpired clock.utcnow s = true
    · have hpending : derive_run_state (db'.taskStates run_id) = .PENDING := by
        refine derive_eq_pending.mpr (fun s hs => ?_)
        obtain ⟨t, ht, rfl⟩ := h.mem_taskStates.mp hs
        split
        · rfl
        · exact (hall t ht).resolve_right ‹_›
      rw [hpending]
      exact iff_of_false (by simp) (not_not.mpr ⟨⟨r, hr, hexpired⟩, hall⟩)
    · refine iff_of_true ?_ (fun hd => hall hd.2)
      push Not at hall
      obtain ⟨s, hs, hstarted, hkept⟩ := hall
      refine derive_eq_running.mpr ⟨⟨s.state, h.mem_taskStates.mpr ⟨s, hs, ?_⟩, by simpa using hstarted⟩,
        ⟨.READY, h.mem_taskStates.mpr ⟨r, hr, ?_⟩, rfl⟩⟩
      · rw [if_neg hkept]
      · rw [if_pos hexpired]
        rfl
  · refine iff_of_true ?_ (fun hd => hexpires hd.1)
    rw [h.taskStates_eq (fun r hr => ?_)]
    rw [if_neg (fun hp => hexpires ⟨r, hr, hp⟩)]

/-! ## Transactions that refresh -/

/-- A refresh makes its run's entry fresh, and leaves the others'. -/
theorem freshAt_refresh {now : Time} {run_id run_id' : UUID}
    (hother : run_id' ≠ run_id → db.FreshAt run_id') :
    Db.FreshAt { db with
      workflow_runs := db.workflow_runs.update (fun run => run.id = run_id)
        (refreshed now (derive_run_state (db.taskStates run_id)))
        (refreshed_id now (derive_run_state (db.taskStates run_id))) } run_id' := by
  intro run' hrun' hid'
  obtain ⟨run, hrun, rfl⟩ := List.mem_map.mp hrun'
  by_cases hid : run.id = run_id
  · simp only [hid, decide_true, if_true] at hid' ⊢
    rw [← hid', refreshed_id, hid]
    rfl
  · simp only [hid, decide_false, Bool.false_eq_true, if_false] at hid' ⊢
    exact hother (fun he => hid (hid'.trans he)) run hrun hid'

/-- A report touches rows of its own run only. -/
theorem Outcome.other_runs {report : Report} (hout : Outcome checks db report.op g)
    {row : TaskRun} (hrow : row ∈ db.task_runs.rows) (hid : row.id = report.task_run_id)
    {r : TaskRun} (hr : r ∈ db.task_runs.rows) (hne : r.run_id ≠ row.run_id) : g r = r := by
  -- The row the operation looks up is `row`.
  have hget : ∀ {row' : TaskRun}, db.task_runs.get report.task_run_id = some row' → row' = row := by
    intro row' h
    obtain ⟨hmem, hkey⟩ := Table.get_eq_some.mp h
    exact db.task_runs.eq_of_key hmem hrow (hkey.trans hid.symm)
  have hne_id : r.id ≠ row.id := fun h =>
    hne (congrArg TaskRun.run_id (db.task_runs.eq_of_key hr hrow h))
  unfold Report.op at hout
  cases hresult : report.result with
  | success output =>
      simp only [hresult] at hout
      cases hout with
      | succeeded _ _ _ _ hrow' =>
          rw [hget hrow', afterSuccess, if_neg hne_id, afterUnblock, if_neg]
          intro hw
          exact hne (waitingChild_iff.mp hw).1
      | lateSuccess => rfl
  | failure error =>
      simp only [hresult] at hout
      cases hout with
      | retried =>
          refine if_neg (fun howned => ?_)
          exact hne_id ((ownedBy_iff.mp howned).1.trans hid.symm)
      | failed _ _ _ _ _ tasks hrow' =>
          rw [hget hrow', afterFailure, if_neg hne_id, if_neg]
          intro hb
          exact hne (blockable_iff.mp hb).1
      | lateFailure => rfl

/-- A report leaves the run rows alone. -/
theorem runs_report (hinv : Inv checks db) (report : Report) :
    (serve checks db report.op).workflow_runs = db.workflow_runs := by
  obtain ⟨accepted, hexec, -⟩ := exec_recordResult hinv report
  refine runs_of_writes (P := fun _ => True) ?_ hexec
  unfold recordResult recordResult_with
  split
  · exact writes_any (writes_record_success _ _ _ _)
  · exact (writes_record_failure _ _ _ _ _ _).bind (fun _ => .ret _)

/-- After a completion the entry of its run is fresh, and the entries of other runs
are if they were. -/
theorem freshAt_complete (hinv : Inv checks db) {report : Report}
    (hsound : (Request.complete report).Sound db) {run_id : UUID}
    (hother : run_id ≠ report.run_id → db.FreshAt run_id) :
    (transact checks db (.complete report)).FreshAt run_id := by
  obtain ⟨row, hrow, hid, hrun⟩ := hsound
  obtain ⟨-, -, htransact, -⟩ := exec_complete hinv report
  obtain ⟨g, hout, hstep⟩ := serve_outcome hinv report.op_isQueue
  have hinv' := serve_inv hinv report.op
  have hserve : serve checks (serve checks db report.op) (.refresh report.clock report.run_id) = _ :=
    commit_ok (hinv'.good.exec_refresh_run_state report.clock report.run_id)
  rw [htransact, hserve]
  refine freshAt_refresh (fun hne => ?_)
  refine (freshAt_iff (runs_report hinv report) (hother hne)).mpr (fun run _ _ => ?_)
  rw [hstep.rewritten.taskStates_eq (fun r hr => ?_)]
  obtain ⟨hr, hrid⟩ := Db.mem_runTasks.mp hr
  rw [hout.other_runs hrow hid hr]
  rw [hrid, hrun]
  exact hne

/-- The same for a cancellation. -/
theorem freshAt_cancel (hinv : Inv checks db) (clock : Clock) {cancelled run_id : UUID}
    (hother : run_id ≠ cancelled → db.FreshAt run_id) :
    (serve checks db (.cancel clock cancelled)).FreshAt run_id := by
  have hserve : serve checks db (.cancel clock cancelled) = _ :=
    commit_ok (exec_cancel hinv.good clock cancelled)
  have hsame : run_id ≠ cancelled →
      (serve checks db (.cancel clock cancelled)).taskStates run_id = db.taskStates run_id := by
    intro hne
    refine (serve_cancel hinv clock cancelled).rewritten.taskStates_eq (fun r hr => ?_)
    have hnot : ¬ cancellable cancelled r = true := fun hp =>
      hne ((Db.mem_runTasks.mp hr).2.symm.trans (cancellable_iff.mp hp).1)
    rw [if_neg hnot]
  rw [hserve] at hsame ⊢
  refine freshAt_refresh (fun hne run hrun hid => ?_)
  rw [hother hne run hrun hid]
  exact congrArg derive_run_state (hsame hne).symm

/-! ## Submissions -/

section Submission

variable {ids : RunIds} {clock : Clock} {workflow : Workflow} {run : WorkflowRun}
  {rows : List TaskRun}

/-- No row belongs to a run that is only now created. -/
theorem CreatedRun.foreign (hinv : Inv checks db)
    (h : CreatedRun ids clock workflow (dependencies db workflow.id) db db' run rows) :
    ∀ r ∈ db.task_runs.rows, r.run_id ≠ run.id := by
  intro r hr he
  obtain ⟨other, hother, -, -, -, hid, -⟩ := hinv.defined r hr
  exact h.new_run other hother (hid.trans he)

/-- The rows of a new run have not started. -/
theorem CreatedRun.unstarted (hinv : Inv checks db)
    (h : CreatedRun ids clock workflow (dependencies db workflow.id) db db' run rows) :
    ∀ r ∈ rows, r.run_id = run.id ∧ r.state.not_yet_started = true := by
  intro r hr
  obtain ⟨task, -, -, policy, -, rfl⟩ := h.mem_rows hinv.definitions hr
  refine ⟨h.run_id.symm, ?_⟩
  simp only [newTaskRun]
  split <;> rfl

/-- The tasks of the other runs are as they were. -/
theorem CreatedRun.taskStates_old (hinv : Inv checks db)
    (h : CreatedRun ids clock workflow (dependencies db workflow.id) db db' run rows)
    {run_id : UUID} (hne : run_id ≠ run.id) : db'.taskStates run_id = db.taskStates run_id := by
  have hnil : rows.filter (fun r => r.run_id = run_id) = [] := by
    refine List.filter_eq_nil_iff.mpr (fun r hr => ?_)
    simp only [(h.unstarted hinv r hr).1, decide_eq_true_eq]
    exact fun he => hne he.symm
  unfold Db.taskStates Db.runTasks
  rw [h.task_runs', List.filter_append, hnil, List.append_nil]

/-- No task of the new run has started. -/
theorem CreatedRun.taskStates_new (hinv : Inv checks db)
    (h : CreatedRun ids clock workflow (dependencies db workflow.id) db db' run rows) :
    ∀ s ∈ db'.taskStates run.id, s.not_yet_started = true := by
  intro s hs
  obtain ⟨r, hr, rfl⟩ := List.mem_map.mp hs
  obtain ⟨hr, hid⟩ := Db.mem_runTasks.mp hr
  rw [h.task_runs', List.mem_append] at hr
  rcases hr with hr | hr
  · exact absurd hid (h.foreign hinv r hr)
  · exact (h.unstarted hinv r hr).2

end Submission

/-- A new run enters with the derived state of its rows. -/
theorem freshAt_submit (hinv : Inv checks db) {run_id : UUID} (hfresh : db.FreshAt run_id)
    (ids : RunIds) (clock : Clock) (workflow_id : UUID) (trigger_payload : Option Dict) :
    (serve checks db (.submit ids clock workflow_id trigger_payload)).FreshAt run_id := by
  rcases serve_submit checks db ids clock workflow_id trigger_payload with
    hsame | ⟨workflow, -, new, rows, hcreated⟩
  · rw [hsame]
    exact hfresh
  · intro run hrun hid
    rw [hcreated.runs', List.mem_append, List.mem_singleton] at hrun
    rcases hrun with hrun | rfl
    · rw [hfresh run hrun hid, hcreated.taskStates_old hinv]
      exact fun he => hcreated.new_run run hrun (hid.trans he)
    · rw [hcreated.pending.1, eq_comm, derive_eq_pending, ← hid]
      exact hcreated.taskStates_new hinv

theorem freshAt_publish {run_id : UUID} (hfresh : db.FreshAt run_id) (ids : WorkflowIds)
    (now : Time) (name : String) (specs : List TaskSpec) (description : Option String) :
    (serve checks db (.publish ids now name specs description)).FreshAt run_id := by
  obtain ⟨_, _, _, hserve⟩ := serve_publish_frame checks db ids now name specs description
  rw [hserve]
  exact hfresh

/-! ## Whole runs -/

theorem freshAt_serve_iff (hinv : Inv checks db) {run_id : UUID} (hfresh : db.FreshAt run_id)
    {op : Op} (halone : op.alone = true) :
    (serve checks db op).FreshAt run_id ↔ ¬ Disturbs checks db run_id (.op op) := by
  cases op with
  | publish ids now name specs description =>
      exact iff_of_true (freshAt_publish hfresh ids now name specs description) id
  | submit ids clock workflow_id trigger_payload =>
      exact iff_of_true (freshAt_submit hinv hfresh ids clock workflow_id trigger_payload) id
  | cancel clock cancelled => exact iff_of_true (freshAt_cancel hinv clock (fun _ => hfresh)) id
  | success => cases halone
  | failure => cases halone
  | refresh => cases halone
  -- The rest writes no run, so what counts is whether the derived state stays.
  | renew lease_seconds clock task_run_id worker_id =>
      have hstep := (serve_renew hinv lease_seconds clock task_run_id worker_id).rewritten
      have hruns : (serve checks db (.renew lease_seconds clock task_run_id worker_id)).workflow_runs
          = db.workflow_runs := runs_of_commit (writes_renew_lease _ _ _ _) db
      refine iff_of_true ((freshAt_iff hruns hfresh).mpr (fun run _ _ => ?_)) id
      rw [hstep.taskStates_eq (fun r _ => ?_)]
      split <;> rfl
  | claim lease_seconds clock tie worker_id limit =>
      by_cases hbudget : checks = true → db.WithinBudget tie clock.utcnow limit
      · obtain ⟨results, hexec, -, hstep⟩ :=
          serve_claim hinv lease_seconds clock tie worker_id limit hbudget
        rw [freshAt_iff (runs_of_writes (writes_claim_batch _ _ _ _ _) hexec) hfresh,
          derive_claim_iff hstep.rewritten run_id]
        constructor
        · rintro hsame ⟨-, ⟨r, hr, hpicked⟩, hall⟩
          obtain ⟨run, hrun, hid⟩ := hinv.exists_run hr
          exact hsame run hrun hid ⟨⟨r, hr, hpicked⟩, hall⟩
        · exact fun hnot run _ _ hd => hnot ⟨hbudget, hd⟩
      · rw [(serve_claim_refused hinv lease_seconds clock tie worker_id limit hbudget).2]
        exact iff_of_true hfresh (fun hd => hbudget hd.1)
  | reap clock =>
      have hruns : (serve checks db (.reap clock)).workflow_runs = db.workflow_runs :=
        runs_of_commit (writes_reap_expired_leases clock) db
      rw [freshAt_iff hruns hfresh, derive_reap_iff (serve_reap hinv clock).rewritten run_id]
      constructor
      · rintro hsame ⟨⟨r, hr, hexpired⟩, hall⟩
        obtain ⟨run, hrun, hid⟩ := hinv.exists_run hr
        exact hsame run hrun hid ⟨⟨r, hr, hexpired⟩, hall⟩
      · exact fun hnot run _ _ hd => hnot hd

/-- **From a fresh entry, a transaction leaves it fresh exactly when it does not
disturb the run.** -/
theorem freshAt_transact_iff (hinv : Inv checks db) {run_id : UUID} (hfresh : db.FreshAt run_id)
    {request : Request} (hsound : request.Sound db) :
    (transact checks db request).FreshAt run_id ↔ ¬ Disturbs checks db run_id request := by
  cases request with
  | op op => exact freshAt_serve_iff hinv hfresh hsound
  | complete report => exact iff_of_true (freshAt_complete hinv hsound (fun _ => hfresh)) id

/-- A transaction that refreshes the run leaves its entry fresh whatever it was. -/
theorem freshAt_of_refreshes (hinv : Inv checks db) {run_id : UUID} {request : Request}
    (hsound : request.Sound db) (hrefreshes : request.refreshes run_id = true) :
    (transact checks db request).FreshAt run_id := by
  unfold Request.refreshes at hrefreshes
  split at hrefreshes
  · have he := of_decide_eq_true hrefreshes
    exact freshAt_cancel hinv _ (fun hne => absurd he.symm hne)
  · have he := of_decide_eq_true hrefreshes
    exact freshAt_complete hinv hsound (fun hne => absurd he.symm hne)
  · cases hrefreshes

/-- **The cached run state, and exactly when it goes stale.** In every system state,
for every run:

* a completion of one of its tasks and a cancellation leave its entry fresh;
* from a fresh entry (a run that does not exist yet has one), the entry stays fresh
  along all transactions that do not disturb the run: no claim that starts it, no
  reap that takes back everything it had started;
* from a fresh entry, a transaction that disturbs the run leaves it stale. -/
theorem run_state_fresh (h : Requested checks (fun _ _ => True) db) (run_id : UUID) :
    (∀ request, request.Sound db → request.refreshes run_id = true →
      (transact checks db request).FreshAt run_id) ∧
    (db.FreshAt run_id → ∀ db', Lts.ReachVia (· = db)
      (fun db request db' => transact checks db request = db')
      (fun db request => request.Sound db ∧ ¬ Disturbs checks db run_id request) db' →
      db'.FreshAt run_id) ∧
    (db.FreshAt run_id → ∀ request, request.Sound db →
      ((transact checks db request).FreshAt run_id ↔ ¬ Disturbs checks db run_id request)) := by
  have hinv := h.inv
  refine ⟨fun request hsound hrefreshes => freshAt_of_refreshes hinv hsound hrefreshes,
    fun hfresh db' hrun => ?_, fun hfresh request hsound => freshAt_transact_iff hinv hfresh hsound⟩
  have hboth : Inv checks db' ∧ db'.FreshAt run_id := by
    refine Lts.ReachVia.invariant (P := fun s => Inv checks s ∧ s.FreshAt run_id)
      (fun s hs => ?_) (fun s request s' _ hs hc hstep => ?_) hrun
    · rw [hs]
      exact ⟨hinv, hfresh⟩
    · rw [← hstep]
      exact ⟨transact_inv hs.1 request, (freshAt_transact_iff hs.1 hs.2 hc.1).mpr hc.2⟩
  exact hboth.2

/-- A workflow of one task, its run, and a claim. -/
def firstClaim : List Request := (soloStart noRetry ++ [claimAt 0 "w1"]).map .op

/-- A run whose first task is being executed is still recorded as `PENDING`. -/
theorem claim_leaves_run_pending :
    Requested true (fun _ _ => True) (transacted true firstClaim) ∧
    (transacted true firstClaim).workflow_runs.rows.map WorkflowRun.state = [.PENDING] ∧
    derive_run_state ((transacted true firstClaim).taskStates 10) = .RUNNING ∧
    ¬ (transacted true firstClaim).FreshAt 10 := by
  refine ⟨Lts.ReachVia.foldl (.start initial_empty) (by decide +kernel), ?_, ?_, ?_⟩ <;>
    decide +kernel

/-- The completion of that task puts it right. -/
theorem run_state_fresh_completed :
    (transact true (transacted true firstClaim)
      (.complete ⟨12, 10, "w1", .success none, clockAt 1, fun x => x⟩)).FreshAt 10 ∧
    ((transact true (transacted true ((soloStart noRetry).map .op)) (.op (claimAt 0 "w1"))).FreshAt 10
      ↔ ¬ Disturbs true (transacted true ((soloStart noRetry).map .op)) 10
        (.op (claimAt 0 "w1"))) := by
  have hclaimed : Requested true (fun _ _ => True) (transacted true firstClaim) :=
    Lts.ReachVia.foldl (.start initial_empty) (by decide +kernel)
  have hstarted : Requested true (fun _ _ => True) (transacted true ((soloStart noRetry).map .op)) :=
    Lts.ReachVia.foldl (.start initial_empty) (by decide +kernel)
  exact ⟨(run_state_fresh hclaimed 10).1 _ (by decide +kernel) rfl,
    (run_state_fresh hstarted 10).2.2 (by decide +kernel) _ rfl⟩

end Conductor
