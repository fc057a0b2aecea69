/-
Finished runs.

`refresh_run_state` reads the states of the run's tasks and writes what it derives
from them into the run row, in the transaction that changed a task. When nobody
else is at work that is right, and a run whose tasks are all terminal is recorded
as finished. Under READ COMMITTED the reading can be out of date when the
transaction commits: two workers that complete the last two tasks of a run at the
same time each see the other's task `RUNNING`, both write `RUNNING`, and nothing
refreshes the run again.

The condition that excludes this is about the last word on a run: whoever commits a
refresh of a run whose tasks are all terminal has read those states.
-/
import Conductor.Freshness
import Conductor.Interleaving

set_option autoImplicit false

open Relational Txn

namespace Conductor

open RunRepository TaskQueueRepository WorkflowRepository

variable {checks : Bool} {db db' : Db}

/-- If every task of the run is terminal, the run is recorded as finished with the
derived state. -/
def Db.SettledAt (db : Db) (run_id : UUID) : Prop :=
  (∀ s ∈ db.taskStates run_id, s.is_terminal = true) →
    ∀ run ∈ db.workflow_runs.rows, run.id = run_id →
      run.state = derive_run_state (db.taskStates run_id) ∧ run.state.is_terminal = true ∧
        run.finished_at.isSome = true

/-! ## One transaction at a time -/

/-- A run row just refreshed. -/
theorem settledAt_of_refreshed {run_id : UUID} {now : Time} {run : WorkflowRun}
    (hne : db.taskStates run_id ≠ []) (hall : ∀ s ∈ db.taskStates run_id, s.is_terminal = true)
    {run' : WorkflowRun} (he : refreshed now (derive_run_state (db.taskStates run_id)) run = run') :
    run'.state = derive_run_state (db.taskStates run_id) ∧ run'.state.is_terminal = true ∧
      run'.finished_at.isSome = true := by
  have hterminal := derive_is_terminal.mpr ⟨hne, hall⟩
  rw [← he]
  exact ⟨rfl, hterminal, refreshed_finished _ _ run hterminal⟩

/-- What the entry of a run depends on. -/
theorem SettledAt.congr {run_id : UUID} (h : db.SettledAt run_id)
    (hstates : db'.taskStates run_id = db.taskStates run_id)
    (hruns : ∀ run ∈ db'.workflow_runs.rows, run.id = run_id → run ∈ db.workflow_runs.rows) :
    db'.SettledAt run_id := by
  unfold Db.SettledAt
  rw [hstates]
  exact fun hall run hrun hid => h hall run (hruns run hrun hid) hid

/-- A run has a task. -/
theorem Inv.taskStates_ne_nil (hinv : Inv checks db) {run : WorkflowRun}
    (hrun : run ∈ db.workflow_runs.rows) : db.taskStates run.id ≠ [] := by
  obtain ⟨-, r, hr, hid⟩ := hinv.materialised run hrun
  exact List.ne_nil_of_mem (List.mem_map_of_mem (Db.mem_runTasks.mpr ⟨hr, hid⟩))

/-- A refresh leaves its run settled, and the others as they were. -/
theorem settledAt_refresh (hne : ∀ run ∈ db.workflow_runs.rows, db.taskStates run.id ≠ [])
    {now : Time} {run_id run_id' : UUID} (hother : run_id' ≠ run_id → db.SettledAt run_id') :
    Db.SettledAt { db with
      workflow_runs := db.workflow_runs.update (fun run => run.id = run_id)
        (refreshed now (derive_run_state (db.taskStates run_id)))
        (refreshed_id now (derive_run_state (db.taskStates run_id))) } run_id' := by
  by_cases he : run_id' = run_id
  · subst he
    intro hall run' hrun' hid'
    obtain ⟨run, hrun, rfl⟩ := List.mem_map.mp hrun'
    by_cases hid : run.id = run_id'
    · have hmoved : refreshed now (derive_run_state (db.taskStates run_id')) run =
          (if decide (run.id = run_id') then
            refreshed now (derive_run_state (db.taskStates run_id')) run else run) := by
        simp [hid]
      exact settledAt_of_refreshed (hid ▸ hne run hrun) hall hmoved
    · simp only [hid, decide_false, Bool.false_eq_true, if_false] at hid'
  · refine SettledAt.congr (hother he) rfl (fun run' hrun' hid' => ?_)
    obtain ⟨run, hrun, rfl⟩ := List.mem_map.mp hrun'
    by_cases hid : run.id = run_id
    · simp only [hid, decide_true, if_true, refreshed_id] at hid'
      exact absurd hid'.symm he
    · simpa only [hid, decide_false, Bool.false_eq_true, if_false] using hrun

theorem settledAt_complete (hinv : Inv checks db) {report : Report}
    (hsound : (Request.complete report).Sound db) {run_id : UUID} (h : db.SettledAt run_id) :
    (transact checks db (.complete report)).SettledAt run_id := by
  obtain ⟨row, hrow, hid, hrun⟩ := hsound
  obtain ⟨-, -, htransact, -⟩ := exec_complete hinv report
  obtain ⟨g, hout, hstep⟩ := serve_outcome hinv report.op_isQueue
  have hinv' := serve_inv hinv report.op
  have hserve : serve checks (serve checks db report.op) (.refresh report.clock report.run_id) = _ :=
    commit_ok (hinv'.good.exec_refresh_run_state report.clock report.run_id)
  rw [htransact, hserve]
  refine settledAt_refresh (fun run => hinv'.taskStates_ne_nil) (fun hne => SettledAt.congr h ?_ ?_)
  · refine hstep.rewritten.taskStates_eq (fun r hr => ?_)
    obtain ⟨hr, hrid⟩ := Db.mem_runTasks.mp hr
    rw [hout.other_runs hrow hid hr]
    rw [hrid, hrun]
    exact hne
  · intro run hrun _
    rw [← runs_report hinv report]
    exact hrun

theorem settledAt_cancel (hinv : Inv checks db) (clock : Clock) (cancelled : UUID) {run_id : UUID}
    (h : db.SettledAt run_id) : (serve checks db (.cancel clock cancelled)).SettledAt run_id := by
  have hserve : serve checks db (.cancel clock cancelled) = _ :=
    commit_ok (exec_cancel hinv.good clock cancelled)
  have hrows := (serve_cancel hinv clock cancelled).rewritten
  have hsame : run_id ≠ cancelled →
      (serve checks db (.cancel clock cancelled)).taskStates run_id = db.taskStates run_id := by
    intro hne
    refine hrows.taskStates_eq (fun r hr => ?_)
    have hnot : ¬ cancellable cancelled r = true := fun hp =>
      hne ((Db.mem_runTasks.mp hr).2.symm.trans (cancellable_iff.mp hp).1)
    rw [if_neg hnot]
  have hne : ∀ run ∈ db.workflow_runs.rows,
      (serve checks db (.cancel clock cancelled)).taskStates run.id ≠ [] := by
    intro run hrun
    unfold Db.taskStates
    rw [hrows.runTasks]
    simpa [Db.taskStates] using hinv.taskStates_ne_nil hrun
  rw [hserve] at hsame hne ⊢
  exact settledAt_refresh hne (fun hother => SettledAt.congr h (hsame hother) (fun _ hrun _ => hrun))

/-- A rewrite that leaves no task of the run terminal that was not. -/
theorem Rewritten.settledAt {g : TaskRun → TaskRun} (h : Rewritten checks db db' g)
    (hruns : db'.workflow_runs = db.workflow_runs)
    (hlive : ∀ r ∈ db.task_runs.rows, (g r).state.is_terminal = true → (g r).state = r.state)
    {run_id : UUID} (hsettled : db.SettledAt run_id) : db'.SettledAt run_id := by
  intro hall
  refine SettledAt.congr hsettled (h.taskStates_eq (fun r hr => ?_))
    (fun run hrun _ => hruns ▸ hrun) hall
  exact hlive r (Db.mem_runTasks.mp hr).1 (hall _ (h.mem_taskStates.mpr ⟨r, hr, rfl⟩))

theorem settledAt_submit (hinv : Inv checks db) {run_id : UUID} (h : db.SettledAt run_id)
    (ids : RunIds) (clock : Clock) (workflow_id : UUID) (trigger_payload : Option Dict) :
    (serve checks db (.submit ids clock workflow_id trigger_payload)).SettledAt run_id := by
  have hinv' := serve_inv hinv (.submit ids clock workflow_id trigger_payload)
  rcases serve_submit checks db ids clock workflow_id trigger_payload with
    hsame | ⟨workflow, -, new, rows, hcreated⟩
  · rw [hsame]
    exact h
  · intro hall run hrun hid
    have hmem := hrun
    rw [hcreated.runs', List.mem_append, List.mem_singleton] at hrun
    rcases hrun with hrun | rfl
    · have hne : run_id ≠ new.id := fun he => hcreated.new_run run hrun (hid.trans he)
      rw [hcreated.taskStates_old hinv hne] at hall ⊢
      exact h hall run hrun hid
    · -- The new run has a task, and none of its tasks is terminal.
      obtain ⟨s, hs⟩ := List.exists_mem_of_ne_nil _ (hinv'.taskStates_ne_nil hmem)
      have hactive := TaskState.active_of_not_yet_started (hcreated.taskStates_new hinv s hs)
      rw [TaskState.is_active_eq, hall s (hid ▸ hs)] at hactive
      cases hactive

theorem settledAt_publish {run_id : UUID} (h : db.SettledAt run_id) (ids : WorkflowIds)
    (now : Time) (name : String) (specs : List TaskSpec) (description : Option String) :
    (serve checks db (.publish ids now name specs description)).SettledAt run_id := by
  obtain ⟨_, _, _, hserve⟩ := serve_publish_frame checks db ids now name specs description
  rw [hserve]
  exact h

/-- One transaction leaves finished runs settled. -/
theorem settledAt_transact (hinv : Inv checks db) {request : Request} (hsound : request.Sound db)
    {run_id : UUID} (h : db.SettledAt run_id) : (transact checks db request).SettledAt run_id := by
  cases request with
  | complete report => exact settledAt_complete hinv hsound h
  | op op =>
      cases op with
      | publish ids now name specs description =>
          exact settledAt_publish h ids now name specs description
      | submit ids clock workflow_id trigger_payload =>
          exact settledAt_submit hinv h ids clock workflow_id trigger_payload
      | cancel clock cancelled => exact settledAt_cancel hinv clock cancelled h
      | success => cases hsound
      | failure => cases hsound
      | refresh => cases hsound
      -- The rest writes no run and makes no row terminal.
      | renew lease_seconds clock task_run_id worker_id =>
          refine (serve_renew hinv lease_seconds clock task_run_id worker_id).rewritten.settledAt
            (runs_of_commit (writes_renew_lease _ _ _ _) db) (fun r _ _ => ?_) h
          split <;> rfl
      | claim lease_seconds clock tie worker_id limit =>
          by_cases hbudget : checks = true → db.WithinBudget tie clock.utcnow limit
          · obtain ⟨results, hexec, -, hstep⟩ :=
              serve_claim hinv lease_seconds clock tie worker_id limit hbudget
            refine hstep.rewritten.settledAt (runs_of_writes (writes_claim_batch _ _ _ _ _) hexec)
              (fun r _ ht => ?_) h
            split at ht
            · cases ht
            · rw [if_neg ‹_›]
          · rw [transact, (serve_claim_refused hinv lease_seconds clock tie worker_id limit hbudget).2]
            exact h
      | reap clock =>
          refine (serve_reap hinv clock).rewritten.settledAt
            (runs_of_commit (writes_reap_expired_leases clock) db) (fun r _ ht => ?_) h
          split at ht
          · cases ht
          · rw [if_neg ‹_›]

/-- One transaction at a time, no finished run is left looking unfinished. -/
theorem Requested.settled {C : Db → Request → Prop} (h : Requested checks C db) (run_id : UUID) :
    db.SettledAt run_id := by
  have hboth : Inv checks db ∧ db.SettledAt run_id := by
    refine Lts.ReachVia.invariant (P := fun db => Inv checks db ∧ db.SettledAt run_id)
      (fun db hinit => ⟨hinit.inv, fun _ run hrun => ?_⟩)
      (fun db request db' _ hs hc hstep => ?_) h
    · rw [hinit.no_runs] at hrun
      cases hrun
    · rw [← hstep]
      exact ⟨transact_inv hs.1 request, settledAt_transact hs.1 hc.1 hs.2⟩
  exact hboth.2

/-! ## Any interleaving -/

/-- At the commit of a session that has refreshed a run: if the commit leaves every
task of the run terminal, the session's refresh has read just these states. -/
def RunUnchanged (call : Call) (db own : Db) (trace : List (Event Db)) : Prop :=
  match call.refreshes, lastSeen trace with
  | some run_id, some seen =>
      (∀ s ∈ (own.overlay db).taskStates run_id, s.is_terminal = true) →
        seen.taskStates run_id = (own.overlay db).taskStates run_id
  | _, _ => True

instance (call : Call) (db own : Db) (trace : List (Event Db)) :
    Decidable (RunUnchanged call db own trace) := by
  unfold RunUnchanged
  split <;> infer_instance

variable {db₀ own : Db} {trace : List (Event Db)} {call : Call} {a : Bool} {K : Prop} {run_id : UUID}

/-- In every database that evolves from one of the service, a run has a task. -/
theorem Evolves.taskStates_ne_nil (h : Evolves db₀ db) (hinv : Inv checks db₀)
    {run : WorkflowRun} (hrun : run ∈ db.workflow_runs.rows) : db.taskStates run.id ≠ [] := by
  obtain ⟨run₀, hrun₀, hid⟩ := h.run_before hrun
  obtain ⟨-, r₀, hr₀, hrun_id⟩ := hinv.materialised run₀ hrun₀
  obtain ⟨r, hr, hsteps⟩ := h.row_after hr₀
  have hkeep := (RowStep.keeps_of_steps hsteps).2.1
  exact List.ne_nil_of_mem (List.mem_map_of_mem
    (Db.mem_runTasks.mpr ⟨hr, hkeep.trans (hrun_id.trans hid)⟩))

/-- The tasks of a run are as they were when each of its rows still has its state. -/
theorem Evolves.taskStates_eq (h : Evolves db db')
    (hsame : ∀ r ∈ db.runTasks run_id, ∀ r' ∈ db'.runTasks run_id, RowSteps r r' →
      r'.state = r.state) : db'.taskStates run_id = db.taskStates run_id := by
  obtain ⟨g, hrows, hsteps⟩ := h.rows
  have hruntasks : db'.runTasks run_id = (db.runTasks run_id).map g := by
    unfold Db.runTasks
    rw [hrows, List.filter_map]
    congr 1
    refine List.filter_congr (fun r hr => ?_)
    simp only [Function.comp_apply, (RowStep.keeps_of_steps (hsteps r hr)).2.1]
  unfold Db.taskStates
  rw [hruntasks, List.map_map]
  refine List.map_congr_left (fun r hr => ?_)
  exact hsame r hr (g r) (hruntasks ▸ List.mem_map_of_mem hr) (hsteps r (Db.mem_runTasks.mp hr).1)

/-- A commit without a row of the run leaves its tasks alone. -/
theorem taskStates_overlay (hbased : Based db own)
    (hnone : ∀ r ∈ own.task_runs.rows, r.run_id ≠ run_id) :
    (own.overlay db).taskStates run_id = db.taskStates run_id := by
  refine hbased.evolves.taskStates_eq (fun r hr r' hr' hsteps => ?_)
  obtain ⟨hr', hrun'⟩ := Db.mem_runTasks.mp hr'
  rcases Table.mem_overlay.mp hr' with hr' | ⟨hr', -⟩
  · exact absurd hrun' (hnone r' hr')
  · rw [db.task_runs.eq_of_key hr' (Db.mem_runTasks.mp hr).1 (RowStep.keeps_of_steps hsteps).1]

/-- States that were terminal when they were read are the states still there. -/
theorem taskStates_of_terminal (hlawful : ∀ r ∈ db.task_runs.rows, r.Lawful) (h : Evolves db db')
    (hall : ∀ s ∈ db.taskStates run_id, s.is_terminal = true) :
    db'.taskStates run_id = db.taskStates run_id := by
  refine h.taskStates_eq (fun r hr r' _ hsteps => ?_)
  rw [RowStep.eq_of_terminal hsteps (hlawful r (Db.mem_runTasks.mp hr).1)
    (hall _ (List.mem_map_of_mem hr))]

/-- A commit that meets the condition leaves finished runs settled. -/
theorem settledAt_commit (hinv : Inv checks db₀) (hdb : Evolves db₀ db)
    (hanchored : Anchored db₀ db own trace) (hpost : Post db₀ K call a own trace)
    (hsettled : call.refreshes ≠ some run_id → db.SettledAt run_id)
    (hread : RunUnchanged call db own trace) : (own.overlay db).SettledAt run_id := by
  have hview := hanchored.view hdb
  intro hall run hrun hid
  have hterminal : (derive_run_state ((own.overlay db).taskStates run_id)).is_terminal = true :=
    derive_is_terminal.mpr ⟨hid ▸ hview.taskStates_ne_nil hinv hrun, hall⟩
  rcases Table.mem_overlay.mp hrun with hrun | ⟨hrun, hhidden⟩
  · -- The session wrote the entry: it is the one of its refresh.
    cases hcall : call.refreshes with
    | none =>
        rw [hpost.unrefreshed hcall] at hrun
        cases hrun
    | some run_id' =>
        obtain ⟨seen, hseen, hrefreshed⟩ := hpost.refreshed run_id' hcall
        obtain ⟨hid', hstate, hfinished⟩ := hrefreshed.entry run hrun
        obtain rfl : run_id' = run_id := hid'.symm.trans hid
        have hsame : seen.taskStates run_id' = (own.overlay db).taskStates run_id' := by
          simp only [RunUnchanged, hcall, hseen] at hread
          exact hread hall
        rw [hsame] at hstate
        exact ⟨hstate, hstate ▸ hterminal, hfinished (hstate ▸ hterminal)⟩
  · by_cases hcall : call.refreshes = some run_id
    · -- A session that refreshes the run writes its entry.
      obtain ⟨seen, -, hrefreshed⟩ := hpost.refreshed run_id hcall
      obtain ⟨run₀, hrun₀, hid₀⟩ := hdb.run_before hrun
      obtain ⟨run', hrun', hid'⟩ := hrefreshed.exists_entry run₀ hrun₀ (hid₀.trans hid)
      exact absurd (hid'.trans hid.symm) (Table.get_eq_none.mp hhidden run' hrun')
    · -- Any other session has no row of the run, for it would not be terminal.
      have hnone : ∀ r ∈ own.task_runs.rows, r.run_id ≠ run_id := by
        intro r hr he
        have hmem : r ∈ (own.overlay db).runTasks run_id :=
          Db.mem_runTasks.mpr ⟨Table.mem_overlay.mpr (Or.inl hr), he⟩
        exact hcall (he ▸ hpost.terminal r hr (hall _ (List.mem_map_of_mem hmem)))
      rw [taskStates_overlay hanchored.based hnone] at hall ⊢
      exact hsettled hcall hall run hrun hid

/-- Exactly then: a refresh derives a terminal state only from terminal states, and
those do not change any more. -/
theorem runUnchanged_of_settledAt (hinv : Inv checks db₀) (hdb : Evolves db₀ db)
    (hanchored : Anchored db₀ db own trace) (hpost : Post db₀ K call a own trace)
    (hcall : call.refreshes = some run_id)
    (hrun : ∃ run ∈ db.workflow_runs.rows, run.id = run_id)
    (hsettled : (own.overlay db).SettledAt run_id) : RunUnchanged call db own trace := by
  obtain ⟨seen, hseen, hrefreshed⟩ := hpost.refreshed run_id hcall
  simp only [RunUnchanged, hcall, hseen]
  intro hall
  obtain ⟨run, hrun, hid⟩ := hrun
  obtain ⟨run₀, hrun₀, hid₀⟩ := hdb.run_before hrun
  obtain ⟨run', hrun', hid'⟩ := hrefreshed.exists_entry run₀ hrun₀ (hid₀.trans hid)
  obtain ⟨-, hstate, -⟩ := hrefreshed.entry run' hrun'
  obtain ⟨-, hterminal, -⟩ := hsettled hall run' (Table.mem_overlay.mpr (Or.inl hrun')) hid'
  rw [hstate] at hterminal
  -- What was read came from the database the system started on, so its rows are lawful.
  obtain ⟨hfrom, hinto⟩ := hanchored.seen seen hseen
  exact (taskStates_of_terminal (hfrom.lawful hinv.good.lawful) hinto
    (derive_is_terminal.mp hterminal).2).symm

/-- What the commit of a session that has come to its end leaves. -/
theorem committed_step {s : Queue} {i : ℕ} {t : Session Db Exn Bool Call} {a : Bool}
    (ht : s.session i = some t) (hresult : t.result = some a) :
    (s.step (store checks) Call.body (.commit i)).committed = t.own.overlay s.committed := by
  simp only [Sys.step, ht, Option.elim_some]
  unfold Session.result at hresult
  split at hresult
  · rfl
  · cases hresult

/-- **Finished runs look finished exactly when the last refresh was up to date.**

* In every interleaving in which each commit of a refresh that leaves all tasks of
  its run terminal has read their states as they are, a run whose tasks are all
  terminal is recorded with their derived state, terminal, and with `finished_at`.
* In any interleaving, a commit of a refresh that leaves all tasks of its run terminal
  leaves the run so recorded exactly when it has read their states as they are. -/
theorem finished_runs_settled :
    (∀ s : Queue, Interleaved checks anyWrite RunUnchanged s →
      ∀ run_id, s.committed.SettledAt run_id) ∧
    (∀ s : Queue, Interleaved checks anyWrite anyCommit s → ∀ i t a run_id,
      s.session i = some t → t.result = some a → t.call.refreshes = some run_id →
      (∃ run ∈ s.committed.workflow_runs.rows, run.id = run_id) →
      ((s.step (store checks) Call.body (.commit i)).committed.SettledAt run_id ↔
        RunUnchanged t.call s.committed t.own t.trace)) := by
  constructor
  · intro s h
    exact (h.rule (K := False) (P := fun db => ∀ run_id, db.SettledAt run_id) (fun hk => hk.elim)
      (fun db₀ hdb₀ run_id => hdb₀.settled run_id)
      (fun db₀ db call a own trace hdb₀ hdb hsettled hanchored hpost hN run_id =>
        settledAt_commit hdb₀.inv hdb hanchored hpost (fun _ => hsettled run_id) hN)).1
  · intro s h i t a run_id ht hresult hcall hrun
    obtain ⟨-, db₀, hdb₀, hdb, hpost⟩ := h.rule (K := False) (P := fun _ => True)
      (fun hk => hk.elim) (fun _ _ => trivial) (fun _ _ _ _ _ _ _ _ _ _ _ _ => trivial)
    obtain ⟨hanchored, hpost⟩ := hpost i t a ht hresult
    rw [committed_step ht hresult]
    exact ⟨runUnchanged_of_settledAt hdb₀.inv hdb hanchored hpost hcall hrun,
      settledAt_commit hdb₀.inv hdb hanchored hpost (fun hne => absurd hcall hne)⟩

/-- Workflow 1 with the independent tasks 2 and 3, its run 10, and its rows 12 and 13
claimed by `w1` and `w2`. -/
def claimedPair : Db :=
  transacted true (([.publish ⟨1, fun key => if key = "a" then 2 else 3⟩ 0 "pair"
      [sampleTask "a" [] noRetry, sampleTask "b" [] noRetry] none,
    .submit ⟨10, fun task => 10 + task⟩ (clockAt 0) 1 none, claimAt 0 "w1",
    claimAt 0 "w2"] : List Op).map .op)

theorem requested_claimedPair : Requested true (fun _ _ => True) claimedPair :=
  Lts.ReachVia.foldl (.start initial_empty) (by decide +kernel)

/-- Both workers report success. -/
def successReports : List (Label Call Lock) :=
  [.begin (.complete 0 ⟨12, 10, "w1", .success none, clockAt 1, fun x => x⟩),
    .begin (.complete 0 ⟨13, 10, "w2", .success none, clockAt 1, fun x => x⟩)]

/-- The statements of a success report up to the refresh: the guarded update, the
attempt, the children. -/
def successStatements (i : ℕ) : List (Label Call Lock) :=
  writeAt i ++ writeAt i ++ [proceed i] ++ writeAt i ++ writeAt i

/-- The reports one after the other. -/
def oneByOne : List (Label Call Lock) :=
  successReports ++ successStatements 0 ++ [proceed 0] ++ writeAt 0 ++ [.commit 0] ++
    successStatements 1 ++ [proceed 1] ++ writeAt 1 ++ [.commit 1]

/-- Both workers refresh before either commits. -/
def sideBySide : List (Label Call Lock) :=
  successReports ++ successStatements 0 ++ successStatements 1 ++ [proceed 0, proceed 1] ++
    writeAt 0 ++ [.commit 0] ++ writeAt 1 ++ [.commit 1]

/-- Then both tasks have succeeded, nothing is open, and the run is `RUNNING` for
ever. -/
theorem last_two_completions_hide_the_end :
    Interleaved true anyWrite anyCommit (Queue.after true claimedPair sideBySide) ∧
    (Queue.after true claimedPair sideBySide).Quiet ∧
    (Queue.after true claimedPair sideBySide).committed.taskStates 10 = [.SUCCEEDED, .SUCCEEDED] ∧
    (Queue.after true claimedPair sideBySide).committed.workflow_runs.rows.map
      (fun run => (run.id, run.state, run.finished_at.isSome)) = [(10, .RUNNING, false)] ∧
    ¬ (Queue.after true claimedPair sideBySide).committed.SettledAt 10 := by
  have hstates : (Queue.after true claimedPair sideBySide).committed.taskStates 10
      = [.SUCCEEDED, .SUCCEEDED] := by decide +kernel
  have hruns : (Queue.after true claimedPair sideBySide).committed.workflow_runs.rows.map
      (fun run => (run.id, run.state, run.finished_at.isSome)) = [(10, .RUNNING, false)] := by
    decide +kernel
  refine ⟨interleaved_after requested_claimedPair (by decide +kernel), by decide +kernel, hstates,
    hruns, fun hsettled => ?_⟩
  have hmem : (10, RunState.RUNNING, false) ∈ (Queue.after true claimedPair
      sideBySide).committed.workflow_runs.rows.map
        (fun run => (run.id, run.state, run.finished_at.isSome)) := by
    rw [hruns]
    exact List.mem_singleton_self _
  obtain ⟨run, hrun, he⟩ := List.mem_map.mp hmem
  obtain ⟨hid, -, hunfinished⟩ : run.id = 10 ∧ run.state = .RUNNING ∧
      run.finished_at.isSome = false := by simpa using he
  obtain ⟨-, -, hfinished⟩ := hsettled (by rw [hstates]; decide) run hrun hid
  rw [hunfinished] at hfinished
  cases hfinished

/-- One after the other the run is recorded as finished. -/
theorem finished_runs_settled_one_by_one :
    (Queue.after true claimedPair oneByOne).committed.SettledAt 10 ∧
    (Queue.after true claimedPair oneByOne).committed.taskStates 10 = [.SUCCEEDED, .SUCCEEDED] :=
  ⟨finished_runs_settled.1 _ (interleaved_after requested_claimedPair (by decide +kernel)) 10,
    by decide +kernel⟩

end Conductor
