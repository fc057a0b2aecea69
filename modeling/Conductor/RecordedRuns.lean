/-
Runs that are recorded as finished.

The worker refreshes the run "in the same transaction, so a run can never be observed
complete while a task row says otherwise". Under READ COMMITTED the refresh reads the
states of the tasks in one statement and writes the run row in another, and what it read
may be out of date by then: a run can be recorded as `RUNNING` when it is not
(`FinishedRuns`). The other way round the promise holds. A terminal state is derived from
terminal tasks only, and a terminal task does not change any more, so what was read is
still so when it is written.
-/
import Conductor.FinishedRuns

set_option autoImplicit false

open Relational Txn

namespace Conductor

open RunRepository TaskQueueRepository WorkflowRepository

variable {checks : Bool} {db db' : Db} {run_id : UUID}

/-- If the run is recorded as finished, then its tasks are terminal, and the record is
their derived state. -/
def Db.TruthfulAt (db : Db) (run_id : UUID) : Prop :=
  ∀ run ∈ db.workflow_runs.rows, run.id = run_id → run.state.is_terminal = true →
    (∀ s ∈ db.taskStates run_id, s.is_terminal = true) ∧
      run.state = derive_run_state (db.taskStates run_id) ∧ run.finished_at.isSome = true

/-- The run row is what a refresh makes of these task states. -/
def WorkflowRun.Derived (run : WorkflowRun) (states : List TaskState) : Prop :=
  run.state = derive_run_state states ∧
    (run.state.is_terminal = true → run.finished_at.isSome = true)

/-- **Terminal states last,** so a database stays truthful when its run rows are the old
ones, or derived from states that last. -/
theorem TruthfulAt.step (h : db.TruthfulAt run_id)
    (hlast : (∀ s ∈ db.taskStates run_id, s.is_terminal = true) →
      db'.taskStates run_id = db.taskStates run_id)
    (hruns : ∀ run ∈ db'.workflow_runs.rows, run.id = run_id →
      run ∈ db.workflow_runs.rows ∨ ∃ seen, run.Derived seen ∧
        ((∀ s ∈ seen, s.is_terminal = true) → db'.taskStates run_id = seen)) :
    db'.TruthfulAt run_id := by
  intro run hrun hid hterminal
  rcases hruns run hrun hid with hold | ⟨seen, ⟨hstate, hfinished⟩, hsame⟩
  · obtain ⟨hall, hstate, hfinished⟩ := h run hold hid hterminal
    rw [hlast hall]
    exact ⟨hall, hstate, hfinished⟩
  · rw [hstate] at hterminal
    have hall := (derive_is_terminal.mp hterminal).2
    rw [hsame hall]
    exact ⟨hall, hstate, hfinished (hstate ▸ hterminal)⟩

/-- A refreshed run row. -/
theorem refreshed_derived (now : Time) (states : List TaskState) (run : WorkflowRun) :
    (refreshed now (derive_run_state states) run).Derived states :=
  ⟨rfl, refreshed_finished now _ run⟩

/-! ## One transaction at a time -/

/-- Rewriting rows leaves a run of terminal tasks as it is. -/
theorem Rewritten.taskStates_last {g : TaskRun → TaskRun} (h : Rewritten checks db db' g)
    (hinv : Inv checks db) (hall : ∀ s ∈ db.taskStates run_id, s.is_terminal = true) :
    db'.taskStates run_id = db.taskStates run_id := by
  refine h.taskStates_eq (fun r hr => ?_)
  have hterminal := hall r.state (List.mem_map_of_mem hr)
  have hmem := (Db.mem_runTasks.mp hr).1
  rw [RowStep.eq_of_terminal (h.change r hmem).steps (hinv.good.lawful r hmem) hterminal]

/-- A transaction that writes no run row. -/
theorem truthfulAt_queue (hinv : Inv checks db) {op : Op} (hop : op.isQueue = true)
    (hruns : (serve checks db op).workflow_runs = db.workflow_runs) (h : db.TruthfulAt run_id) :
    (serve checks db op).TruthfulAt run_id := by
  obtain ⟨g, -, hstep⟩ := serve_outcome hinv hop
  refine TruthfulAt.step h (hstep.rewritten.taskStates_last hinv) (fun run hrun _ => ?_)
  rw [hruns] at hrun
  exact Or.inl hrun

/-- A refresh, whoever makes it and of whatever run. -/
theorem truthfulAt_refresh (hinv : Inv checks db) (clock : Clock) (refreshed_id : UUID)
    (h : db.TruthfulAt run_id) :
    (serve checks db (.refresh clock refreshed_id)).TruthfulAt run_id := by
  have hserve : serve checks db (.refresh clock refreshed_id) = _ :=
    commit_ok (hinv.good.exec_refresh_run_state clock refreshed_id)
  rw [hserve]
  refine TruthfulAt.step h (fun _ => rfl) (fun run' hrun' hid' => ?_)
  obtain ⟨run, hrun, rfl⟩ := List.mem_map.mp hrun'
  by_cases hid : run.id = refreshed_id
  · simp only [hid, decide_true, if_true] at hid' ⊢
    have hsame : refreshed_id = run_id := hid.symm.trans hid'
    subst hsame
    exact Or.inr ⟨_, refreshed_derived _ _ run, fun _ => rfl⟩
  · simp only [hid, decide_false, Bool.false_eq_true, if_false]
    exact Or.inl hrun

theorem truthfulAt_cancel (hinv : Inv checks db) (clock : Clock) (cancelled : UUID)
    (h : db.TruthfulAt run_id) : (serve checks db (.cancel clock cancelled)).TruthfulAt run_id := by
  have hserve : serve checks db (.cancel clock cancelled) = _ :=
    commit_ok (exec_cancel hinv.good clock cancelled)
  have hlast : (∀ s ∈ db.taskStates run_id, s.is_terminal) →
      (serve checks db (.cancel clock cancelled)).taskStates run_id = db.taskStates run_id :=
    (serve_cancel hinv clock cancelled).rewritten.taskStates_last hinv
  rw [hserve] at hlast ⊢
  refine TruthfulAt.step h hlast (fun run' hrun' hid' => ?_)
  obtain ⟨run, hrun, rfl⟩ := List.mem_map.mp hrun'
  by_cases hid : run.id = cancelled
  · simp only [hid, decide_true, if_true] at hid' ⊢
    have hsame : cancelled = run_id := hid.symm.trans hid'
    subst hsame
    exact Or.inr ⟨_, refreshed_derived _ _ run, fun _ => rfl⟩
  · simp only [hid, decide_false, Bool.false_eq_true, if_false]
    exact Or.inl hrun

theorem truthfulAt_submit (hinv : Inv checks db) (h : db.TruthfulAt run_id) (ids : RunIds)
    (clock : Clock) (workflow_id : UUID) (trigger_payload : Option Dict) :
    (serve checks db (.submit ids clock workflow_id trigger_payload)).TruthfulAt run_id := by
  rcases serve_submit checks db ids clock workflow_id trigger_payload with
    hsame | ⟨workflow, -, new, rows, hcreated⟩
  · rw [hsame]
    exact h
  · intro run hrun hid hterminal
    rw [hcreated.runs', List.mem_append, List.mem_singleton] at hrun
    rcases hrun with hrun | rfl
    · have hne : run_id ≠ new.id := fun he => hcreated.new_run run hrun (hid.trans he)
      rw [hcreated.taskStates_old hinv hne]
      exact h run hrun hid hterminal
    -- The new run is recorded as `PENDING`.
    · rw [hcreated.pending.1] at hterminal
      cases hterminal

/-- One transaction leaves the records of finished runs true. -/
theorem truthfulAt_transact (hinv : Inv checks db) {request : Request} (hsound : request.Sound db)
    (h : db.TruthfulAt run_id) : (transact checks db request).TruthfulAt run_id := by
  cases request with
  | complete report =>
      obtain ⟨-, -, htransact, -⟩ := exec_complete hinv report
      rw [htransact]
      exact truthfulAt_refresh (serve_inv hinv report.op) report.clock report.run_id
        (truthfulAt_queue hinv report.op_isQueue (runs_report hinv report) h)
  | op op =>
      cases op with
      | publish ids now name specs description =>
          obtain ⟨_, _, _, hserve⟩ := serve_publish_frame checks db ids now name specs description
          rw [transact, hserve]
          exact h
      | submit ids clock workflow_id trigger_payload =>
          exact truthfulAt_submit hinv h ids clock workflow_id trigger_payload
      | cancel clock cancelled => exact truthfulAt_cancel hinv clock cancelled h
      | success | failure | refresh => cases hsound
      | claim lease_seconds clock tie worker_id limit =>
          exact truthfulAt_queue hinv rfl (runs_of_commit (writes_claim_batch _ _ _ _ _) db) h
      | renew lease_seconds clock task_run_id worker_id =>
          exact truthfulAt_queue hinv rfl (runs_of_commit (writes_renew_lease _ _ _ _) db) h
      | reap clock =>
          exact truthfulAt_queue hinv rfl (runs_of_commit (writes_reap_expired_leases clock) db) h

theorem Requested.truthful {C : Db → Request → Prop} (h : Requested checks C db)
    (run_id : UUID) : db.TruthfulAt run_id := by
  have hboth : Inv checks db ∧ db.TruthfulAt run_id := by
    refine Lts.ReachVia.invariant (P := fun db => Inv checks db ∧ db.TruthfulAt run_id)
      (fun db hinit => ⟨hinit.inv, fun run hrun => ?_⟩)
      (fun db request db' _ hs hc hstep => ?_) h
    · rw [hinit.no_runs] at hrun
      cases hrun
    · rw [← hstep]
      exact ⟨transact_inv hs.1 request, truthfulAt_transact hs.1 hc.1 hs.2⟩
  exact hboth.2

/-! ## Any interleaving -/

variable {db₀ own : Db} {trace : List (Event Db)} {call : Call} {a : Bool} {K : Prop}

/-- A commit leaves the records true, however old what its session has read is. -/
theorem truthfulAt_commit (hinv : Inv checks db₀) (hdb : Evolves db₀ db)
    (hanchored : Anchored db₀ db own trace) (hpost : Post db₀ K call a own trace)
    (h : db.TruthfulAt run_id) : (own.overlay db).TruthfulAt run_id := by
  refine TruthfulAt.step h ?_ (fun run hrun hid => ?_)
  · exact taskStates_of_terminal (hdb.lawful hinv.good.lawful) hanchored.based.evolves
  rcases Table.mem_overlay.mp hrun with hrun | ⟨hrun, -⟩
  · -- The session wrote the row: it is the one of its refresh.
    cases hcall : call.refreshes with
    | none =>
        rw [hpost.unrefreshed hcall] at hrun
        cases hrun
    | some refreshed_id =>
        obtain ⟨seen, hseen, hrefreshed⟩ := hpost.refreshed refreshed_id hcall
        obtain ⟨hid', hstate, hfinished⟩ := hrefreshed.entry run hrun
        obtain rfl : refreshed_id = run_id := hid'.symm.trans hid
        obtain ⟨hfrom, hinto⟩ := hanchored.seen seen hseen
        exact Or.inr ⟨_, ⟨hstate, hfinished⟩,
          taskStates_of_terminal (hfrom.lawful hinv.good.lawful) hinto⟩
  · exact Or.inl hrun

/-- **A run that is recorded as finished is finished.** In every interleaving of the
statements of all transactions, a run whose recorded state is terminal has terminal tasks
only, its recorded state is the one derived from them, and `finished_at` is set. -/
theorem recorded_finished_is_finished {s : Queue} (h : Interleaved checks anyWrite anyCommit s) :
    ∀ run ∈ s.committed.workflow_runs.rows, run.state.is_terminal = true →
      (∀ r ∈ s.committed.runTasks run.id, r.state.is_terminal = true) ∧
      run.state = derive_run_state (s.committed.taskStates run.id) ∧
      run.finished_at.isSome = true := by
  have htruthful := (h.rule (K := False) (P := fun db => ∀ run_id, db.TruthfulAt run_id)
    (fun hk => hk.elim) (fun db₀ hdb₀ run_id => hdb₀.truthful run_id)
    (fun db₀ db call a own trace hdb₀ hdb hall hanchored hpost _ run_id =>
      truthfulAt_commit hdb₀.inv hdb hanchored hpost (hall run_id))).1
  intro run hrun hterminal
  obtain ⟨hall, hstate, hfinished⟩ := htruthful run.id run hrun rfl hterminal
  exact ⟨fun r hr => hall r.state (List.mem_map_of_mem hr), hstate, hfinished⟩

/-- Two workers complete the last two tasks, one after the other, and the run is recorded
as finished. -/
theorem recorded_finished_is_finished_one_by_one :
    (Queue.after true claimedPair oneByOne).committed.workflow_runs.rows.map WorkflowRun.state
      = [.SUCCEEDED] ∧
    ∀ r ∈ (Queue.after true claimedPair oneByOne).committed.runTasks 10,
      r.state.is_terminal = true := by
  have hstate : (Queue.after true claimedPair oneByOne).committed.workflow_runs.rows.map
      (fun run => (run.id, run.state)) = [(10, .SUCCEEDED)] := by decide +kernel
  obtain ⟨run, hrun, he⟩ : ∃ run ∈ (Queue.after true claimedPair
      oneByOne).committed.workflow_runs.rows, (run.id, run.state) = (10, RunState.SUCCEEDED) := by
    have hmem : (10, RunState.SUCCEEDED) ∈ (Queue.after true claimedPair
        oneByOne).committed.workflow_runs.rows.map (fun run => (run.id, run.state)) := by
      rw [hstate]
      exact List.mem_singleton_self _
    exact List.mem_map.mp hmem
  obtain ⟨hid, hsucceeded⟩ := Prod.mk.inj he
  have hfinished := (recorded_finished_is_finished (interleaved_after requested_claimedPair
    (by decide +kernel)) run hrun (by rw [hsucceeded]; rfl)).1
  rw [hid] at hfinished
  exact ⟨by decide +kernel, hfinished⟩

end Conductor
