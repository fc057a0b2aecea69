/-
`GET /runs/{run_id}` and `GET /runs`: what a client is shown while the workers go on.

Both handlers of `api/routes/runs.py` read the run rows in one statement and the task rows
in another, and under READ COMMITTED the queue may have moved on in between. So the two
halves of a reply can belong to different moments, and a reply that says `RUNNING` may list
tasks that have all succeeded. A finished run is never shown with an unfinished task,
though: the run row is read first, a record of a finished run is true (`RecordedRuns`), and
what it is a record of does not change any more.

Definitions do not change at all, which is why every reply lists the tasks of the workflow,
each once and in the order of their keys, and why a handler never ends in a `KeyError`.
-/
import Mathlib.Data.String.Basic
import Conductor.Lib.Readers
import Conductor.OptimisticLock
import Conductor.RecordedRuns
import Conductor.Pages
import Conductor.Api

set_option autoImplicit false

open Relational Txn

namespace Conductor

open RunRepository TaskQueueRepository WorkflowRepository

variable {checks : Bool} {db db' db'' : Db} {run_id : UUID}

/-! ## Two moments of one interleaving -/

/-- The run of the system goes on from `s` to `s'`. -/
def Queue.Leads (checks : Bool) (s s' : Queue) : Prop :=
  Lts.ReachVia (· = s) (fun s l s' => s.step (store checks) Call.body l = s')
    (StepMeets (store checks) (fun db call => call.Sound db) anyWrite anyCommit) s'

/-- What the queue can have done to the database between two moments. -/
structure Continues (db db' : Db) : Prop where
  evolves : Evolves db db'
  workflows : db'.workflows = db.workflows
  tasks : db'.tasks = db.tasks
  runs : ∀ run ∈ db.workflow_runs.rows, ∃ run' ∈ db'.workflow_runs.rows, RunSteps run run'

namespace Continues

theorem refl (db : Db) : Continues db db := ⟨.refl db, rfl, rfl, fun run hrun => ⟨run, hrun, .refl⟩⟩

theorem trans (h : Continues db db') (h' : Continues db' db'') : Continues db db'' := by
  refine ⟨h.evolves.trans h'.evolves, h'.workflows.trans h.workflows, h'.tasks.trans h.tasks,
    fun run hrun => ?_⟩
  obtain ⟨run', hrun', hsteps⟩ := h.runs run hrun
  obtain ⟨run'', hrun'', hsteps'⟩ := h'.runs run' hrun'
  exact ⟨run'', hrun'', hsteps.trans hsteps'⟩

end Continues

/-- A statement of the queue writes no definitions, and refreshes run rows at most. -/
structure LeavesDefinitions (v d : Db) : Prop where
  workflows : d.workflows = Table.empty
  tasks : d.tasks = Table.empty
  runs : RunsFrom RunStep v d

theorem leavesDefinitions_of_queue {P : TaskRun → Prop} {α : Type} {tx : Tx α}
    (h : tx.Writes (QueueWrite P)) : tx.Writes LeavesDefinitions := by
  refine h.mono (fun v d hd => ⟨hd.workflows, hd.tasks, fun run' hrun' => ?_⟩)
  rw [hd.runs] at hrun'
  cases hrun'

theorem leavesDefinitions_refresh (clock : Clock) (run_id : UUID) :
    (refresh_run_state clock run_id).Writes LeavesDefinitions := by
  refine .read (fun _ => .write (fun v => ⟨rfl, rfl, fun run' hrun' => ?_⟩) (fun _ => .ret _))
  obtain ⟨run, hrun, rfl⟩ := List.mem_map.mp hrun'
  exact ⟨run, (List.mem_filter.mp hrun).1, clock.now, _, rfl⟩

theorem Call.leavesDefinitions (call : Call) : call.body.Writes LeavesDefinitions := by
  cases call with
  | claim lease_seconds clock tie worker_id limit =>
      exact (leavesDefinitions_of_queue (writes_claim_batch _ _ _ _ _)).bind (fun _ => .ret _)
  | renew lease_seconds clock task_run_id worker_id =>
      exact leavesDefinitions_of_queue (writes_renew_lease _ _ _ _)
  | reap clock =>
      exact (leavesDefinitions_of_queue (writes_reap_expired_leases clock)).bind (fun _ => .ret _)
  | cancel clock run_id =>
      refine Prog.Writes.bind (Prog.Writes.bind ?_ (fun _ =>
        (leavesDefinitions_refresh clock run_id).bind (fun _ => .ret _))) (fun _ => .ret _)
      exact leavesDefinitions_of_queue (writes_cancel clock.now run_id)
  | complete rounds report =>
      refine Prog.Writes.bind ?_ (fun _ =>
        (leavesDefinitions_refresh report.clock report.run_id).bind (fun _ => .ret _))
      unfold recordResult_with
      cases report.result with
      | success output => exact leavesDefinitions_of_queue (writes_record_success _ _ _ _)
      | failure error =>
          exact (leavesDefinitions_of_queue (writes_record_failure _ _ _ _ _ _)).bind
            (fun _ => .ret _)

/-- A statement that writes such rows does so whatever it waits for or steps over. -/
theorem LeavesDefinitions.written {kind : Kind} {stmt : Db → Db}
    (h : ∀ v, LeavesDefinitions v (stmt v)) (v₀ v : Db) (free : Lock → Bool) :
    LeavesDefinitions v (written (store checks) kind stmt v₀ v free) := by
  have hruns : RunsFrom RunStep v (Txn.written (store checks) kind stmt v₀ v free) :=
    RunsFrom.written (fun v => (h v).runs) v₀ v free
  cases kind with
  | update =>
      exact ⟨(congrArg (Table.restrict · _) (h v).workflows).trans (restrict_empty _),
        (congrArg (Table.restrict · _) (h v).tasks).trans (restrict_empty _), hruns⟩
  | skipLocked =>
      have hkept := h ((store checks).keep free v)
      exact ⟨hkept.workflows, hkept.tasks, hruns⟩
  | insert => exact h v

/-- What a session of the queue has written so far: no definitions, and refreshed run rows. -/
structure OwnRows (call : Call) (db own : Db) : Prop where
  workflows : own.workflows = Table.empty
  tasks : own.tasks = Table.empty
  runs : RunsTied call db own

theorem OwnRows.write {call : Call} {own rows : Db} (h : OwnRows call db own)
    (hrows : LeavesDefinitions (own.overlay db) rows) : OwnRows call db (rows.overlay own) := by
  refine ⟨?_, ?_, h.runs.write hrows.runs⟩
  · show rows.workflows.overlay own.workflows = _
    rw [hrows.workflows, h.workflows, Table.empty_overlay]
  · show rows.tasks.overlay own.tasks = _
    rw [hrows.tasks, h.tasks, Table.empty_overlay]

/-- A commit goes on from the database it is laid over. -/
theorem Continues.commit {call : Call} {own : Db} (hbased : Based db own)
    (hown : OwnRows call db own) : Continues db (own.overlay db) := by
  refine ⟨hbased.evolves, ?_, ?_, (Later.commit hbased hown.runs).runs⟩
  · show own.workflows.overlay db.workflows = _
    rw [hown.workflows, Table.empty_overlay]
  · show own.tasks.overlay db.tasks = _
    rw [hown.tasks, Table.empty_overlay]

/-- The proof about all interleavings that start from `db₀`, for two moments of one. -/
def moving (checks : Bool) {db₀ : Db} (hlawful : ∀ r ∈ db₀.task_runs.rows, r.Lawful) :
    Discipline (store checks) Call.body (fun db call => call.Sound db) anyWrite anyCommit :=
  discipline hlawful (fun _ h => h) False (fun hk => hk.elim)
    (fun _ _ _ _ _ hdb hanchored _ _ => hdb.trans hanchored.based.evolves)

/-- What each call does to definitions and run rows. -/
def leaving (checks : Bool) {db₀ : Db} (hlawful : ∀ r ∈ db₀.task_runs.rows, r.Lawful) :
    Contract (moving checks hlawful) where
  P := fun _ => LeavesDefinitions
  K := OwnRows
  writes := Call.leavesDefinitions
  empty := fun _ _ => ⟨rfl, rfl, fun _ h => absurd h List.not_mem_nil⟩
  write := fun _ _ _ _ _ _ _ _ _ _ hstmt hK => hK.write (LeavesDefinitions.written hstmt _ _ _)
  stable := fun _ _ _ _ _ _ _ _ _ hdisjoint hK =>
    ⟨hK.workflows, hK.tasks, hK.runs.stable hdisjoint⟩

/-- **Between two moments** rows are rewritten, run rows refreshed, and nothing else. -/
theorem Interleaved.continues {s s' : Queue} (h : Interleaved checks anyWrite anyCommit s)
    (hleads : Queue.Leads checks s s') :
    Interleaved checks anyWrite anyCommit s' ∧ Continues s.committed s'.committed := by
  obtain ⟨s₀, ⟨hrequested, hsessions⟩, hreach⟩ := h.exists_start
  have hlawful := hrequested.inv.good.lawful
  have hinit : ∀ t : Queue, t = s₀ → Evolves s₀.committed t.committed ∧ t.sessions = [] :=
    fun t ht => by rw [ht]; exact ⟨.refl _, hsessions⟩
  suffices hboth : (Lts.ReachVia (· = s₀) (fun s l s' => s.step (store checks) Call.body l = s')
      (StepMeets (store checks) (fun db call => call.Sound db) anyWrite anyCommit) s' ∧
      Interleaved checks anyWrite anyCommit s') ∧ Continues s.committed s'.committed from
    ⟨hboth.1.2, hboth.2⟩
  induction hleads with
  | start hi =>
      rw [hi]
      exact ⟨⟨hreach, h⟩, .refl _⟩
  | @next s₁ s₂ l _ hl hstep ih =>
      obtain ⟨⟨hfrom, hinter⟩, hcontinues⟩ := ih
      refine ⟨⟨.next hfrom hl hstep, .next hinter hl hstep⟩, hcontinues.trans ?_⟩
      rw [← hstep]
      rcases s₁.step_commits (store checks) Call.body l with
        hsame | ⟨i, t, -, -, ht, -, hcommitted⟩
      · rw [hsame]
        exact .refl _
      · rw [hcommitted]
        have hsafe := (moving checks hlawful).safe store_lawful hinit hfrom
        have hkept := (leaving checks hlawful).kept store_lawful hinit hfrom ht
        exact .commit (hsafe.session i t ht).own.based hkept.own

/-! ## The handlers -/

/-- The text of a state in a message. -/
def RunState.value : RunState → String
  | .PENDING => "PENDING"
  | .RUNNING => "RUNNING"
  | .SUCCEEDED => "SUCCEEDED"
  | .FAILED => "FAILED"
  | .CANCELLED => "CANCELLED"

namespace Api

/-- `RunPage`, with the fields of its `meta`. -/
structure RunPage where
  items : List RunResponse
  next_cursor : Option String
  has_more : Bool

/-- One run with its tasks. -/
def get_run (lib : Stdlib) (run_id : UUID) : Tx RunResponse := do
  match ← get_with_tasks run_id with
  | none => .raise (.NotFoundError ("run " ++ lib.str run_id ++ " not found"))
  | some loaded => Prog.lift (to_response loaded)

/-- Cancel every task of a run that has not reached a terminal state. After `expire_all`
the second load reads every row anew. -/
def cancel_run (lib : Stdlib) (clock : Clock) (run_id : UUID) : Tx RunResponse := do
  match ← get_with_tasks run_id with
  | none => .raise (.NotFoundError ("run " ++ lib.str run_id ++ " not found"))
  | some loaded =>
      if loaded.run.state.is_terminal then
        .raise (.ProblemDetail 409 "Run already finished"
          ("run is " ++ loaded.run.state.value ++ " and cannot be cancelled")
          "run-not-cancellable")
      else do
        let _ ← RunRepository.cancel clock run_id
        match ← get_with_tasks run_id with
        | none => .raise (.AssertionError "")
        | some cancelled => Prog.lift (to_response cancelled)

/-- The `_to_response(runs[run_id])` of `list_runs`. The tasks of a run are loaded where
the response first asks for them. -/
def listedRun (lib : Stdlib) (runs : List WorkflowRun) (run_id : UUID) :
    Prog Db (CursorError ⊕ Exn) RunResponse :=
  match runs.find? (fun run => run.id = run_id) with
  | none => .raise (.inr (.KeyError (lib.str run_id)))
  | some run => .read (fun db => Prog.lift ((to_response
      ⟨run, (db.runTasks run.id).map (fun r => (r, db.tasks.get r.task_id))⟩).mapError .inr))

def listedRuns (lib : Stdlib) (runs : List WorkflowRun) :
    List UUID → Prog Db (CursorError ⊕ Exn) (List RunResponse)
  | [] => .ret []
  | run_id :: ids => do
      let response ← listedRun lib runs run_id
      let rest ← listedRuns lib runs ids
      return response :: rest

/-- One page of runs. -/
def list_runs (lib : Stdlib) (max_page_size limit : ℕ) (cursor : Option String)
    (state : Option RunState) : Prog Db (CursorError ⊕ Exn) RunPage :=
  .read (fun db =>
    match RunRepository.list_page lib db (min limit max_page_size) cursor state none with
    | .error e => .raise (.inl e)
    | .ok page =>
        if page.items.isEmpty then .ret ⟨[], page.next_cursor, page.next_cursor.isSome⟩
        else .read (fun db => do
          -- The session has these rows already, and does not load them anew.
          let runs := page.items.filter (fun run => (db.workflow_runs.get run.id).isSome)
          let items ← listedRuns lib runs (page.items.map WorkflowRun.id)
          return ⟨items, page.next_cursor, page.next_cursor.isSome⟩))

end Api

/-! ## Replies -/

/-- A reply that shows a run: all tasks of its workflow, each once and in the order of
their keys, as they are in the database; and if it shows a finished run, then finished
tasks, of which its state is the derived one. -/
structure Shown (db : Db) (run_id : UUID) (reply : RunResponse) : Prop where
  id : reply.id = run_id
  sorted : (reply.tasks.map TaskRunResponse.key).Pairwise (· < ·)
  complete : ∀ task ∈ db.tasks.rows, task.workflow_id = reply.workflow_id →
    ∃ t ∈ reply.tasks, t.key = task.key
  rows : ∀ t ∈ reply.tasks, ∃ r ∈ db.runTasks run_id, ∃ task ∈ db.tasks.rows,
    task.id = r.task_id ∧ task.workflow_id = reply.workflow_id ∧
      Api.toTaskResponse (r, some task) = .ok t
  finished : reply.state.is_terminal = true → reply.finished_at.isSome = true ∧
    (∀ t ∈ reply.tasks, t.state.is_terminal = true) ∧
      reply.state = derive_run_state (reply.tasks.map TaskRunResponse.state)

theorem derive_congr {l l' : List TaskState} (h : ∀ s, s ∈ l ↔ s ∈ l') :
    derive_run_state l = derive_run_state l' := by
  have hany : ∀ p : TaskState → Bool, l.any p = l'.any p := by
    intro p
    rw [Bool.eq_iff_iff, List.any_eq_true, List.any_eq_true]
    exact exists_congr (fun s => and_congr_left (fun _ => h s))
  have hall : ∀ p : TaskState → Bool, l.all p = l'.all p := by
    intro p
    rw [Bool.eq_iff_iff, List.all_eq_true, List.all_eq_true]
    exact forall_congr' (fun s => imp_congr_left (h s))
  have hempty : l.isEmpty = l'.isEmpty := by
    rw [Bool.eq_iff_iff, List.isEmpty_iff, List.isEmpty_iff, List.eq_nil_iff_forall_not_mem,
      List.eq_nil_iff_forall_not_mem]
    exact forall_congr' (fun s => not_congr (h s))
  unfold derive_run_state
  simp only [hany, hall, hempty]

/-! ### The rows of a run -/

section Loaded

variable {db₀ : Db} {run run' : WorkflowRun}

theorem RunStep.keeps_of_steps (h : RunSteps run run') :
    run'.id = run.id ∧ run'.workflow_id = run.workflow_id ∧ run'.created_at = run.created_at := by
  induction h with
  | refl => exact ⟨rfl, rfl, rfl⟩
  | tail _ hstep ih =>
      obtain ⟨now, derived, rfl⟩ := hstep
      exact ih

/-- The database the system started on. -/
theorem Interleaved.origin {s : Queue} (h : Interleaved checks anyWrite anyCommit s) :
    ∃ db₀, Requested checks (fun _ _ => True) db₀ ∧ Continues db₀ s.committed := by
  obtain ⟨s₀, hidle, hreach⟩ := h.exists_start
  exact ⟨s₀.committed, hidle.1, (Interleaved.continues (.start hidle) hreach).2⟩

/-- A run row was there from the start, as one of the same workflow. -/
theorem Continues.run_before (h : Continues db₀ db) (hrun : run ∈ db.workflow_runs.rows) :
    ∃ run₀ ∈ db₀.workflow_runs.rows, RunSteps run₀ run := by
  obtain ⟨run₀, hrun₀, hid⟩ := h.evolves.run_before hrun
  obtain ⟨run', hrun', hsteps⟩ := h.runs run₀ hrun₀
  have he : run' = run := db.workflow_runs.eq_of_key hrun' hrun
    ((RunStep.keeps_of_steps hsteps).1.trans hid)
  exact ⟨run₀, hrun₀, he ▸ hsteps⟩

/-- Every run has one row for each task of its workflow, and for no other. -/
structure Db.Materialised (db : Db) : Prop where
  keys : ∀ s ∈ db.tasks.rows, ∀ t ∈ db.tasks.rows,
    s.workflow_id = t.workflow_id → s.key = t.key → s = t
  defined : ∀ r ∈ db.task_runs.rows, ∃ run ∈ db.workflow_runs.rows, ∃ task ∈ db.tasks.rows,
    run.id = r.run_id ∧ task.id = r.task_id ∧ task.workflow_id = run.workflow_id
  whole : ∀ run ∈ db.workflow_runs.rows,
    (∀ task ∈ db.tasks.rows, task.workflow_id = run.workflow_id →
      ∃ r ∈ db.task_runs.rows, r.run_id = run.id ∧ r.task_id = task.id) ∧
    ∃ r ∈ db.task_runs.rows, r.run_id = run.id
  unique : db.RowsUnique

theorem Inv.toMaterialised (hinv : Inv checks db) : db.Materialised where
  keys := hinv.definitions.keys
  defined r hr := by
    obtain ⟨run, hrun, task, htask, -, h1, h2, h3, -⟩ := hinv.defined r hr
    exact ⟨run, hrun, task, htask, h1, h2, h3⟩
  whole := hinv.materialised
  unique := hinv.unique

namespace Db.Materialised

/-- A row of a run is for a task of the run's workflow. -/
theorem task (h : db.Materialised) (hrun : run ∈ db.workflow_runs.rows) {r : TaskRun}
    (hr : r ∈ db.runTasks run.id) :
    ∃ task ∈ db.tasks.rows, task.id = r.task_id ∧ task.workflow_id = run.workflow_id := by
  obtain ⟨hr, hrun_id⟩ := Db.mem_runTasks.mp hr
  obtain ⟨run', hrun', task, htask, hid, htask_id, hworkflow⟩ := h.defined r hr
  have he : run' = run := db.workflow_runs.eq_of_key hrun' hrun (hid.trans hrun_id)
  exact ⟨task, htask, htask_id, he ▸ hworkflow⟩

/-- It has a row for each of them, -/
theorem row (h : db.Materialised) (hrun : run ∈ db.workflow_runs.rows) {task : Task}
    (htask : task ∈ db.tasks.rows) (hworkflow : task.workflow_id = run.workflow_id) :
    ∃ r ∈ db.runTasks run.id, r.task_id = task.id := by
  obtain ⟨r, hr, hrun_id, htask_id⟩ := (h.whole run hrun).1 task htask hworkflow
  exact ⟨r, Db.mem_runTasks.mpr ⟨hr, hrun_id⟩, htask_id⟩

/-- and only one. -/
theorem row_unique (h : db.Materialised) {r r' : TaskRun} (hr : r ∈ db.runTasks run_id)
    (hr' : r' ∈ db.runTasks run_id) (htask : r.task_id = r'.task_id) : r = r' := by
  obtain ⟨hr, hrun⟩ := Db.mem_runTasks.mp hr
  obtain ⟨hr', hrun'⟩ := Db.mem_runTasks.mp hr'
  exact h.unique r hr r' hr' (hrun.trans hrun'.symm) htask

end Db.Materialised

/-- The queue materialises nothing, and loses nothing. -/
theorem Continues.materialised (hm : db₀.Materialised) (h : Continues db₀ db) :
    db.Materialised where
  keys := by
    rw [h.tasks]
    exact hm.keys
  defined r hr := by
    obtain ⟨r₀, hr₀, hsteps⟩ := h.evolves.row_before hr
    obtain ⟨-, k2, k3⟩ := RowStep.keeps_of_steps hsteps
    obtain ⟨run₀, hrun₀, task, htask, hid, htask_id, hworkflow⟩ := hm.defined r₀ hr₀
    obtain ⟨run, hrun, hrefreshed⟩ := h.runs run₀ hrun₀
    obtain ⟨hid', hworkflow', -⟩ := RunStep.keeps_of_steps hrefreshed
    rw [h.tasks]
    exact ⟨run, hrun, task, htask, hid'.trans (hid.trans k2.symm), htask_id.trans k3.symm,
      hworkflow.trans hworkflow'.symm⟩
  whole run hrun := by
    obtain ⟨run₀, hrun₀, hrefreshed⟩ := h.run_before hrun
    obtain ⟨hid, hworkflow, -⟩ := RunStep.keeps_of_steps hrefreshed
    have hlater : ∀ r₀ ∈ db₀.task_runs.rows, r₀.run_id = run₀.id →
        ∃ r ∈ db.task_runs.rows, r.run_id = run.id ∧ r.task_id = r₀.task_id := by
      intro r₀ hr₀ hrun_id
      obtain ⟨r, hr, hsteps⟩ := h.evolves.row_after hr₀
      obtain ⟨-, k2, k3⟩ := RowStep.keeps_of_steps hsteps
      exact ⟨r, hr, k2.trans (hrun_id.trans hid.symm), k3⟩
    obtain ⟨hall, r₀, hr₀, hsome⟩ := hm.whole run₀ hrun₀
    rw [h.tasks]
    refine ⟨fun task htask hw => ?_, ?_⟩
    · obtain ⟨r₁, hr₁, hrun_id, htask_id⟩ := hall task htask (hw.trans hworkflow)
      obtain ⟨r, hr, hr_run, hr_task⟩ := hlater r₁ hr₁ hrun_id
      exact ⟨r, hr, hr_run, hr_task.trans htask_id⟩
    · obtain ⟨r, hr, hr_run, -⟩ := hlater r₀ hr₀ hsome
      exact ⟨r, hr, hr_run⟩
  unique r hr r' hr' hrun htask := by
    obtain ⟨s, hs, hsteps⟩ := h.evolves.row_before hr
    obtain ⟨s', hs', hsteps'⟩ := h.evolves.row_before hr'
    obtain ⟨k1, k2, k3⟩ := RowStep.keeps_of_steps hsteps
    obtain ⟨k1', k2', k3'⟩ := RowStep.keeps_of_steps hsteps'
    have he : s = s' := hm.unique s hs s' hs' (k2.symm.trans (hrun.trans k2'))
      (k3.symm.trans (htask.trans k3'))
    exact db.task_runs.eq_of_key hr hr' (by rw [k1, k1', he])

/-- What a reply needs to know of a finished run: its record, and tasks that agree with it. -/
def WorkflowRun.RecordOf (run : WorkflowRun) (db : Db) : Prop :=
  run.state.is_terminal = true → run.finished_at.isSome = true ∧
    (∀ s ∈ db.taskStates run.id, s.is_terminal = true) ∧
      run.state = derive_run_state (db.taskStates run.id)

theorem map_eq_of_forall₂ {α β γ : Type} {R : α → β → Prop} {f : α → γ} {g : β → γ}
    (hR : ∀ a b, R a b → g b = f a) {l : List α} {out : List β} (h : List.Forall₂ R l out) :
    out.map g = l.map f := by
  induction h with
  | nil => rfl
  | cons hab _ ih => rw [List.map_cons, List.map_cons, hR _ _ hab, ih]

/-- **What the handlers render.** The run row may be older than the rows of the tasks. -/
theorem shown_of_loaded (h : db.Materialised)
    (hrun : run ∈ db.workflow_runs.rows) {old : WorkflowRun} (hid : run.id = old.id)
    (hworkflow : run.workflow_id = old.workflow_id) (hrecord : old.RecordOf db) :
    ∃ reply, Api.to_response
        ⟨old, (db.runTasks old.id).map (fun r => (r, db.tasks.get r.task_id))⟩ = .ok reply ∧
      reply.state = old.state ∧ Shown db old.id reply := by
  -- Every row has its task.
  have htask : ∀ r ∈ db.runTasks old.id, ∃ task ∈ db.tasks.rows, task.id = r.task_id ∧
      task.workflow_id = old.workflow_id ∧ db.tasks.get r.task_id = some task := by
    intro r hr
    rw [← hid] at hr
    obtain ⟨task, htask, htask_id, hw⟩ := h.task hrun hr
    exact ⟨task, htask, htask_id, hw.trans hworkflow, Table.get_eq_some.mpr ⟨htask, htask_id⟩⟩
  obtain ⟨responses, hresponses⟩ := exists_forall₂ (l := db.runTasks old.id)
    (R := fun r t => r ∈ db.runTasks old.id ∧ ∃ task ∈ db.tasks.rows, task.id = r.task_id ∧
      task.workflow_id = old.workflow_id ∧ db.tasks.get r.task_id = some task ∧
      Api.toTaskResponse (r, some task) = .ok t) (fun r hr => by
        obtain ⟨task, hmem, hid, hw, hget⟩ := htask r hr
        exact ⟨_, hr, task, hmem, hid, hw, hget, rfl⟩)
  have hmapM : ((db.runTasks old.id).map (fun r => (r, db.tasks.get r.task_id))).mapM
      Api.toTaskResponse = .ok responses := by
    refine mapM_ok_iff.mpr (List.forall₂_map_left_iff.mpr (hresponses.imp ?_))
    rintro r t ⟨-, task, -, -, -, hget, hok⟩
    rw [hget]
    exact hok
  have hperm : (responses.insertionSort (fun a b => a.key ≤ b.key)).Perm responses :=
    List.perm_insertionSort _ _
  -- The keys of the responses are those of the tasks, and no two rows share one.
  have hkeys : responses.map TaskRunResponse.key = (db.runTasks old.id).map
      (fun r => ((db.tasks.get r.task_id).map Task.key).getD "") := by
    refine map_eq_of_forall₂ ?_ hresponses
    rintro r t ⟨-, task, -, -, -, hget, hok⟩
    cases hok
    rw [hget]
    rfl
  have hnodup : (responses.map TaskRunResponse.key).Nodup := by
    rw [hkeys]
    refine List.Nodup.map_on (fun r hr r' hr' he => ?_)
      ((List.Nodup.of_map _ db.task_runs.nodup).filter _)
    obtain ⟨task, hmem, hid, hw, hget⟩ := htask r hr
    obtain ⟨task', hmem', hid', hw', hget'⟩ := htask r' hr'
    rw [hget, hget'] at he
    have hsame := h.keys task hmem task' hmem' (hw.trans hw'.symm) he
    exact h.row_unique hr hr' (by rw [← hid, hsame, hid'])
  have hstates : responses.map TaskRunResponse.state = db.taskStates old.id := by
    refine map_eq_of_forall₂ ?_ hresponses
    rintro r t ⟨-, task, -, -, -, -, hok⟩
    cases hok
    rfl
  refine ⟨_, by rw [Api.to_response, hmapM]; rfl, rfl, rfl, ?_, fun task hmem hw => ?_,
    fun t ht => ?_, fun hterminal => ?_⟩
  · have hsorted : (responses.insertionSort (fun a b => a.key ≤ b.key)).Pairwise
        (fun a b => a.key ≤ b.key) := List.pairwise_insertionSort _ _
    have hdistinct := List.pairwise_map.mp ((hperm.map TaskRunResponse.key).nodup_iff.mpr hnodup)
    exact List.pairwise_map.mpr ((hsorted.and hdistinct).imp
      (fun hab => lt_of_le_of_ne hab.1 hab.2))
  · obtain ⟨r, hr, htask_id⟩ := h.row hrun hmem (hw.trans hworkflow.symm)
    rw [hid] at hr
    obtain ⟨task', hmem', hid', hw', hget⟩ := htask r hr
    have he : task' = task := db.tasks.eq_of_key hmem' hmem (hid'.trans htask_id)
    have hkey : task.key ∈ responses.map TaskRunResponse.key := by
      rw [hkeys]
      exact List.mem_map.mpr ⟨r, hr, by rw [hget, he]; rfl⟩
    obtain ⟨t, ht, htkey⟩ := List.mem_map.mp hkey
    exact ⟨t, hperm.mem_iff.mpr ht, htkey⟩
  · obtain ⟨r, -, hr, task, hmem, hid, hw, -, hok⟩ :=
      exists_left_of_forall₂ hresponses (hperm.mem_iff.mp ht)
    exact ⟨r, hr, task, hmem, hid, hw, hok⟩
  · obtain ⟨hfinished, hall, hstate⟩ := hrecord hterminal
    refine ⟨hfinished, fun t ht => ?_, ?_⟩
    · refine hall t.state ?_
      rw [← hstates]
      exact List.mem_map_of_mem (hperm.mem_iff.mp ht)
    · rw [show (RunResponse.state _) = old.state from rfl, hstate, ← hstates]
      exact derive_congr (fun s => (hperm.map TaskRunResponse.state).symm.mem_iff)

end Loaded

/-! ## What a client is shown -/

section Shown

variable {s s₁ s₂ : Queue} {run : WorkflowRun}

/-- A run row that was read at one moment, with the rows of its tasks at a later one. -/
theorem Interleaved.shown (h : Interleaved checks anyWrite anyCommit s₁)
    (hleads : Queue.Leads checks s₁ s₂) (hrun : run ∈ s₁.committed.workflow_runs.rows) :
    ∃ reply, Api.to_response ⟨run, (s₂.committed.runTasks run.id).map
        (fun r => (r, s₂.committed.tasks.get r.task_id))⟩ = .ok reply ∧
      reply.state = run.state ∧ Shown s₂.committed run.id reply := by
  obtain ⟨db₀, hrequested, horigin⟩ := h.origin
  have hinv := hrequested.inv
  obtain ⟨-, hcontinues⟩ := h.continues hleads
  obtain ⟨run', hrun', hsteps⟩ := hcontinues.runs run hrun
  obtain ⟨hid, hworkflow, -⟩ := RunStep.keeps_of_steps hsteps
  refine shown_of_loaded ((horigin.trans hcontinues).materialised hinv.toMaterialised) hrun' hid
    hworkflow (fun hterminal => ?_)
  -- What the record says was true when it was read, and terminal states last.
  obtain ⟨hall, hstate, hfinished⟩ := recorded_finished_is_finished h run hrun hterminal
  have hstates : ∀ st ∈ s₁.committed.taskStates run.id, st.is_terminal = true := by
    intro st hst
    obtain ⟨r, hr, rfl⟩ := List.mem_map.mp hst
    exact hall r hr
  have hsame := taskStates_of_terminal (horigin.evolves.lawful hinv.good.lawful)
    hcontinues.evolves hstates
  rw [hsame]
  exact ⟨hfinished, hstates, hstate⟩

/-- What loading a run comes to, when its two statements see different moments. -/
theorem watching_get_with_tasks {σ : Type} {R : σ → σ → Prop} {view : σ → Db} {t : σ}
    {Q : σ → Except Exn (Option LoadedRun) → Prop}
    (hnone : ∀ t₁, R t t₁ → (view t₁).workflow_runs.get run_id = none → Q t₁ (.ok none))
    (hsome : ∀ t₁ t₂ run, R t t₁ → R t₁ t₂ → (view t₁).workflow_runs.get run_id = some run →
      Q t₂ (.ok (some ⟨run, ((view t₂).runTasks run_id).map
        (fun r => (r, (view t₂).tasks.get r.task_id))⟩))) :
    Watching R view (get_with_tasks run_id) t Q := by
  intro t₁ ht₁
  cases hget : (view t₁).workflow_runs.get run_id with
  | none =>
      dsimp only
      rw [hget]
      exact hnone t₁ ht₁ hget
  | some run =>
      dsimp only
      rw [hget]
      exact fun t₂ ht₂ => hsome t₁ t₂ run ht₁ ht₂ hget

/-- **`GET /runs/{run_id}` while the workers go on.** A run that exists is shown with all
tasks of its workflow, and never as finished with a task that is not; a run that does not
exist is a 404; nothing else comes of the request. -/
theorem run_shown_whole (h : Interleaved checks anyWrite anyCommit s) (lib : Stdlib)
    (run_id : UUID) :
    Watching (Queue.Leads checks) Sys.committed (Api.get_run lib run_id) s (fun s' outcome =>
      ((∃ run ∈ s.committed.workflow_runs.rows, run.id = run_id) ∧
        ∃ reply, outcome = .ok reply ∧ Shown s'.committed run_id reply) ∨
      ((∀ run ∈ s.committed.workflow_runs.rows, run.id ≠ run_id) ∧
        outcome = .error (.NotFoundError ("run " ++ lib.str run_id ++ " not found")))) := by
  refine Watching.bind (watching_get_with_tasks (fun s₁ hleads hget => ?_)
    (fun s₁ s₂ run hleads hleads' hget => ?_))
  · refine Or.inr ⟨fun run hrun hid => ?_, rfl⟩
    obtain ⟨run', hrun', hid'⟩ := (h.continues hleads).2.evolves.run_after hrun
    exact Table.get_eq_none.mp hget run' hrun' (hid'.trans hid)
  · obtain ⟨hrun, rfl⟩ := Table.get_eq_some.mp hget
    obtain ⟨hs₁, hcontinues⟩ := h.continues hleads
    obtain ⟨run₀, hrun₀, hsteps⟩ := hcontinues.run_before hrun
    obtain ⟨reply, hok, -, hshown⟩ := hs₁.shown hleads' hrun
    exact Watching.lift _ (Or.inl ⟨⟨run₀, hrun₀, (RunStep.keeps_of_steps hsteps).1.symm⟩,
      reply, hok, hshown⟩)

/-- The run that two workers finish, as it is shown once they have. -/
theorem run_shown_whole_pair :
    Watching (Queue.Leads true) Sys.committed (Api.get_run sampleLib 10) ⟨claimedPair, []⟩
      (fun s' outcome => ∃ reply, outcome = .ok reply ∧ Shown s'.committed 10 reply) ∧
    (exec (store true) (Api.get_run sampleLib 10)
        (Queue.after true claimedPair oneByOne).committed).toOption.map
      (fun out => (out.2.state, out.2.tasks.map (fun t => (t.key, t.state))))
      = some (.SUCCEEDED, [("a", .SUCCEEDED), ("b", .SUCCEEDED)]) := by
  have hrun : ∃ run ∈ claimedPair.workflow_runs.rows, run.id = 10 := by decide +kernel
  refine ⟨(run_shown_whole (.start ⟨requested_claimedPair, rfl⟩) sampleLib 10).mono ?_,
    by decide +kernel⟩
  rintro s' outcome (⟨-, hreply⟩ | ⟨hnone, -⟩)
  · exact hreply
  · obtain ⟨run, hmem, hid⟩ := hrun
    exact absurd hid (hnone run hmem)

theorem Queue.Leads.trans {s s' s'' : Queue} (h : Queue.Leads checks s s')
    (h' : Queue.Leads checks s' s'') : Queue.Leads checks s s'' := by
  induction h' with
  | start hi => rwa [hi]
  | next _ hl hstep ih => exact .next ih hl hstep

/-- The rows of a page pass its filters, and no run is on it twice. -/
theorem list_page_rows {lib : Stdlib} {limit : ℕ} (hlimit : 1 ≤ limit) {cursor : Option String}
    {start : Option (Time ×ₗ UUID)} (hstart : startOf lib cursor = .ok start) (db : Db)
    (state : Option RunState) (workflow_id : Option UUID) :
    ∃ page, RunRepository.list_page lib db limit cursor state workflow_id = .ok page ∧
      page.items.length ≤ limit ∧ (page.items.map WorkflowRun.id).Nodup ∧
      ∀ run ∈ page.items, run ∈ db.workflow_runs.rows ∧ (∀ st ∈ state, run.state = st) ∧
        ∀ w ∈ workflow_id, run.workflow_id = w := by
  have hnodup : ((db.workflow_runs.rows.filter (fun run =>
      state.all (fun s => decide (run.state = s)) &&
        workflow_id.all (fun w => decide (run.workflow_id = w)))).map WorkflowRun.id).Nodup :=
    db.workflow_runs.nodup.sublist (List.filter_sublist.map _)
  have hkeys : ((db.workflow_runs.rows.filter (fun run =>
      state.all (fun s => decide (run.state = s)) &&
        workflow_id.all (fun w => decide (run.workflow_id = w)))).map
          (position WorkflowRun.created_at WorkflowRun.id)).Nodup := nodup_positions hnodup
  have hpage : Keyset.PageOf _ _ start _ _ _ := Keyset.page_spec hlimit hkeys
  refine ⟨_, listPage_eq hlimit hstart, Keyset.length_page_le _ _ _ _, ?_, fun run hrun => ?_⟩
  · -- Rows of one table with the same id are the same, and have the same position.
    refine List.Nodup.map_on (fun a ha b hb he => ?_)
      (hpage.sorted.imp (fun hlt he => by rw [he] at hlt; exact lt_irrefl _ hlt))
    exact db.workflow_runs.eq_of_key (List.mem_filter.mp (hpage.found a ha).1).1
      (List.mem_filter.mp (hpage.found b hb).1).1 he
  · obtain ⟨hmem, hpass⟩ := List.mem_filter.mp (hpage.found run hrun).1
    rw [Bool.and_eq_true, Option.all_eq_true, Option.all_eq_true] at hpass
    exact ⟨hmem, fun st hst => of_decide_eq_true (hpass.1 st hst),
      fun w hw => of_decide_eq_true (hpass.2 w hw)⟩

/-- The runs of a page, one after the other. -/
theorem watching_listedRuns (lib : Stdlib) {runs : List WorkflowRun}
    (hread : ∀ run ∈ runs, ∃ s₁, Interleaved checks anyWrite anyCommit s₁ ∧
      Queue.Leads checks s₁ s ∧ run ∈ s₁.committed.workflow_runs.rows)
    {ids : List UUID} (hids : ∀ id ∈ ids, ∃ run ∈ runs, run.id = id) :
    Watching (Queue.Leads checks) Sys.committed (Api.listedRuns lib runs ids) s (fun s' outcome =>
      Queue.Leads checks s s' ∧ ∃ items, outcome = .ok items ∧ List.Forall₂ (fun id item =>
        (∃ run ∈ runs, run.id = id ∧ item.state = run.state) ∧ ∃ s₂, Queue.Leads checks s s₂ ∧
          Queue.Leads checks s₂ s' ∧ Shown s₂.committed id item) ids items) := by
  induction ids generalizing s with
  | nil => exact ⟨.start rfl, [], rfl, .nil⟩
  | cons id ids ih =>
      obtain ⟨run₀, hrun₀, hid₀⟩ := hids id List.mem_cons_self
      cases hfind : runs.find? (fun run => run.id = id) with
      | none =>
          exact absurd (decide_eq_true hid₀) (List.find?_eq_none.mp hfind run₀ hrun₀)
      | some run =>
          have hid : run.id = id := by simpa using List.find?_some hfind
          obtain ⟨s₁, hs₁, hleads, hrun⟩ := hread run (List.mem_of_find?_eq_some hfind)
          refine Watching.bind ?_
          unfold Api.listedRun
          rw [hfind]
          intro s₂ hs₂
          obtain ⟨reply, hok, hstate, hshown⟩ := hs₁.shown (hleads.trans hs₂) hrun
          refine Watching.lift _ ?_
          rw [hok]
          refine Watching.bind ((ih (fun run hrun => ?_) (fun id hid => hids id
            (List.mem_cons_of_mem _ hid))).mono ?_)
          · obtain ⟨s₃, hs₃, hleads₃, hrun₃⟩ := hread run hrun
            exact ⟨s₃, hs₃, hleads₃.trans hs₂, hrun₃⟩
          · rintro s' outcome ⟨hs', items, rfl, hitems⟩
            refine ⟨hs₂.trans hs', reply :: items, rfl, .cons ⟨⟨run,
              List.mem_of_find?_eq_some hfind, hid, hstate⟩, s₂, hs₂, hs', hid ▸ hshown⟩
              (hitems.imp ?_)⟩
            rintro id item ⟨hrun, s₃, hs₃, hs₃', hitem⟩
            exact ⟨hrun, s₃, hs₂.trans hs₃, hs₃', hitem⟩

/-- **`GET /runs` while the workers go on.** A position that can be read gives a page of
runs that are each shown whole; each is in the state that was asked for, though its tasks
may be shown as they were after it had left that state. No run is on a page twice, and
there is no `KeyError` for one that was on it a moment before. -/
theorem page_shown_whole (h : Interleaved checks anyWrite anyCommit s) (lib : Stdlib)
    {max_page_size limit : ℕ} (hmax : 1 ≤ max_page_size) (hlimit : 1 ≤ limit)
    {cursor : Option String} {start : Option (Time ×ₗ UUID)}
    (hstart : startOf lib cursor = .ok start) (state : Option RunState) :
    Watching (Queue.Leads checks) Sys.committed (Api.list_runs lib max_page_size limit cursor state)
      s (fun s' outcome => ∃ page, outcome = .ok page ∧
        page.items.length ≤ min limit max_page_size ∧ (page.items.map RunResponse.id).Nodup ∧
        ∀ item ∈ page.items, (∀ st ∈ state, item.state = st) ∧ ∃ s₁, Queue.Leads checks s s₁ ∧
          Queue.Leads checks s₁ s' ∧ Shown s₁.committed item.id item) := by
  intro s₁ hs₁
  have hinter := (h.continues hs₁).1
  obtain ⟨page, hpage, hlength, hnodup, hrows⟩ := list_page_rows (le_min hlimit hmax) hstart
    s₁.committed state none
  dsimp only
  rw [hpage]
  dsimp only
  split
  · exact ⟨_, rfl, Nat.zero_le _, List.nodup_nil, fun item hitem => absurd hitem List.not_mem_nil⟩
  · intro s₂ hs₂
    -- Every run of the page is still there.
    have hthere : ∀ run ∈ page.items, (s₂.committed.workflow_runs.get run.id).isSome = true := by
      intro run hrun
      obtain ⟨run', hrun', hid⟩ := (hinter.continues hs₂).2.evolves.run_after (hrows run hrun).1
      rw [Table.get_eq_some.mpr ⟨hrun', hid⟩]
      rfl
    have hkept : page.items.filter (fun run => (s₂.committed.workflow_runs.get run.id).isSome)
        = page.items := List.filter_eq_self.mpr hthere
    dsimp only
    rw [hkept]
    have hlisted : ∀ run ∈ page.items, ∃ s₁ : Queue, Interleaved checks anyWrite anyCommit s₁ ∧
        Queue.Leads checks s₁ s₂ ∧ run ∈ s₁.committed.workflow_runs.rows :=
      fun run hrun => ⟨s₁, hinter, hs₂, (hrows run hrun).1⟩
    refine Watching.bind ((watching_listedRuns lib hlisted
      (fun id hid => List.mem_map.mp hid)).mono ?_)
    rintro s' outcome ⟨hs', items, rfl, hitems⟩
    have hids : items.map RunResponse.id = page.items.map WorkflowRun.id := by
      have hmap := map_eq_of_forall₂ (f := fun id => id) (g := RunResponse.id)
        (fun id item hitem => hitem.2.choose_spec.2.2.id) hitems
      rwa [List.map_id'] at hmap
    refine ⟨_, rfl, ?_, ?_, fun item hitem => ?_⟩
    · rw [← hitems.length_eq, List.length_map]
      exact hlength
    · rw [hids]
      exact hnodup
    · obtain ⟨id, -, ⟨run, hrun, -, hstate⟩, s₃, hs₃, hs₃', hshown⟩ :=
        exists_left_of_forall₂ hitems hitem
      refine ⟨fun st hst => hstate.trans ((hrows run hrun).2.1 st hst), s₃, ?_, hs₃', ?_⟩
      · exact (hs₁.trans hs₂).trans hs₃
      · rw [hshown.id]
        exact hshown

/-- The first page of the runs that are `PENDING`, while two workers finish the one there
is. -/
theorem page_shown_whole_pair :
    Watching (Queue.Leads true) Sys.committed (Api.list_runs sampleLib 100 20 none (some .PENDING))
      ⟨claimedPair, []⟩ (fun _ outcome => ∃ page, outcome = .ok page ∧
        ∀ item ∈ page.items, item.state = .PENDING) ∧
    claimedPair.workflow_runs.rows.map WorkflowRun.state = [.PENDING] := by
  refine ⟨(page_shown_whole (.start ⟨requested_claimedPair, rfl⟩) sampleLib (by decide) (by decide)
    (rfl : startOf sampleLib none = .ok none) (some .PENDING)).mono ?_, by decide +kernel⟩
  rintro s' outcome ⟨page, hok, -, -, hitems⟩
  exact ⟨page, hok, fun item hitem => (hitems item hitem).1 .PENDING rfl⟩

end Shown

end Conductor
