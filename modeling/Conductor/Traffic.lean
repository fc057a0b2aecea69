/-
The whole service under READ COMMITTED.

Publications and submissions are sessions here like the transactions of the queue, and
nothing is asked of the database they start on but that it was reached in this way. So
what is shown holds after an anomaly too: a run that lost the race of its last two
completions goes on to be read, cancelled and listed beside runs that are submitted later.

Every statement of every transaction keeps to what `Sessions` says of open sessions. From
that follow two rules: every database that is committed is sturdy, and what all commits keep
holds between any two moments.
-/
import Conductor.Lib.Moments
import Conductor.PostWorkflow
import Conductor.Sessions

set_option autoImplicit false

open Relational Txn

namespace Conductor

open RunRepository TaskQueueRepository WorkflowRepository

/-! ## The system -/

/-- One transaction of the service: of the queue, of the repositories alone, or of a handler
of the API. -/
inductive Deed where
  | queue (call : Call)
  | publish (p : Publish)
  | submit (ids : RunIds) (clock : Clock) (workflow_id : UUID) (trigger_payload : Option Dict)
  | create_workflow (ids : WorkflowIds) (now : Time) (body : WorkflowCreate)
  | create_run (fingerprint : RunCreate → String) (request : Api.PostRun)
  | cancel_run (lib : Stdlib) (clock : Clock) (run_id : UUID)

def Deed.body : Deed → Tx Unit
  | .queue call => do
      let _ ← call.body
      return ()
  | .publish p => do
      let _ ← create p.ids p.now p.name p.tasks p.description
      return ()
  | .submit ids clock workflow_id trigger_payload => do
      let _ ← submitRun ids clock workflow_id trigger_payload
      return ()
  | .create_workflow ids now body => do
      let _ ← Api.create_workflow ids now body
      return ()
  | .create_run fingerprint request => do
      let _ ← Api.create_run fingerprint request
      return ()
  | .cancel_run lib clock run_id => do
      let _ ← Api.cancel_run lib clock run_id
      return ()

abbrev Service := Sys Db Exn Unit Deed

/-- The states of the service, from sound definitions on which nothing has run yet. A
transaction that raises over its texts or over a float breaks off, as any may. -/
def Running (checks : Bool) : Service → Prop :=
  Lts.Reach (fun s => (Initial s.committed ∧ s.committed.Gapless) ∧ s.sessions = [])
    (fun s l s' => s.step (store checks) Deed.body l = s')

/-- The service goes on from `s` to `s'`. -/
abbrev Service.Leads (checks : Bool) : Service → Service → Prop :=
  Sys.Leads (store checks) Deed.body

variable {checks : Bool} {db db' own d : Db} {trace : List (Event Db)}

/-! ## Single statements -/

section Frames

/-- Rows that no definition is among. -/
theorem Authored.frame (h : Authored db own) (hworkflows : d.workflows = Table.empty)
    (htasks : d.tasks = Table.empty) (hedges : d.task_dependencies = Table.empty) :
    Authored db (d.overlay own) := by
  have hw : (d.overlay own).workflows = own.workflows := by
    rw [Db.overlay, hworkflows, Table.empty_overlay]
  have ht : (d.overlay own).tasks = own.tasks := by
    rw [Db.overlay, htasks, Table.empty_overlay]
  have he : (d.overlay own).task_dependencies = own.task_dependencies := by
    rw [Db.overlay, hedges, Table.empty_overlay]
  exact ⟨hw ▸ h.workflows, ht ▸ h.tasks, h.definitions.congr hw ht he⟩

/-- Before the edges are inserted. -/
theorem Db.Definitions.edgeless (hedges : db.task_dependencies = Table.empty)
    (hworkflows : ∀ t ∈ db.tasks.rows, ∃ w ∈ db.workflows.rows, w.id = t.workflow_id)
    (hkeys : ∀ s ∈ db.tasks.rows, ∀ t ∈ db.tasks.rows,
      s.workflow_id = t.workflow_id → s.key = t.key → s = t) : db.Definitions := by
  have hnone : ∀ p c, p ∉ db.parents c := by
    intro p c hp
    have hmem := Db.mem_parents.mp hp
    rw [hedges] at hmem
    cases hmem
  refine ⟨hworkflows, hkeys, fun p c hp => absurd hp (hnone p c), fun t ht => ?_⟩
  obtain ⟨p, -, hp⟩ := Relation.TransGen.tail'_iff.mp ht
  exact hnone p t hp

/-- Without runs there is nothing to say about them. -/
theorem Worked.idle (hruns : own.workflow_runs = Table.empty)
    (hrows : own.task_runs = Table.empty) : Worked checks db own trace := by
  refine ⟨fun run hrun => ?_, fun r hr => ?_, fun r hr => ?_, fun _ r hr => ?_⟩
  · rw [hruns] at hrun
    cases hrun
  all_goals
    rw [hrows] at hr
    cases hr

theorem Refreshes.mono {run : WorkflowRun} (h : Refreshes db trace run) (e : Event Db) :
    Refreshes db (e :: trace) run := by
  obtain ⟨v, hv, hderived⟩ := h.derived
  exact ⟨h.old, v, List.mem_cons_of_mem e hv, hderived⟩

/-- The run rows of a session stay as they are when it writes none. -/
theorem Worked.runs_frame (h : Worked checks db own trace) {e : Event Db}
    (hruns : (d.overlay own).workflow_runs = own.workflow_runs)
    (hworkflows : ∀ w ∈ (own.overlay db).workflows.rows,
      w ∈ ((d.overlay own).overlay db).workflows.rows) :
    ∀ run ∈ (d.overlay own).workflow_runs.rows,
      Refreshes db (e :: trace) run ∨ Starts db (d.overlay own) run := by
  intro run hrun
  rw [hruns] at hrun
  rcases h.runs run hrun with hrefreshes | hstarts
  · exact Or.inl (hrefreshes.mono e)
  · obtain ⟨w, hw, hid⟩ := hstarts.workflow
    exact Or.inr ⟨hstarts.new, hstarts.pending, hstarts.valid, hstarts.version, w,
      hworkflows w hw, hid⟩

/-- What passes the constraints of the schema satisfies the `CHECK`s. -/
theorem stored_of_validate {kind : Kind} {v : Db}
    (h : (store checks).validate kind v d = none) : d.Stored checks := by
  intro hck r hr
  rw [store_validate, Db.validate, Option.map_eq_none_iff, Option.or_eq_none_iff, if_pos hck] at h
  have hviolates := h.2
  simp only [Db.violates, Option.or_eq_none_iff, List.findSome?_eq_none_iff] at hviolates
  exact hviolates.2.2.2.2.1 r hr

theorem Db.Stored.overlay (h : own.Stored checks) (hd : d.Stored checks) :
    (d.overlay own).Stored checks := by
  intro hck r hr
  rcases Table.mem_overlay.mp hr with hr | ⟨hr, -⟩
  · exact hd hck r hr
  · exact h hck r hr

theorem overlay_runs (t : Table UUID WorkflowRun WorkflowRun.id) (db : Db) :
    Db.overlay { Db.empty with workflow_runs := t } db
      = { db with workflow_runs := t.overlay db.workflow_runs } := by
  simp [Db.overlay, Db.empty]

theorem overlay_rows (t : Table UUID TaskRun TaskRun.id) (db : Db) :
    Db.overlay { Db.empty with task_runs := t } db
      = { db with task_runs := t.overlay db.task_runs } := by
  simp [Db.overlay, Db.empty]

theorem overlay_keys (t : Table String IdempotencyKey IdempotencyKey.key) (db : Db) :
    Db.overlay { Db.empty with idempotency_keys := t } db
      = { db with idempotency_keys := t.overlay db.idempotency_keys } := by
  simp [Db.overlay, Db.empty]

end Frames

namespace Ahead

theorem start (hs : db.Sturdy checks) : Ahead checks db Db.empty [] where
  drafted := .start hs.gapless
  authored := ⟨fun _ h => absurd h List.not_mem_nil, fun _ h => absurd h List.not_mem_nil,
    initial_empty.definitions⟩
  worked := .idle rfl rfl
  seen _ hv := absurd hv List.not_mem_nil

theorem read (hs : db.Sturdy checks) (h : Ahead checks db own trace) :
    Ahead checks db own (.saw (own.overlay db) :: trace) where
  drafted := h.drafted.read
  authored := h.authored
  worked := ⟨fun run hrun => (h.worked.runs run hrun).imp_left (fun hr => hr.mono _),
    h.worked.rows, h.worked.unique, h.worked.stored⟩
  seen v hv := by
    rcases List.mem_cons.mp hv with he | hv
    · cases he
      exact ⟨h.lawful hs.lawful, .refl _⟩
    · exact h.seen v hv

/-- A write statement: what has been seen is there, if the rows can be laid over the view. -/
theorem write (h : Ahead checks db own trace)
    (hdrafted : Drafted db (d.overlay own) (.wrote d :: trace))
    (hauthored : Authored db (d.overlay own))
    (hworked : Worked checks db (d.overlay own) (.wrote d :: trace))
    (hlays : Lays (own.overlay db) d) : Ahead checks db (d.overlay own) (.wrote d :: trace) where
  drafted := hdrafted
  authored := hauthored
  worked := hworked
  seen v hv := by
    rcases List.mem_cons.mp hv with he | hv
    · cases he
    · rw [← show d.overlay (own.overlay db) = (d.overlay own).overlay db from
        (store checks).overlay_overlay d own db]
      exact ⟨(h.seen v hv).1, (h.seen v hv).2.trans hlays.keeps⟩

/-! ### The queue -/

/-- A statement of the queue rewrites rows that the session sees. -/
theorem queue (hs : db.Sturdy checks) (h : Ahead checks db own trace) {P : TaskRun → Prop}
    (hd : QueueWrite P (own.overlay db) d) {kind : Kind}
    (hvalid : (store checks).validate kind (own.overlay db) d = none) :
    Ahead checks db (d.overlay own) (.wrote d :: trace) := by
  have hruns : (d.overlay own).workflow_runs = own.workflow_runs := by
    rw [Db.overlay, hd.runs, Table.empty_overlay]
  have hworkflows : (d.overlay own).workflows = own.workflows := by
    rw [Db.overlay, hd.workflows, Table.empty_overlay]
  -- Every row of the session was there in its view, as it is or before a rewrite.
  have hbefore : ∀ r ∈ (d.overlay own).task_runs.rows,
      ∃ r₀ ∈ (own.overlay db).task_runs.rows, RowSteps r₀ r := by
    intro r hr
    rcases Table.mem_overlay.mp hr with hr | ⟨hr, -⟩
    · obtain ⟨-, r₀, hr₀, hstep⟩ := hd.rows r hr
      exact ⟨r₀, hr₀, .single hstep⟩
    · exact ⟨r, Table.mem_overlay.mpr (Or.inl hr), .refl⟩
  have hunique := h.unique hs.rooted hs.unique
  refine h.write (h.drafted.insert hd.workflows) (h.authored.frame hd.workflows hd.tasks hd.edges)
    ⟨h.worked.runs_frame hruns (fun w hw => ?_), fun r hr => ?_, fun r hr r' hr' hrun htask => ?_,
      h.worked.stored.overlay (stored_of_validate hvalid)⟩
    ⟨fun r hr => ?_, fun run hrun => ?_, fun w hw => ?_, fun t ht => ?_⟩
  · rw [Db.overlay, hworkflows]
    exact hw
  · obtain ⟨r₀, hr₀, hsteps⟩ := hbefore r hr
    obtain ⟨k1, k2, -⟩ := RowStep.keeps_of_steps hsteps
    rcases Table.mem_overlay.mp hr₀ with hr₀ | ⟨hr₀, -⟩
    · rcases h.worked.rows r₀ hr₀ with ⟨r₁, hr₁, hsteps₁⟩ | henters
      · exact Or.inl ⟨r₁, hr₁, hsteps₁.trans hsteps⟩
      · refine Or.inr ⟨by rw [k1]; exact henters.new,
          RowStep.lawful_of_steps hsteps henters.lawful, ?_⟩
        rw [k2, hruns]
        exact henters.run
    · exact Or.inl ⟨r₀, hr₀, hsteps⟩
  · obtain ⟨r₀, hr₀, hsteps⟩ := hbefore r hr
    obtain ⟨r₀', hr₀', hsteps'⟩ := hbefore r' hr'
    obtain ⟨k1, k2, k3⟩ := RowStep.keeps_of_steps hsteps
    obtain ⟨k1', k2', k3'⟩ := RowStep.keeps_of_steps hsteps'
    have he := hunique r₀ hr₀ r₀' hr₀' (k2.symm.trans (hrun.trans k2'))
      (k3.symm.trans (htask.trans k3'))
    exact (d.overlay own).task_runs.eq_of_key hr hr' (by rw [k1, k1', he])
  · obtain ⟨-, r₀, hr₀, hstep⟩ := hd.rows r hr
    exact Or.inl ⟨r₀, hr₀, .single hstep⟩
  · rw [hd.runs] at hrun
    cases hrun
  · rw [hd.workflows] at hw
    cases hw
  · rw [hd.tasks] at ht
    cases ht

/-- A refresh by a session that has written no run row, of what it has seen. -/
theorem refresh (hs : db.Sturdy checks) (h : Ahead checks db own trace)
    (hown : own.workflow_runs = Table.empty) (hworkflows : d.workflows = Table.empty)
    (htasks : d.tasks = Table.empty) (hedges : d.task_dependencies = Table.empty)
    (hrows : d.task_runs = Table.empty) {v : Db} {run_id : UUID} {now : Time}
    (hv : .saw v ∈ trace)
    (hruns : ∀ run ∈ d.workflow_runs.rows, ∃ run₀ ∈ (own.overlay db).workflow_runs.rows,
      run₀.id = run_id ∧ run = refreshed now (derive_run_state (v.taskStates run_id)) run₀) :
    Ahead checks db (d.overlay own) (.wrote d :: trace) ∧
      Complete (d.overlay own) (.wrote d :: trace) := by
  have hrows' : (d.overlay own).task_runs = own.task_runs := by
    rw [Db.overlay, hrows, Table.empty_overlay]
  have hruns' : (d.overlay own).workflow_runs = d.workflow_runs := by
    rw [Db.overlay, hown, Table.overlay_empty]
  have hview : (own.overlay db).workflow_runs = db.workflow_runs := by
    rw [Db.overlay, hown, Table.empty_overlay]
  rw [hview] at hruns
  -- A row of the session counts more refreshes than the one it comes from.
  have hrefreshes : ∀ run ∈ (d.overlay own).workflow_runs.rows,
      Refreshes db (.wrote d :: trace) run ∧ 0 < run.version := by
    intro run hrun
    rw [hruns'] at hrun
    obtain ⟨run₀, hrun₀, rfl, rfl⟩ := hruns run hrun
    have hversion := (hs.valid run₀ hrun₀).2
    refine ⟨⟨⟨run₀, hrun₀, .single ⟨now, _, rfl⟩, Int.lt_succ run₀.version⟩, v,
      List.mem_cons_of_mem _ hv, refreshed_derived now _ run₀⟩, ?_⟩
    exact Int.lt_add_one_of_le hversion
  have henters : ∀ r ∈ own.task_runs.rows, ¬ Enters db own r := by
    intro r _ he
    obtain ⟨run, hrun, -⟩ := he.run
    rw [hown] at hrun
    cases hrun
  refine ⟨h.write (h.drafted.insert hworkflows) (h.authored.frame hworkflows htasks hedges)
    ⟨fun run hrun => Or.inl (hrefreshes run hrun).1, ?_, ?_, ?_⟩
    ⟨fun r hr => ?_, fun run hrun => ?_, fun w hw => ?_, fun t ht => ?_⟩, ?_⟩
  · rw [hrows']
    exact fun r hr => (h.worked.rows r hr).imp_right (fun he => absurd he (henters r hr))
  · rw [Db.RowsUnique, hrows']
    exact h.worked.unique
  · rw [Db.Stored, hrows']
    exact h.worked.stored
  · rw [hrows] at hr
    cases hr
  · obtain ⟨run₀, hrun₀, -, rfl⟩ := hruns run hrun
    rw [hview]
    exact Or.inl ⟨run₀, hrun₀, .single ⟨now, _, rfl⟩⟩
  · rw [hworkflows] at hw
    cases hw
  · rw [htasks] at ht
    cases ht
  · intro run hrun hzero
    exact absurd hzero (hrefreshes run hrun).2.ne'

/-! ### Publishing -/

section Publishing

variable (h : Ahead checks db own trace)
  (hown : own.workflow_runs = Table.empty ∧ own.task_runs = Table.empty)
include h hown

/-- The row of a new workflow. -/
theorem insert_workflow {v : Db} {w : Workflow} {t : Table UUID Workflow Workflow.id}
    (htasks : own.tasks = Table.empty) (hedges : own.task_dependencies = Table.empty)
    (ht : t.rows = [w]) (hv : .saw v ∈ trace)
    (hversion : w.version = (v.versions w.name).length + 1)
    (hvalid : (store checks).validate .insert (own.overlay db)
      { Db.empty with workflows := t } = none) :
    Ahead checks db (Db.overlay { Db.empty with workflows := t } own)
      (.wrote { Db.empty with workflows := t } :: trace) := by
  have hdrafted := h.drafted.publish ht hv hversion hvalid
  obtain ⟨⟨hids, -⟩, -⟩ := validate_insertWorkflows.mp hvalid
  refine h.write hdrafted ?_ (.idle ?_ ?_) ⟨fun r hr => absurd hr List.not_mem_nil,
    fun run hrun => absurd hrun List.not_mem_nil,
    fun u hu => Table.get_eq_none.mpr (fun x hx => hids u hu x hx),
    fun t ht => absurd ht List.not_mem_nil⟩
  · have hnone : ∀ s, s ∉ (Db.overlay { Db.empty with workflows := t } own).tasks.rows := by
      intro s hmem
      rw [overlay_workflows, show Db.tasks _ = own.tasks from rfl, htasks] at hmem
      cases hmem
    refine ⟨hdrafted.new, fun s hmem => absurd hmem (hnone s), .edgeless ?_
      (fun s hmem => absurd hmem (hnone s)) (fun s hmem => absurd hmem (hnone s))⟩
    rw [overlay_workflows]
    exact hedges
  · rw [overlay_workflows]
    exact hown.1
  · rw [overlay_workflows]
    exact hown.2

/-- The tasks of a workflow that the session has inserted. -/
theorem insert_tasks (hs : db.Sturdy checks) {w : Workflow} {t : Table UUID Task Task.id}
    (htasks : own.tasks = Table.empty) (hedges : own.task_dependencies = Table.empty)
    (hw : w ∈ own.workflows.rows) (ht : ∀ task ∈ t.rows, task.workflow_id = w.id)
    (hvalid : (store checks).validate .insert (own.overlay db)
      { Db.empty with tasks := t } = none) :
    Ahead checks db (Db.overlay { Db.empty with tasks := t } own)
      (.wrote { Db.empty with tasks := t } :: trace) := by
  obtain ⟨⟨hids, -, hkeys⟩, -⟩ := validate_insertTasks.mp hvalid
  have hview : (own.overlay db).tasks = db.tasks := by
    rw [Db.overlay, htasks, Table.empty_overlay]
  rw [hview] at hids
  have hnew : ∀ task ∈ t.rows, db.tasks.get task.id = none :=
    fun task htask => Table.get_eq_none.mpr (fun x hx => hids task htask x hx)
  refine h.write (h.drafted.insert rfl) ?_ (.idle ?_ ?_) ⟨fun r hr => absurd hr List.not_mem_nil,
    fun run hrun => absurd hrun List.not_mem_nil, fun u hu => absurd hu List.not_mem_nil,
    fun task htask => ?_⟩
  · rw [overlay_tasks, htasks, Table.overlay_empty]
    refine ⟨h.authored.workflows, hnew, .edgeless hedges
      (fun task hmem => ⟨w, hw, (ht task hmem).symm⟩) (fun s hmem s' hmem' hworkflow hkey => ?_)⟩
    exact List.inj_on_of_nodup_map hkeys hmem hmem' (by rw [hworkflow, hkey])
  · rw [overlay_tasks]
    exact hown.1
  · rw [overlay_tasks]
    exact hown.2
  · -- The workflow is the session's own, so no committed task is one of its tasks.
    rw [hview]
    refine ⟨hnew task htask, fun t₀ ht₀ he => ?_⟩
    obtain ⟨w₀, hw₀, hid₀⟩ := hs.definitions.workflows t₀ ht₀
    exact Table.get_eq_none.mp (h.authored.workflows w hw) w₀ hw₀
      (hid₀.trans (he.trans (ht task htask)))

/-- The edges between tasks that the session has inserted. -/
theorem insert_edges {t : Table (UUID × UUID) TaskDependency TaskDependency.pk}
    (hd : (Db.overlay { Db.empty with task_dependencies := t } own).Definitions) :
    Ahead checks db (Db.overlay { Db.empty with task_dependencies := t } own)
      (.wrote { Db.empty with task_dependencies := t } :: trace) := by
  refine h.write (h.drafted.insert rfl) ?_ (.idle ?_ ?_) ⟨fun r hr => absurd hr List.not_mem_nil,
    fun run hrun => absurd hrun List.not_mem_nil, fun u hu => absurd hu List.not_mem_nil,
    fun task htask => absurd htask List.not_mem_nil⟩
  · refine ⟨?_, ?_, hd⟩
    · rw [overlay_dependencies]
      exact h.authored.workflows
    · rw [overlay_dependencies]
      exact h.authored.tasks
  · rw [overlay_dependencies]
    exact hown.1
  · rw [overlay_dependencies]
    exact hown.2

end Publishing

/-! ### Submitting -/

section Submitting

variable (h : Ahead checks db own trace) (hrows : own.task_runs = Table.empty)
include h hrows

/-- The row of a new run, for a workflow that the session has seen. -/
theorem insert_run {v : Db} {w : Workflow} {run : WorkflowRun}
    {t : Table UUID WorkflowRun WorkflowRun.id} (hruns : own.workflow_runs = Table.empty)
    (ht : t.rows = [run]) (hv : .saw v ∈ trace) (hw : w ∈ v.workflows.rows)
    (hworkflow : run.workflow_id = w.id) (hstate : run.state = .PENDING)
    (hfinished : run.finished_at = none) (hversion : run.version = 0)
    (hvalid : (store checks).validate .insert (own.overlay db)
      { Db.empty with workflow_runs := t } = none) :
    Ahead checks db (Db.overlay { Db.empty with workflow_runs := t } own)
      (.wrote { Db.empty with workflow_runs := t } :: trace) := by
  obtain ⟨hids, -⟩ := validate_insertRuns.mp hvalid
  have hview : (own.overlay db).workflow_runs = db.workflow_runs := by
    rw [Db.overlay, hruns, Table.empty_overlay]
  rw [hview] at hids
  have hnew : ∀ r ∈ t.rows, db.workflow_runs.get r.id = none :=
    fun r hr => Table.get_eq_none.mpr (fun x hx => hids r hr x hx)
  have hworked : Worked checks db (Db.overlay { Db.empty with workflow_runs := t } own)
      (.wrote { Db.empty with workflow_runs := t } :: trace) := by
    rw [overlay_runs, hruns, Table.overlay_empty]
    refine ⟨fun r hr => Or.inr ?_, ?_, ?_, ?_⟩
    · have hnone := hnew r hr
      rw [show Db.workflow_runs _ = t from rfl, ht, List.mem_singleton] at hr
      subst hr
      refine ⟨hnone, hstate, ?_, hversion, w, (h.seen v hv).2.workflows w hw, hworkflow.symm⟩
      rw [WorkflowRun.violates, hfinished]
      rfl
    · rw [show Db.task_runs _ = own.task_runs from rfl, hrows]
      exact fun r hr => absurd hr List.not_mem_nil
    · exact h.worked.unique
    · exact h.worked.stored
  refine h.write (h.drafted.insert rfl) (h.authored.frame rfl rfl rfl) hworked
    ⟨fun r hr => absurd hr List.not_mem_nil, fun r hr => Or.inr ?_,
      fun u hu => absurd hu List.not_mem_nil, fun task htask => absurd htask List.not_mem_nil⟩
  rw [hview]
  exact hnew r hr

/-- The task rows of a run that the session has inserted. -/
theorem insert_rows (hs : db.Sturdy checks) {run : WorkflowRun} {t : Table UUID TaskRun TaskRun.id}
    (hrun : run ∈ own.workflow_runs.rows) (hversion : run.version = 0)
    (ht : ∀ r ∈ t.rows, r.run_id = run.id ∧ r.Lawful)
    (hvalid : (store checks).validate .insert (own.overlay db)
      { Db.empty with task_runs := t } = none) :
    Ahead checks db (Db.overlay { Db.empty with task_runs := t } own)
      (.wrote { Db.empty with task_runs := t } :: trace) := by
  obtain ⟨⟨hids, -, hplaces⟩, -⟩ := validate_insertTaskRuns.mp hvalid
  have hview : (own.overlay db).task_runs = db.task_runs := by
    rw [Db.overlay, hrows, Table.empty_overlay]
  rw [hview] at hids
  -- A row of version 0 has not been refreshed, so the run is not a committed one.
  have hnone : db.workflow_runs.get run.id = none := by
    rcases h.worked.runs run hrun with hrefreshes | hstarts
    · obtain ⟨run₀, hrun₀, -, hlt⟩ := hrefreshes.old
      have hle := (hs.valid run₀ hrun₀).2
      rw [hversion] at hlt
      exact absurd hlt (not_lt.mpr hle)
    · exact hstarts.new
  have henters : ∀ r ∈ t.rows, Enters db { own with task_runs := t } r := fun r hr =>
    ⟨Table.get_eq_none.mpr (fun x hx => hids r hr x hx), (ht r hr).2, run, hrun,
      (ht r hr).1.symm, hnone⟩
  have hworked : Worked checks db (Db.overlay { Db.empty with task_runs := t } own)
      (.wrote { Db.empty with task_runs := t } :: trace) := by
    have hruns := h.worked.runs_frame (d := { Db.empty with task_runs := t })
      (e := .wrote { Db.empty with task_runs := t })
    have hstored := h.worked.stored.overlay (stored_of_validate hvalid)
    rw [overlay_rows, hrows, Table.overlay_empty] at hruns hstored ⊢
    exact ⟨hruns rfl (fun w hw => hw), fun r hr => Or.inr (henters r hr),
      fun r hr r' hr' hid htask => List.inj_on_of_nodup_map hplaces hr hr' (by rw [hid, htask]),
      hstored⟩
  refine h.write (h.drafted.insert rfl) (h.authored.frame rfl rfl rfl) hworked
    ⟨fun r hr => Or.inr ?_, fun r hr => absurd hr List.not_mem_nil,
      fun u hu => absurd hu List.not_mem_nil, fun task htask => absurd htask List.not_mem_nil⟩
  rw [hview]
  exact ⟨(henters r hr).new, fun r₀ hr₀ => (henters r hr).run_ne hs.rooted hr₀⟩

end Submitting

/-- The row of an idempotency key. -/
theorem insert_key (h : Ahead checks db own trace)
    (t : Table String IdempotencyKey IdempotencyKey.key) :
    Ahead checks db (Db.overlay { Db.empty with idempotency_keys := t } own)
      (.wrote { Db.empty with idempotency_keys := t } :: trace) := by
  have hworked : Worked checks db (Db.overlay { Db.empty with idempotency_keys := t } own)
      (.wrote { Db.empty with idempotency_keys := t } :: trace) := by
    have hruns := h.worked.runs_frame (d := { Db.empty with idempotency_keys := t })
      (e := .wrote { Db.empty with idempotency_keys := t })
    rw [overlay_keys] at hruns ⊢
    exact ⟨hruns rfl (fun w hw => hw), fun r hr => (h.worked.rows r hr).imp_right
      (fun he => ⟨he.new, he.lawful, he.run⟩), h.worked.unique, h.worked.stored⟩
  exact h.write (h.drafted.insert rfl) (h.authored.frame rfl rfl rfl) hworked
    ⟨fun r hr => absurd hr List.not_mem_nil, fun run hrun => absurd hrun List.not_mem_nil,
      fun u hu => absurd hu List.not_mem_nil, fun task htask => absurd htask List.not_mem_nil⟩

end Ahead

/-! ## The transactions, statement by statement -/

/-- Without a run there is nothing left to insert. -/
theorem Complete.idle (h : own.workflow_runs = Table.empty) : Complete own trace := by
  intro run hrun
  rw [h] at hrun
  cases hrun

/-- More has been seen, and the run rows and their tasks are the same. -/
theorem Complete.mono {own' : Db} {trace' : List (Event Db)} (h : Complete own trace)
    (hruns : own'.workflow_runs = own.workflow_runs) (hrows : own'.task_runs = own.task_runs)
    (htrace : trace <:+ trace') : Complete own' trace' := by
  intro run hrun hversion
  rw [hruns] at hrun
  obtain ⟨v, hv, hcovered⟩ := h run hrun hversion
  refine ⟨v, htrace.mem hv, hcovered.some_task, ?_, ?_⟩
  · rw [hrows]
    exact hcovered.all_tasks
  · rw [hrows]
    exact hcovered.only_tasks

namespace Deed

section Outlines

variable {M : List (Event Db) → Db → Db → Prop} {α : Type}

/-- A program that only reads. -/
theorem outline_reads {p : Tx α} (hp : p.Writes (fun _ _ => False)) (own : Db)
    (trace : List (Event Db)) :
    Outline (store checks) (Db.Sturdy checks) (Ahead checks) M
      (fun _ own' trace' => own' = own ∧ trace <:+ trace') p own trace := by
  induction hp generalizing trace with
  | ret a => exact ⟨rfl, List.suffix_rfl⟩
  | raise e => trivial
  | read _ ih =>
      intro db hs h
      refine ⟨h.read hs, (ih _ _).mono _ ?_⟩
      rintro _ own' trace' ⟨rfl, htrace⟩
      exact ⟨rfl, (List.suffix_cons _ _).trans htrace⟩
  | write hstmt _ _ => exact (hstmt Db.empty).elim

/-- Statements of the queue, in a session that has written no run row. -/
theorem outline_queue {P : TaskRun → Prop} {p : Tx α} (hp : p.Writes (QueueWrite P))
    (hruns : own.workflow_runs = Table.empty) :
    Outline (store checks) (Db.Sturdy checks) (Ahead checks) M
      (fun _ own' _ => own'.workflow_runs = Table.empty) p own trace := by
  induction hp generalizing own trace with
  | ret a => exact hruns
  | raise e => trivial
  | read _ ih =>
      intro db hs h
      exact ⟨h.read hs, ih _ hruns⟩
  | write hstmt _ ih =>
      intro db₀ db free rows _ _ hs h _ hrows hvalid
      have hqueue : QueueWrite P (own.overlay db) rows := by
        rw [hrows]
        exact written_queueWrite hstmt _ _ free
      refine ⟨h.queue hs hqueue hvalid, ih _ ?_⟩
      show rows.workflow_runs.overlay own.workflow_runs = _
      rw [hqueue.runs, hruns, Table.empty_overlay]

theorem outline_refreshed (clock : Clock) (run_id : UUID)
    (hruns : own.workflow_runs = Table.empty) :
    Outline (store checks) (Db.Sturdy checks) (Ahead checks) M (fun _ => Complete)
      (refresh_run_state clock run_id) own trace := by
  intro db hs h
  refine ⟨h.read hs, ?_⟩
  intro db₀ db' free rows _ _ hs' h' _ hrows _
  have hmem : ∀ run ∈ rows.workflow_runs.rows, ∃ run₀ ∈ (own.overlay db').workflow_runs.rows,
      run₀.id = run_id ∧ run = refreshed clock.now
        (derive_run_state ((own.overlay db).taskStates run_id)) run₀ := by
    intro run hrun
    rw [hrows] at hrun
    obtain ⟨run₀, hmem, rfl⟩ := List.mem_map.mp (List.mem_filter.mp hrun).1
    obtain ⟨hrun₀, hid⟩ := List.mem_filter.mp hmem
    exact ⟨run₀, hrun₀, of_decide_eq_true hid, rfl⟩
  refine h'.refresh hs' hruns ?_ ?_ ?_ ?_ List.mem_cons_self hmem
  all_goals
    rw [hrows]
    exact restrict_empty _

theorem outline_cancel (clock : Clock) (run_id : UUID)
    (hruns : own.workflow_runs = Table.empty) :
    Outline (store checks) (Db.Sturdy checks) (Ahead checks) M (fun _ => Complete)
      (RunRepository.cancel clock run_id) own trace := by
  refine Outline.bind _ (outline_queue (writes_cancel _ _) hruns) (fun _ _ _ hruns => ?_)
  exact Outline.bind _ (outline_refreshed clock run_id hruns) (fun _ _ _ hcomplete => hcomplete)

theorem outline_call (call : Call) :
    Outline (store checks) (Db.Sturdy checks) (Ahead checks) M (fun _ => Complete) call.body
      Db.empty [] := by
  cases call with
  | claim lease_seconds clock tie worker_id limit =>
      exact Outline.bind _ (outline_queue (writes_claim_batch _ _ _ _ _) rfl)
        (fun _ _ _ hruns => .idle hruns)
  | renew lease_seconds clock task_run_id worker_id =>
      exact (outline_queue (writes_renew_lease _ _ _ _) rfl).mono _ (fun _ _ _ hruns => .idle hruns)
  | reap clock =>
      exact Outline.bind _ (outline_queue (writes_reap_expired_leases clock) rfl)
        (fun _ _ _ hruns => .idle hruns)
  | cancel clock run_id =>
      exact Outline.bind _ (outline_cancel clock run_id rfl) (fun _ _ _ hcomplete => hcomplete)
  | complete rounds report =>
      have hwrites : (recordResult rounds report).Writes (QueueWrite (fun _ => True)) := by
        unfold recordResult recordResult_with
        cases report.result with
        | success output => exact writes_any (writes_record_success _ _ _ _)
        | failure error => exact (writes_record_failure _ _ _ _ _ _).bind (fun _ => .ret _)
      refine Outline.bind _ (outline_queue hwrites rfl) (fun _ _ _ hruns => ?_)
      exact Outline.bind _ (outline_refreshed report.clock report.run_id hruns)
        (fun _ _ _ hcomplete => hcomplete)

theorem outline_publish (p : Publish) :
    Outline (store checks) (Db.Sturdy checks) (Ahead checks) M (fun _ => Complete)
      (create p.ids p.now p.name p.tasks p.description) Db.empty [] := by
  unfold create
  refine Outline.bind _ (Outline.lift _ (Q := fun _ own _ => own = Db.empty ∧ Checked p.tasks)
    (fun _ hchecked => ⟨rfl, checkSpecs_ok hchecked⟩)) ?_
  rintro _ own trace ⟨rfl, hchecked⟩
  refine Outline.bind _ (Q := fun version own trace' => own = Db.empty ∧
    ∃ v, .saw v ∈ trace' ∧ version = ((v.versions p.name).length : ℤ) + 1) ?_ ?_
  · -- The largest of 1, …, n is n.
    intro db hs h
    refine ⟨h.read hs, rfl, _, List.mem_cons_self, ?_⟩
    exact congrArg (· + 1) (h.drafted.gapless p.name).foldl_max
  rintro version _ trace ⟨rfl, v, hv, hversion⟩
  refine Outline.bind _ (outline_newTable (Q := fun t own trace' =>
    t.rows = [_] ∧ own = Db.empty ∧ .saw v ∈ trace') (fun t ht => ⟨ht, rfl, hv⟩)) ?_
  rintro row _ trace ⟨hrow, rfl, hv⟩
  refine Outline.bind _ (outline_flush (Q := fun _ own _ =>
      own = { Db.empty with workflows := row })
    (fun _ _ h hvalid => h.insert_workflow ⟨rfl, rfl⟩ rfl rfl hrow hv hversion hvalid) ?_) ?_
  · exact (overlay_workflows row Db.empty).trans (by
      rw [show Db.empty.workflows = Table.empty from rfl, Table.overlay_empty])
  rintro _ _ trace rfl
  refine Outline.bind _ (outline_newTable (Q := fun t own _ =>
    t.rows = p.tasks.map (newTask p.ids) ∧ own = { Db.empty with workflows := row })
    (fun t ht => ⟨ht, rfl⟩)) ?_
  rintro rows _ trace ⟨hrows, rfl⟩
  refine Outline.bind _ (outline_flush (Q := fun _ own _ =>
      own = { Db.empty with workflows := row, tasks := rows })
    (fun _ hs h hvalid => h.insert_tasks ⟨rfl, rfl⟩ hs rfl rfl (hrow ▸ List.mem_singleton_self _)
      (fun task htask => ?_) hvalid) ?_) ?_
  · rw [hrows] at htask
    obtain ⟨spec, -, rfl⟩ := List.mem_map.mp htask
    rfl
  · exact (overlay_tasks rows _).trans (by rw [show Db.tasks _ = Table.empty from rfl,
      Table.overlay_empty])
  rintro _ _ trace rfl
  refine Outline.bind _ (outline_newTable (Q := fun t own _ =>
    t.rows = newDependencies p.ids p.tasks ∧
      own = { Db.empty with workflows := row, tasks := rows })
    (fun t ht => ⟨ht, rfl⟩)) ?_
  rintro edges _ trace ⟨hedges, rfl⟩
  refine Outline.bind _ (outline_flush (Q := fun _ => Complete)
    (fun _ _ h _ => h.insert_edges ⟨rfl, rfl⟩ ?_) (.idle ?_)) (fun _ _ _ hcomplete => hcomplete)
  · -- What the session has written is what it would publish into an empty database.
    have hpublished : Published p.ids p.tasks Db.empty
        { Db.empty with workflows := row, tasks := rows, task_dependencies := edges } _ :=
      ⟨hchecked, rfl, fun _ h => absurd h List.not_mem_nil,
        fun _ _ _ h => absurd h List.not_mem_nil, hrows ▸ rows.nodup, hrow, hrows, hedges, rfl⟩
    rw [overlay_dependencies, show Db.task_dependencies _ = Table.empty from rfl,
      Table.overlay_empty]
    exact hpublished.definitions initial_empty.definitions
  · exact congrArg Db.workflow_runs (overlay_dependencies edges _)

/-- The part of a submission that starts a run of a workflow that has been seen. -/
theorem outline_create_run (ids : RunIds) (clock : Clock) {workflow : Workflow}
    (dependencies : OrderedDict String (List String)) (trigger_payload : Option Dict) {v : Db}
    (hv : .saw v ∈ trace) (hw : workflow ∈ v.workflows.rows) :
    Outline (store checks) (Db.Sturdy checks) (Ahead checks) M (fun _ => Complete)
      (RunRepository.create_run ids clock workflow dependencies trigger_payload)
      Db.empty trace := by
  unfold RunRepository.create_run
  refine Outline.bind _ (outline_newTable (Q := fun t own trace' =>
    t.rows = [_] ∧ own = Db.empty ∧ .saw v ∈ trace') (fun t ht => ⟨ht, rfl, hv⟩)) ?_
  rintro row _ trace ⟨hrow, rfl, hv⟩
  refine Outline.bind _ (outline_flush (Q := fun _ own _ =>
      own = { Db.empty with workflow_runs := row })
    (fun _ _ h hvalid => h.insert_run rfl rfl hrow hv hw rfl rfl rfl rfl hvalid) ?_) ?_
  · exact (overlay_runs row Db.empty).trans (by
      rw [show Db.empty.workflow_runs = Table.empty from rfl, Table.overlay_empty])
  rintro _ _ trace rfl
  -- The tasks, as the session sees them once it has inserted the run.
  refine Outline.bind _ (Q := fun tasks own trace' =>
    own = { Db.empty with workflow_runs := row } ∧ ∃ v₁, .saw v₁ ∈ trace' ∧
      tasks = v₁.workflowTasks workflow.id) (fun db hs h =>
        ⟨h.read hs, rfl, _, List.mem_cons_self, rfl⟩) ?_
  rintro tasks _ trace ⟨rfl, v₁, hv₁, htasks⟩
  refine Outline.bind _ (Outline.lift _ (Q := fun rows own trace' =>
    own = { Db.empty with workflow_runs := row } ∧ .saw v₁ ∈ trace' ∧
      List.Forall₂ (NewRow ids clock dependencies) tasks rows)
    (fun rows hrows => ⟨rfl, hv₁, mapM_newRow.mp hrows⟩)) ?_
  rintro rows _ trace ⟨rfl, hv₁, hrows⟩
  split
  · trivial
  next hsome =>
  refine Outline.bind _ (outline_newTable (Q := fun t own trace' =>
    t.rows = rows ∧ own = { Db.empty with workflow_runs := row } ∧ .saw v₁ ∈ trace')
    (fun t ht => ⟨ht, rfl, hv₁⟩)) ?_
  rintro table _ trace ⟨htable, rfl, hv₁⟩
  rw [← htable] at hrows
  have hplace : ∀ r ∈ table.rows, r.run_id = ids.run_id ∧ r.Lawful := by
    intro r hr
    obtain ⟨task, -, policy, -, rfl⟩ := exists_left_of_forall₂ hrows hr
    exact ⟨rfl, newTaskRun_lawful _ policy task⟩
  refine Outline.bind _ (outline_flush (Q := fun _ => Complete)
    (fun _ hs h hvalid => h.insert_rows rfl hs (hrow ▸ List.mem_singleton_self _) rfl hplace
      hvalid) ?_) (fun _ _ _ hcomplete => hcomplete)
  have hmem : ∀ task, task ∈ tasks ↔ task ∈ v₁.tasks.rows ∧ task.workflow_id = workflow.id := by
    intro task
    rw [htasks, Db.workflowTasks, List.mem_filter, decide_eq_true_iff]
  -- Every task that was seen has its row, and no row is for another task.
  rw [overlay_rows, show Db.task_runs _ = Table.empty from rfl, Table.overlay_empty]
  intro run hrun _
  rw [show Db.workflow_runs _ = row from rfl, hrow, List.mem_singleton] at hrun
  subst hrun
  refine ⟨v₁, List.mem_cons_of_mem _ hv₁, ?_, fun task htask hworkflow => ?_, fun r hr _ => ?_⟩
  · obtain ⟨task, htask⟩ := List.exists_mem_of_ne_nil tasks
      (fun he => hsome (List.isEmpty_iff.mpr he))
    exact ⟨task, (hmem task).mp htask⟩
  · obtain ⟨r, hr, policy, -, rfl⟩ := exists_right_of_forall₂ hrows
      ((hmem task).mpr ⟨htask, hworkflow⟩)
    exact ⟨_, hr, rfl, rfl⟩
  · obtain ⟨task, htask, policy, -, rfl⟩ := exists_left_of_forall₂ hrows hr
    exact ⟨task, ((hmem task).mp htask).1, rfl, ((hmem task).mp htask).2⟩

theorem outline_submit (ids : RunIds) (clock : Clock) (workflow_id : UUID)
    (trigger_payload : Option Dict) :
    Outline (store checks) (Db.Sturdy checks) (Ahead checks) M (fun _ => Complete)
      (submitRun ids clock workflow_id trigger_payload) Db.empty [] := by
  intro db hs h
  refine ⟨h.read hs, ?_⟩
  dsimp only
  cases hget : ((store checks).overlay Db.empty db).workflows.get workflow_id with
  | none => trivial
  | some workflow =>
      exact outline_create_run ids clock _ trigger_payload List.mem_cons_self
        (Table.get_eq_some.mp hget).1

/-- The workflow that a request names is one that its session has seen. -/
theorem outline_resolve (body : RunCreate) (trace : List (Event Db)) :
    Outline (store checks) (Db.Sturdy checks) (Ahead checks) M
      (fun workflow own trace' => own = Db.empty ∧
        ∀ w, workflow = some w → ∃ v, .saw v ∈ trace' ∧ w ∈ v.workflows.rows)
      (Api.resolve body) Db.empty trace := by
  unfold Api.resolve
  split
  · intro db hs h
    exact ⟨h.read hs, rfl, fun w hw => ⟨_, List.mem_cons_self, List.mem_of_find?_eq_some hw⟩⟩
  · intro db hs h
    refine ⟨h.read hs, rfl, fun w hw => ⟨_, List.mem_cons_self, ?_⟩⟩
    have hmem := List.mem_of_mem_head? hw
    rw [List.mem_insertionSort] at hmem
    exact (List.mem_filter.mp hmem).1

/-- The row of a key is the last that a submission writes. -/
theorem outline_recordKey {fingerprint : RunCreate → String} (request : Api.PostRun)
    (run_id : UUID) (h : Complete own trace) :
    Outline (store checks) (Db.Sturdy checks) (Ahead checks) M (fun _ => Complete)
      (Api.recordKey fingerprint request run_id) own trace := by
  unfold Api.recordKey
  split
  · exact h
  · refine Outline.bind _ (outline_newTable (Q := fun _ => Complete) (fun _ _ => h)) ?_
    intro t own trace hcomplete
    refine outline_flush (fun _ _ h _ => h.insert_key t)
      (hcomplete.mono ?_ ?_ (List.suffix_cons _ _))
    · rw [overlay_keys]
    · rw [overlay_keys]

/-- `POST /workflows`: the response is read back after the last row is written. -/
theorem outline_post_workflow (ids : WorkflowIds) (now : Time) (body : WorkflowCreate) :
    Outline (store checks) (Db.Sturdy checks) (Ahead checks) M (fun _ => Complete)
      (Api.create_workflow ids now body) Db.empty [] := by
  refine Outline.bind _ (outline_publish ⟨ids, now, body.name, body.specs, body.description⟩)
    (fun workflow _ _ hcomplete => ?_)
  refine (outline_reads (.read (fun _ => .read (fun _ => .ret _))) _ _).mono _ ?_
  rintro _ _ _ ⟨rfl, htrace⟩
  exact hcomplete.mono rfl rfl htrace

/-- `POST /runs/{run_id}/cancel` loads the run before and after. -/
theorem outline_cancel_run (lib : Stdlib) (clock : Clock) (run_id : UUID) :
    Outline (store checks) (Db.Sturdy checks) (Ahead checks) M (fun _ => Complete)
      (Api.cancel_run lib clock run_id) Db.empty [] := by
  refine Outline.bind _ (outline_reads (writes_get_with_tasks run_id) _ _) ?_
  rintro loaded _ trace ⟨rfl, -⟩
  cases loaded with
  | none => trivial
  | some loaded =>
      dsimp only
      split
      · trivial
      refine Outline.bind _ (outline_cancel clock run_id rfl) (fun _ _ _ hcomplete => ?_)
      refine Outline.bind _ (outline_reads (writes_get_with_tasks run_id) _ _) ?_
      rintro cancelled _ _ ⟨rfl, htrace⟩
      cases cancelled with
      | none => trivial
      | some cancelled =>
          refine (outline_reads (Prog.Writes.lift _) _ _).mono _ ?_
          rintro _ _ _ ⟨rfl, htrace'⟩
          exact hcomplete.mono rfl rfl (htrace.trans htrace')

/-- `POST /runs`. -/
theorem outline_post_run (fingerprint : RunCreate → String) (request : Api.PostRun) :
    Outline (store checks) (Db.Sturdy checks) (Ahead checks) M (fun _ => Complete)
      (Api.create_run fingerprint request) Db.empty [] := by
  refine Outline.bind _ (outline_reads (Api.writes_replay fingerprint request) _ _) ?_
  rintro reply _ trace ⟨rfl, -⟩
  cases reply with
  | some reply => exact Complete.idle rfl
  | none =>
      refine Outline.bind _ (outline_resolve request.body trace) ?_
      rintro workflow _ trace ⟨rfl, hseen⟩
      cases workflow with
      | none => trivial
      | some workflow =>
          obtain ⟨v, hv, hw⟩ := hseen workflow rfl
          refine Outline.bind _ (outline_reads (.read (fun _ => .ret _)) _ _) ?_
          rintro dependencies _ trace ⟨rfl, htrace⟩
          refine Outline.bind _ (outline_create_run request.ids request.clock dependencies
            (some request.body.payload) (htrace.mem hv) hw) (fun run _ _ hcomplete => ?_)
          refine Outline.bind _ (outline_recordKey request run.id hcomplete)
            (fun _ _ _ hcomplete => ?_)
          refine Outline.bind _ (outline_reads (writes_get_with_tasks run.id) _ _) ?_
          rintro created _ _ ⟨rfl, htrace⟩
          cases created with
          | none => trivial
          | some created =>
              refine Outline.bind _ (outline_reads (Prog.Writes.lift _) _ _) ?_
              rintro response _ _ ⟨rfl, htrace'⟩
              exact hcomplete.mono rfl rfl (htrace.trans htrace')

theorem outline (deed : Deed) :
    Outline (store checks) (Db.Sturdy checks) (Ahead checks) M (fun _ => Complete) deed.body
      Db.empty [] := by
  cases deed with
  | queue call => exact Outline.bind _ (outline_call call) (fun _ _ _ h => h)
  | publish p => exact Outline.bind _ (outline_publish p) (fun _ _ _ h => h)
  | submit ids clock workflow_id trigger_payload =>
      exact Outline.bind _ (outline_submit ids clock workflow_id trigger_payload) (fun _ _ _ h => h)
  | create_workflow ids now body =>
      exact Outline.bind _ (outline_post_workflow ids now body) (fun _ _ _ h => h)
  | create_run fingerprint request =>
      exact Outline.bind _ (outline_post_run fingerprint request) (fun _ _ _ h => h)
  | cancel_run lib clock run_id =>
      exact Outline.bind _ (outline_cancel_run lib clock run_id) (fun _ _ _ h => h)

end Outlines

end Deed

/-- The transactions keep to what is said of open sessions. -/
def traffic (checks : Bool) : Discipline (store checks) Deed.body (fun _ _ => True)
    (fun _ _ _ _ => True) (fun _ _ _ _ => True) where
  I := Db.Sturdy checks
  J := Ahead checks
  Q _ _ := Complete
  begins _ deed h _ := ⟨.start h, deed.outline⟩
  commits _ _ _ _ _ hs h hcomplete _ := h.sturdy_commit hs hcomplete
  stable _ _ _ _ _ hs h h' hdisjoint := h.commit hs h' hdisjoint

/-! ## Every interleaving -/

namespace Running

variable {s s' : Service}

theorem safe (h : Running checks s) : (traffic checks).Safe s :=
  (traffic checks).safe store_lawful (fun _ hs => ⟨.initial hs.1.1 hs.1.2, hs.2⟩)
    (h.mono (fun s l _ => stepMeets_any _ s l))

/-- **Whatever has gone on before,** the committed database is sturdy. -/
theorem sturdy (h : Running checks s) : s.committed.Sturdy checks := h.safe.committed

theorem leads (h : Running checks s) (hleads : Service.Leads checks s s') : Running checks s' :=
  hleads.reach h

/-- **Between two moments** holds what every commit keeps. -/
theorem between (h : Running checks s) (hleads : Service.Leads checks s s') {R : Db → Db → Prop}
    (hrefl : ∀ db, R db db) (htrans : ∀ {a b c}, R a b → R b c → R a c)
    (hcommit : ∀ db own trace, db.Sturdy checks → Ahead checks db own trace →
      Complete own trace → R db (own.overlay db)) : R s.committed s'.committed :=
  ((traffic checks).between store_lawful hrefl htrans
    (fun db _ _ own trace => hcommit db own trace) h.safe hleads).2

theorem keeps (h : Running checks s) (hleads : Service.Leads checks s s') :
    Keeps s.committed s'.committed :=
  h.between hleads .refl .trans (fun _ _ _ hs hahead _ => hahead.keeps hs.rooted)

end Running

/-! ## One after the other -/

/-- Each row has its own lock among those of a database. -/
theorem store_keepsAll : (store checks).KeepsAll := by
  intro p d h
  have hall : ∀ l ∈ d.locks, p l = true := h
  simp only [Db.locks, List.forall_mem_append, List.forall_mem_map] at hall
  obtain ⟨⟨⟨⟨⟨⟨⟨hworkflows, -⟩, htasks⟩, hedges⟩, hruns⟩, hrows⟩, hattempts⟩, hkeys⟩ := hall
  show d.keep p = d
  unfold Db.keep
  rw [Table.restrict_of_all hworkflows, Table.restrict_of_all htasks,
    Table.restrict_of_all hedges, Table.restrict_of_all hruns, Table.restrict_of_all hrows,
    Table.restrict_of_all hattempts, Table.restrict_of_all hkeys]

/-- **Whole transactions are runs of the service too,** whatever is going on. -/
theorem Service.Leads.alone (s : Service) (deed : Deed) {a : Unit}
    (h : exec (store checks) deed.body s.committed = .ok (db', a)) :
    ∃ s', Service.Leads checks s s' ∧ s'.committed = db' :=
  Sys.Leads.alone store_keepsAll s h

/-- The service after some steps. -/
def Service.after (checks : Bool) (s : Service) (labels : List (Label Deed Lock)) : Service :=
  labels.foldl (fun s l => s.step (store checks) Deed.body l) s

theorem Service.leads_after (s : Service) (labels : List (Label Deed Lock)) :
    Service.Leads checks s (Service.after checks s labels) :=
  Lts.Reach.foldl (Sys.Leads.refl s) labels

/-- The steps of a transaction of at most `n` statements that has the place `i`. -/
def Deed.wholly (deed : Deed) (n i : ℕ) : List (Label Deed Lock) :=
  .begin deed :: (List.replicate n (writeAt i)).flatten ++ [.commit i]

/-- A service that nobody has used yet. -/
def Service.unused : Service := ⟨Db.empty, []⟩

theorem running_unused : Running checks Service.unused :=
  .start ⟨⟨initial_empty, fun _ => Numbered.nil⟩, rfl⟩

end Conductor
