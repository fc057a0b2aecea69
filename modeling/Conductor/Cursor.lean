/-
The queue against `DagCursor`.

The repository has readiness twice: the cursor of `core/dag.py` keeps counters in
memory and looks for poisoned nodes when asked, the queue keeps counters in rows
and blocks descendants when a task fails. Here a cursor over the workflow's own
graph is fed with what the queue accepts: a success of a task of the run, a
failure that ended it. It never raises, and after every step it and the rows of
the run agree.

Both are read off the run as an execution: the cursor's succeeded and failed nodes
are the done and failed tasks, its counter of a node is `Precedence.unmet`, and what
it reports as blocked is what lies below a failed node, which for a coherent
execution is what is `blocked`.
-/
import Conductor.Service

set_option autoImplicit false

open Relational Txn

namespace Conductor

open RunRepository TaskQueueRepository WorkflowRepository

variable {checks : Bool} {db db' : Db}

/-! ## A published workflow stays as it was published -/

structure Stored (ids : WorkflowIds) (specs : List TaskSpec) (db : Db) : Prop where
  checked : Checked specs
  inj : ∀ k ∈ specs.map TaskSpec.key, ∀ l ∈ specs.map TaskSpec.key,
    ids.task_id k = ids.task_id l → k = l
  workflow : ∃ w ∈ db.workflows.rows, w.id = ids.workflow_id
  mem : ∀ spec ∈ specs, newTask ids spec ∈ db.tasks.rows
  only : ∀ t ∈ db.tasks.rows, t.workflow_id = ids.workflow_id → ∃ spec ∈ specs, t = newTask ids spec
  parents : ∀ spec ∈ specs, ∀ p,
    p ∈ db.parents (ids.task_id spec.key) ↔ ∃ k ∈ spec.depends_on, ids.task_id k = p

section Stored

variable {ids : WorkflowIds} {specs : List TaskSpec}

theorem WorkflowRepository.Published.stored {workflow : Workflow} (hd : db.Definitions)
    (h : Published ids specs db db' workflow) : Stored ids specs db' := by
  refine ⟨h.checked, fun k hk l hl => h.task_id_inj hk hl, ⟨workflow, ?_, h.workflow_id⟩,
    fun spec hspec => ?_, fun t ht hw => ?_, fun spec hspec p => ?_⟩
  · rw [h.workflows']
    exact List.mem_append_right _ (List.mem_singleton.mpr rfl)
  · rw [h.tasks']
    exact List.mem_append_right _ (List.mem_map_of_mem hspec)
  · rw [h.tasks', List.mem_append, List.mem_map] at ht
    rcases ht with ht | ⟨spec, hspec, rfl⟩
    · obtain ⟨w, hmem, hid⟩ := hd.workflows t ht
      exact absurd (hid.trans (hw.trans h.workflow_id.symm)) (h.new_workflow w hmem)
    · exact ⟨spec, hspec, rfl⟩
  · have hkey : spec.key ∈ specs.map TaskSpec.key := List.mem_map_of_mem hspec
    rw [h.mem_parents, (h.not_old hd hkey).2]
    constructor
    · rintro (hp | ⟨spec', hspec', he, k, hk, rfl⟩)
      · exact absurd hp (Finset.notMem_empty p)
      · have hsame : spec'.key = spec.key := h.task_id_inj (List.mem_map_of_mem hspec') hkey he
        rw [List.inj_on_of_nodup_map h.checked.keys hspec' hspec hsame] at hk
        exact ⟨k, hk, rfl⟩
    · rintro ⟨k, hk, rfl⟩
      exact Or.inr ⟨spec, hspec, rfl, k, hk, rfl⟩

/-- The definition tables as they were. -/
theorem Stored.congr (h : Stored ids specs db) (hworkflows : db'.workflows = db.workflows)
    (htasks : db'.tasks = db.tasks) (hedges : db'.task_dependencies = db.task_dependencies) :
    Stored ids specs db' := by
  refine ⟨h.checked, h.inj, ?_, ?_, ?_, ?_⟩
  · rw [hworkflows]
    exact h.workflow
  · rw [htasks]
    exact h.mem
  · rw [htasks]
    exact h.only
  · rw [Db.parents_congr hedges]
    exact h.parents

/-- Another workflow is published beside it. -/
theorem Stored.published (h : Stored ids specs db) {ids' : WorkflowIds} {specs' : List TaskSpec}
    {workflow : Workflow} (hp : Published ids' specs' db db' workflow) : Stored ids specs db' := by
  obtain ⟨w, hw, hwid⟩ := h.workflow
  refine ⟨h.checked, h.inj, ⟨w, ?_, hwid⟩, fun spec hspec => ?_, fun t ht htw => ?_,
    fun spec hspec p => ?_⟩
  · rw [hp.workflows']
    exact List.mem_append_left _ hw
  · rw [hp.tasks']
    exact List.mem_append_left _ (h.mem spec hspec)
  · rw [hp.tasks', List.mem_append, List.mem_map] at ht
    rcases ht with ht | ⟨spec, -, rfl⟩
    · exact h.only t ht htw
    · exact absurd (hwid.trans (htw.symm.trans hp.workflow_id.symm)) (hp.new_workflow w hw)
  · rw [hp.mem_parents, ← h.parents spec hspec p]
    refine or_iff_left ?_
    rintro ⟨spec', hspec', he, -⟩
    exact hp.new_tasks spec' hspec' _ (h.mem spec hspec) he.symm

/-- **No operation touches a published workflow.** -/
theorem Stored.kept (hinv : Inv checks db) (h : Stored ids specs db) (op : Op) :
    Stored ids specs (serve checks db op) := by
  cases hop : op.isQueue with
  | true =>
      obtain ⟨g, -, hstep⟩ := serve_outcome hinv hop
      exact h.congr hstep.rewritten.workflows hstep.rewritten.tasks hstep.rewritten.edges
  | false =>
      cases op with
      | publish ids' now name specs' description =>
          rcases serve_publish checks db ids' now name specs' description with
            hsame | ⟨workflow, hpublished⟩
          · rw [hsame]
            exact h
          · exact h.published hpublished
      | submit ids' clock workflow_id trigger_payload =>
          rcases serve_submit checks db ids' clock workflow_id trigger_payload with
            hsame | ⟨workflow, -, run, rows, hcreated⟩
          · rw [hsame]
            exact h
          · exact h.congr (by rw [hcreated.frame]) (by rw [hcreated.frame])
              (by rw [hcreated.frame])
      | _ => cases hop

end Stored

/-! ## Feeding a cursor -/

/-- The key of a row's task. -/
def Db.keyOf (db : Db) (r : TaskRun) : Option String := (db.tasks.get r.task_id).map Task.key

/-- The key of the task a report is about, if it is one of the run. -/
def Db.reportedKey (db : Db) (run_id task_run_id : UUID) : Option String :=
  match db.task_runs.get task_run_id with
  | none => none
  | some row => if row.run_id = run_id then db.keyOf row else none

/-- What a cursor is told. -/
inductive CursorEvent where
  | succeeded (key : String)
  | failed (key : String)

/-- An accepted success, or a failure that ended its task, of a task of the run. -/
def eventOf (checks : Bool) (db : Db) (run_id : UUID) : Op → Option CursorEvent
  | .success clock task_run_id worker_id output =>
      match exec (store checks) (record_success clock task_run_id worker_id output) db with
      | .ok (_, true) => (db.reportedKey run_id task_run_id).map .succeeded
      | _ => none
  | .failure clock uniform task_run_id worker_id error =>
      match exec (store checks)
        (record_failure clock uniform (walkRounds db) task_run_id worker_id error) db with
      | .ok (_, some state) =>
          if state = .DEAD_LETTER ∨ state = .FAILED then
            (db.reportedKey run_id task_run_id).map .failed
          else none
      | _ => none
  | _ => none

def feed (cursor : DagCursor String) : CursorEvent → Except (DagError String) (DagCursor String)
  | .succeeded key => do
      let (cursor, _) ← cursor.mark_succeeded key
      return cursor
  | .failed key => cursor.mark_failed key

/-- The database and the cursor over one of its runs. -/
structure Tracked where
  db : Db
  cursor : Except (DagError String) (DagCursor String)

/-- One operation, and the cursor told of it. -/
def track (checks : Bool) (run_id : UUID) (s : Tracked) (op : Op) : Tracked where
  db := serve checks s.db op
  cursor :=
    match eventOf checks s.db run_id op with
    | none => s.cursor
    | some event => s.cursor.bind (fun cursor => feed cursor event)

/-- The operation does not cancel the run. -/
def Op.spares (run_id : UUID) : Op → Prop
  | .cancel _ cancelled => cancelled ≠ run_id
  | _ => True

/-! ## What an operation means for the run -/

/-- The key of the reported row. -/
theorem reportedKey_eq {row : TaskRun} {task_run_id : UUID}
    (hrow : db.task_runs.get task_run_id = some row) (run_id : UUID) :
    db.reportedKey run_id task_run_id = if row.run_id = run_id then db.keyOf row else none := by
  simp [Db.reportedKey, hrow]

/-- What an operation means for a run: nothing the cursor is told of and no change of
status, the success of one of its tasks, or the end of one of its tasks by failure. -/
inductive Told (db : Db) (run_id : UUID) : Option CursorEvent → (UUID → Precedence.Status) → Prop where
  | nothing : Told db run_id none (db.status run_id)
  | succeeded {row : TaskRun} (hrow : row ∈ db.task_runs.rows) (hrun : row.run_id = run_id)
      (hrunning : row.state = .RUNNING) :
      Told db run_id ((db.keyOf row).map .succeeded)
        (Precedence.succeed db.parents (db.status run_id) row.task_id)
  | failed {row : TaskRun} (hrow : row ∈ db.task_runs.rows) (hrun : row.run_id = run_id)
      (hrunning : row.state = .RUNNING) :
      Told db run_id ((db.keyOf row).map .failed)
        (Precedence.fail db.parents (db.status run_id) row.task_id)

theorem Told.of_eq {run_id : UUID} {event : Option CursorEvent} {σ : UUID → Precedence.Status}
    (hevent : event = none) (hσ : σ = db.status run_id) : Told db run_id event σ := by
  rw [hevent, hσ]
  exact .nothing

theorem told_success (hinv : Inv checks db) (run_id : UUID) (clock : Clock) (task_run_id : UUID)
    (worker_id : String) (output : Option Dict) :
    Told db run_id (eventOf checks db run_id (.success clock task_run_id worker_id output))
      ((serve checks db (.success clock task_run_id worker_id output)).status run_id) := by
  by_cases hheld : ∃ row ∈ db.task_runs.rows, heldBy task_run_id worker_id row = true
  · obtain ⟨row, hmem, hheld⟩ := hheld
    obtain ⟨hid, -, hrunning⟩ := heldBy_iff.mp hheld
    have hrow := Table.get_eq_some.mpr ⟨hmem, hid⟩
    obtain ⟨hexec, hstep⟩ := serve_success_held hinv clock output hrow hheld
    obtain ⟨hown, hother⟩ := status_afterSuccess hinv hmem hstep.rewritten
    have hevent : eventOf checks db run_id (.success clock task_run_id worker_id output)
        = (if row.run_id = run_id then db.keyOf row else none).map .succeeded := by
      simp only [eventOf, hexec, reportedKey_eq hrow]
    by_cases hrun : row.run_id = run_id
    · rw [hevent, if_pos hrun]
      subst hrun
      rw [hown]
      exact .succeeded hmem rfl hrunning
    · rw [hevent, if_neg hrun]
      exact .of_eq rfl (hother run_id (fun h => hrun h.symm))
  · push Not at hheld
    have hlost : ∀ r ∈ db.task_runs.rows, heldBy task_run_id worker_id r = false :=
      fun r hr => by simpa using hheld r hr
    obtain ⟨hexec, hserve⟩ := serve_success_lost hinv clock output hlost
    exact .of_eq (by simp only [eventOf, hexec]) (by rw [hserve])

theorem told_failure (hinv : Inv checks db) (run_id : UUID) (clock : Clock) (uniform : ℚ → ℚ)
    (task_run_id : UUID) (worker_id : String) (error : String) :
    Told db run_id (eventOf checks db run_id (.failure clock uniform task_run_id worker_id error))
      ((serve checks db (.failure clock uniform task_run_id worker_id error)).status run_id) := by
  by_cases hheld : ∃ row, db.task_runs.get task_run_id = some row ∧ row.worker_id = some worker_id
  · obtain ⟨row, hrow, hworker⟩ := hheld
    obtain ⟨hmem, hid⟩ := Table.get_eq_some.mp hrow
    have hrunning := (hinv.good.lawful row hmem).running_of_worker (by rw [hworker]; rfl)
    rcases lt_or_ge row.attempt row.max_attempts with hlt | hge
    · obtain ⟨delay, hexec, hstep⟩ :=
        serve_failure_retry hinv clock uniform error hrow hworker hlt
      refine .of_eq (by simp [eventOf, hexec]) (hstep.rewritten.status_eq hinv.unique ?_)
      intro r hr _
      split
      · rename_i howned
        rw [(hinv.good.lawful r hr).running_of_worker (ownedBy_worker howned)]
        rfl
      · rfl
    · obtain ⟨tasks, hexec, -, ⟨hown, hother⟩, -⟩ :=
        serve_failure_terminal hinv clock uniform error hrow hworker hge
      have hevent : eventOf checks db run_id (.failure clock uniform task_run_id worker_id error)
          = (if row.run_id = run_id then db.keyOf row else none).map .failed := by
        simp only [eventOf, hexec, true_or, if_true, reportedKey_eq hrow]
      by_cases hrun : row.run_id = run_id
      · rw [hevent, if_pos hrun]
        subst hrun
        rw [hown]
        exact .failed hmem rfl hrunning
      · rw [hevent, if_neg hrun]
        exact .of_eq rfl (hother run_id (fun h => hrun h.symm))
  · push Not at hheld
    obtain ⟨hexec, hserve⟩ : exec (store checks) _ db = _ ∧ serve checks db _ = db :=
      serve_failure_lost clock uniform error hheld
    exact .of_eq (by simp only [eventOf, hexec]) (by rw [hserve])

/-- **Every operation that does not cancel the run means one of these to it.** -/
theorem told (hinv : Inv checks db) {run_id : UUID}
    (hrun : ∃ run ∈ db.workflow_runs.rows, run.id = run_id) {op : Op} (hspares : op.spares run_id) :
    Told db run_id (eventOf checks db run_id op) ((serve checks db op).status run_id) := by
  cases op with
  | success clock task_run_id worker_id output =>
      exact told_success hinv run_id clock task_run_id worker_id output
  | failure clock uniform task_run_id worker_id error =>
      exact told_failure hinv run_id clock uniform task_run_id worker_id error
  -- What follows means nothing to the run: none of it changes the status of one of its tasks.
  | publish ids now name specs description =>
      refine .of_eq rfl ?_
      obtain ⟨_, _, _, hserve⟩ := serve_publish_frame checks db ids now name specs description
      rw [hserve]
      rfl
  | submit ids clock workflow_id trigger_payload =>
      refine .of_eq rfl ?_
      rcases serve_submit checks db ids clock workflow_id trigger_payload with
        hsame | ⟨workflow, -, new, rows, hcreated⟩
      · rw [hsame]
      · obtain ⟨run, hmem, hid⟩ := hrun
        exact hcreated.status_old hinv (hcreated.unique hinv)
          (fun he => hcreated.new_run run hmem (hid.trans he))
  | claim lease_seconds clock tie worker_id limit =>
      refine .of_eq rfl ?_
      by_cases hbudget : checks = true → db.WithinBudget tie clock.utcnow limit
      · obtain ⟨-, -, -, hstep⟩ := serve_claim hinv lease_seconds clock tie worker_id limit hbudget
        refine hstep.rewritten.status_eq hinv.unique (fun r hr _ => ?_)
        split
        · rename_i hpicked
          rw [picked_state hr hpicked]
          rfl
        · rfl
      · rw [(serve_claim_refused hinv lease_seconds clock tie worker_id limit hbudget).2]
  | renew lease_seconds clock task_run_id worker_id =>
      refine .of_eq rfl ((serve_renew hinv lease_seconds clock task_run_id
        worker_id).rewritten.status_eq hinv.unique (fun r hr _ => ?_))
      split <;> rfl
  | reap clock =>
      refine .of_eq rfl ((serve_reap hinv clock).rewritten.status_eq hinv.unique (fun r hr _ => ?_))
      split
      · rename_i hexpired
        rw [leaseExpired_state hexpired]
        rfl
      · rfl
  | cancel clock cancelled =>
      refine .of_eq rfl ((serve_cancel hinv clock cancelled).rewritten.status_eq hinv.unique
        (fun r hr hid => ?_))
      rw [if_neg]
      intro hc
      exact hspares ((cancellable_iff.mp hc).1.symm.trans hid)
  | refresh clock refreshed =>
      exact .of_eq rfl ((serve_refresh hinv clock refreshed).rewritten.status_eq hinv.unique
        (fun _ _ _ => rfl))

/-- A run keeps its row and its workflow. -/
theorem run_persists (hinv : Inv checks db) {run_id workflow_id : UUID}
    (hrun : ∃ run ∈ db.workflow_runs.rows, run.id = run_id ∧ run.workflow_id = workflow_id)
    (op : Op) :
    ∃ run ∈ (serve checks db op).workflow_runs.rows,
      run.id = run_id ∧ run.workflow_id = workflow_id := by
  obtain ⟨run, hmem, hid, hw⟩ := hrun
  cases hop : op.isQueue with
  | true =>
      obtain ⟨g, -, hstep⟩ := serve_outcome hinv hop
      obtain ⟨f, hkeep, hrows⟩ := hstep.rewritten.runs
      rw [hrows]
      exact ⟨f run, List.mem_map_of_mem hmem, (hkeep run).1.trans hid, (hkeep run).2.trans hw⟩
  | false =>
      cases op with
      | publish ids now name specs description =>
          obtain ⟨_, _, _, hserve⟩ := serve_publish_frame checks db ids now name specs description
          rw [hserve]
          exact ⟨run, hmem, hid, hw⟩
      | submit ids clock workflow_id' trigger_payload =>
          rcases serve_submit checks db ids clock workflow_id' trigger_payload with
            hsame | ⟨workflow, -, new, rows, hcreated⟩
          · rw [hsame]
            exact ⟨run, hmem, hid, hw⟩
          · rw [hcreated.runs']
            exact ⟨run, List.mem_append_left _ hmem, hid, hw⟩
      | _ => cases hop

/-! ## The simulation -/

/-- The run has a row for the task with this key, and `p` holds of its state. -/
def Db.HasRow (db : Db) (run_id : UUID) (key : String) (p : TaskState → Prop) : Prop :=
  ∃ r ∈ db.runTasks run_id, db.keyOf r = some key ∧ p r.state

/-- A cursor that has followed a run of a published workflow. -/
structure Sim (checks : Bool) (ids : WorkflowIds) (specs : List TaskSpec) (run_id : UUID) (db : Db)
    (cursor : DagCursor String) : Prop where
  inv : Inv checks db
  stored : Stored ids specs db
  run : ∃ run ∈ db.workflow_runs.rows, run.id = run_id ∧ run.workflow_id = ids.workflow_id
  dag : Dag.from_dependencies (dependencyMap specs) = .ok cursor._dag
  keys : OrderedDict.keys cursor._pending = cursor._dag.nodes
  counters : cursor._dag.Counters cursor._succeeded cursor._pending
  succeeded : ∀ k, k ∈ cursor._succeeded ↔
    k ∈ cursor._dag.nodes ∧ db.status run_id (ids.task_id k) = .done
  failed : ∀ k, k ∈ cursor._failed ↔
    k ∈ cursor._dag.nodes ∧ db.status run_id (ids.task_id k) = .failed
  uncancelled : ∀ c, db.status run_id c ≠ .cancelled

namespace Sim

variable {ids : WorkflowIds} {specs : List TaskSpec} {run_id : UUID} {cursor : DagCursor String}

theorem mirrored (h : Sim checks ids specs run_id db cursor) : cursor._dag.Mirrored :=
  (Dag.from_dependencies_ok h.dag).1

theorem nodes (h : Sim checks ids specs run_id db cursor) :
    cursor._dag.nodes = specs.map TaskSpec.key := by
  rw [(Dag.from_dependencies_ok h.dag).2.1, (dependencyMap_spec h.stored.checked.keys).1]

/-- The graph's edges are the stored ones. -/
theorem mem_parents (h : Sim checks ids specs run_id db cursor) {l : String}
    (hl : l ∈ cursor._dag.nodes) {p : UUID} :
    p ∈ db.parents (ids.task_id l) ↔ ∃ k ∈ cursor._dag.parentsOf l, ids.task_id k = p := by
  rw [h.nodes] at hl
  obtain ⟨spec, hspec, rfl⟩ := List.mem_map.mp hl
  rw [h.stored.parents spec hspec]
  refine exists_congr (fun k => and_congr_left (fun _ => ?_))
  rw [Published.parentsOf_iff h.stored.checked.keys h.dag]
  constructor
  · exact fun hk => ⟨spec, hspec, rfl, hk⟩
  · rintro ⟨spec', hspec', hkey, hk⟩
    rwa [List.inj_on_of_nodup_map h.stored.checked.keys hspec' hspec hkey] at hk

theorem inj (h : Sim checks ids specs run_id db cursor) {k l : String}
    (hk : k ∈ cursor._dag.nodes) (hl : l ∈ cursor._dag.nodes)
    (he : ids.task_id k = ids.task_id l) : k = l := by
  rw [h.nodes] at hk hl
  exact h.stored.inj k hk l hl he

/-- The cursor's count of a node is the run's. -/
theorem unmet_eq (h : Sim checks ids specs run_id db cursor) {l : String}
    (hl : l ∈ cursor._dag.nodes) :
    cursor._dag.unmet cursor._succeeded l
      = Precedence.unmet db.parents (db.status run_id) (ids.task_id l) := by
  have hset : (db.parents (ids.task_id l)).filter (fun p => db.status run_id p ≠ .done)
      = ((cursor._dag.parentsOf l).filter (· ∉ cursor._succeeded)).toFinset.image ids.task_id := by
    ext p
    simp only [Finset.mem_filter, Finset.mem_image, List.mem_toFinset, List.mem_filter,
      decide_eq_true_eq, h.mem_parents hl]
    constructor
    · rintro ⟨⟨k, hk, rfl⟩, hnot⟩
      exact ⟨k, ⟨hk, fun hs => hnot ((h.succeeded k).mp hs).2⟩, rfl⟩
    · rintro ⟨k, ⟨hk, hnot⟩, rfl⟩
      exact ⟨⟨k, hk, rfl⟩, fun hs => hnot ((h.succeeded k).mpr
        ⟨(h.mirrored.declared k l hk).1, hs⟩)⟩
  have hinj : Set.InjOn ids.task_id
      ((cursor._dag.parentsOf l).filter (· ∉ cursor._succeeded)).toFinset := by
    intro k hk k' hk' he
    simp only [Finset.mem_coe, List.mem_toFinset, List.mem_filter] at hk hk'
    exact h.inj (h.mirrored.declared k l hk.1).1 (h.mirrored.declared k' l hk'.1).1 he
  unfold Dag.unmet Precedence.unmet
  rw [hset, Finset.card_image_of_injOn hinj,
    List.toFinset_card_of_nodup ((h.mirrored.parents_nodup l).filter _)]

/-- A row of the run is a node of the graph. -/
theorem node_of_row (h : Sim checks ids specs run_id db cursor) {r : TaskRun}
    (hr : r ∈ db.task_runs.rows) (hrun : r.run_id = run_id) :
    ∃ k ∈ cursor._dag.nodes, r.task_id = ids.task_id k ∧ db.keyOf r = some k := by
  obtain ⟨run, hmem, task, htask, -, hid, htid, hw, -⟩ := h.inv.defined r hr
  obtain ⟨run', hmem', hid', hw'⟩ := h.run
  have he : run = run' := db.workflow_runs.eq_of_key hmem hmem' (hid.trans (hrun.trans hid'.symm))
  obtain ⟨spec, hspec, rfl⟩ := h.stored.only task htask (hw.trans (by rw [he, hw']))
  refine ⟨spec.key, ?_, htid.symm, ?_⟩
  · rw [h.nodes]
    exact List.mem_map_of_mem hspec
  · unfold Db.keyOf
    rw [← htid, Table.get_of_mem htask]
    rfl

/-- A node of the graph has a row in the run. -/
theorem row_of_node (h : Sim checks ids specs run_id db cursor) {k : String}
    (hk : k ∈ cursor._dag.nodes) :
    ∃ r ∈ db.task_runs.rows, r.run_id = run_id ∧ r.task_id = ids.task_id k ∧
      db.keyOf r = some k ∧ db.status run_id (ids.task_id k) = r.state.status := by
  rw [h.nodes] at hk
  obtain ⟨spec, hspec, rfl⟩ := List.mem_map.mp hk
  obtain ⟨run, hmem, hid, hw⟩ := h.run
  obtain ⟨hall, -⟩ := h.inv.materialised run hmem
  obtain ⟨r, hr, hrun, htask⟩ := hall _ (h.stored.mem spec hspec) hw.symm
  refine ⟨r, hr, hrun.trans hid, htask, ?_, ?_⟩
  · unfold Db.keyOf
    rw [htask, Table.get_of_mem (h.stored.mem spec hspec)]
    rfl
  · have hstatus := Db.status_of_mem h.inv.unique hr
    rw [hrun, htask, hid] at hstatus
    exact hstatus

/-- Paths of the graph are paths of the stored edges. -/
theorem below_of_above (h : Sim checks ids specs run_id db cursor) {k l : String}
    (habove : DagCursor.Above cursor._dag k l) :
    Precedence.Below db.parents (ids.task_id k) (ids.task_id l) := by
  have hedge : ∀ p c, p ∈ cursor._dag.parentsOf c → ids.task_id p ∈ db.parents (ids.task_id c) :=
    fun p c hp => (h.mem_parents (h.mirrored.declared p c hp).2).mpr ⟨p, hp, rfl⟩
  induction habove with
  | single hp => exact Relation.TransGen.single (hedge _ _ hp)
  | tail _ hp ih => exact ih.tail (hedge _ _ hp)

theorem above_of_below (h : Sim checks ids specs run_id db cursor) {l : String}
    (hl : l ∈ cursor._dag.nodes) {a : UUID} (hbelow : Precedence.Below db.parents a (ids.task_id l)) :
    ∃ k ∈ cursor._dag.nodes, ids.task_id k = a ∧ DagCursor.Above cursor._dag k l := by
  induction hbelow using Relation.TransGen.head_induction_on with
  | single hp =>
      obtain ⟨k, hk, rfl⟩ := (h.mem_parents hl).mp hp
      exact ⟨k, (h.mirrored.declared k l hk).1, rfl, Relation.TransGen.single hk⟩
  | head hp _ ih =>
      obtain ⟨m, hm, rfl, hpath⟩ := ih
      obtain ⟨k, hk, rfl⟩ := (h.mem_parents hm).mp hp
      exact ⟨k, (h.mirrored.declared k m hk).1, rfl, Relation.TransGen.head hk hpath⟩

/-! ### Agreement -/

/-- Rows in a set of states are nodes with the corresponding status. -/
theorem hasRow_iff (h : Sim checks ids specs run_id db cursor) {k : String} {p : TaskState → Prop}
    {s : Precedence.Status} (hp : ∀ r ∈ db.task_runs.rows, p r.state ↔ r.state.status = s) :
    db.HasRow run_id k p ↔ k ∈ cursor._dag.nodes ∧ db.status run_id (ids.task_id k) = s := by
  constructor
  · rintro ⟨r, hr, hkey, hstate⟩
    obtain ⟨hmem, hrun⟩ : r ∈ db.task_runs.rows ∧ r.run_id = run_id := by
      simpa [Db.runTasks] using hr
    obtain ⟨k', hk', htask, hkey'⟩ := h.node_of_row hmem hrun
    rw [hkey] at hkey'
    cases hkey'
    have hstatus := Db.status_of_mem h.inv.unique hmem
    rw [hrun, htask] at hstatus
    exact ⟨hk', hstatus.trans ((hp r hmem).mp hstate)⟩
  · rintro ⟨hk, hs⟩
    obtain ⟨r, hr, hrun, -, hkey, hstatus⟩ := h.row_of_node hk
    refine ⟨r, by simp [Db.runTasks, hr, hrun], hkey, (hp r hr).mpr ?_⟩
    rw [← hstatus, hs]

theorem mem_ready_iff (h : Sim checks ids specs run_id db cursor) (k : String) :
    k ∈ cursor.ready ↔ db.HasRow run_id k (fun s => s = .READY ∨ s = .RUNNING) := by
  have hstate : ∀ r ∈ db.task_runs.rows,
      (r.state = .READY ∨ r.state = .RUNNING ↔ r.state.status = .enabled) := by
    intro r hr
    have := (h.inv.good.lawful r hr).not_retrying
    rw [TaskState.status_eq_enabled]
    tauto
  rw [h.hasRow_iff hstate, DagCursor.mem_ready, h.succeeded, h.failed]
  have hco := h.inv.coherent run_id
  constructor
  · rintro ⟨hlook, hnot_done, hnot_failed⟩
    have hk : k ∈ cursor._dag.nodes := by
      rw [← h.keys]
      exact OrderedDict.lookup_isSome.mp (by rw [hlook]; rfl)
    have hzero : Precedence.unmet db.parents (db.status run_id) (ids.task_id k) = 0 := by
      rw [← h.unmet_eq hk]
      rw [h.counters k hk] at hlook
      simpa using hlook
    refine ⟨hk, ?_⟩
    have hdone := Precedence.unmet_eq_zero.mp hzero
    obtain ⟨r, -, -, -, -, hstatus⟩ := h.row_of_node hk
    cases hs : db.status run_id (ids.task_id k) with
    | enabled => rfl
    | absent =>
        rw [hs] at hstatus
        exact absurd hstatus.symm r.state.status_ne_absent
    | waiting =>
        have hpos := hco.waiting _ hs
        rw [hzero] at hpos
        exact absurd hpos (Nat.lt_irrefl 0)
    | done => exact absurd ⟨hk, hs⟩ hnot_done
    | failed => exact absurd ⟨hk, hs⟩ hnot_failed
    | blocked =>
        -- Some parent lies on the path from the failed ancestor, hence is not done.
        obtain ⟨a, hbelow, ha⟩ := hco.blocked _ hs
        obtain ⟨p, hap, hp⟩ := Relation.TransGen.tail'_iff.mp hbelow
        have hpd := hdone p hp
        rcases hap.cases_tail with rfl | ⟨q, haq, hq⟩
        · rw [ha] at hpd
          cases hpd
        · rw [hco.blocked_below (Relation.TransGen.tail' haq hq) (Or.inl ha)] at hpd
          cases hpd
    | cancelled => exact absurd hs (h.uncancelled _)
  · rintro ⟨hk, hs⟩
    refine ⟨?_, ?_, ?_⟩
    · rw [h.counters k hk, h.unmet_eq hk,
        Precedence.unmet_eq_zero.mpr (hco.released _ (Or.inl hs))]
      rfl
    · rintro ⟨-, hd⟩
      rw [hs] at hd
      cases hd
    · rintro ⟨-, hd⟩
      rw [hs] at hd
      cases hd

theorem blocked_ok (h : Sim checks ids specs run_id db cursor) :
    ∃ blocked, cursor.blocked = .ok blocked ∧
      ∀ k, k ∈ blocked ↔ db.HasRow run_id k (fun s => s = .BLOCKED) := by
  obtain ⟨blocked, hok, hmem⟩ := DagCursor.blocked_ok h.mirrored
    (fun x hx => ((h.failed x).mp hx).1)
  refine ⟨blocked, hok, fun k => ?_⟩
  rw [hmem, h.hasRow_iff (fun r _ => TaskState.status_eq_blocked.symm)]
  have hco := h.inv.coherent run_id
  constructor
  · rintro ⟨f, hf, hpath⟩
    obtain ⟨p, -, hedge⟩ := Relation.TransGen.tail'_iff.mp hpath
    exact ⟨(h.mirrored.declared p k hedge).2,
      hco.blocked_iff.mpr ⟨_, h.below_of_above hpath, ((h.failed f).mp hf).2⟩⟩
  · rintro ⟨hk, hs⟩
    obtain ⟨a, hbelow, ha⟩ := hco.blocked_iff.mp hs
    obtain ⟨f, hf, rfl, hpath⟩ := h.above_of_below hk hbelow
    exact ⟨f, (h.failed f).mpr ⟨hf, ha⟩, hpath⟩

/-- A waiting row counts what the cursor counts. -/
theorem pending_eq (h : Sim checks ids specs run_id db cursor) {r : TaskRun}
    (hr : r ∈ db.runTasks run_id) (hs : r.state = .PENDING) {key : String}
    (hkey : db.keyOf r = some key) :
    OrderedDict.lookup cursor._pending key = some r.pending_deps := by
  obtain ⟨hmem, hrun⟩ : r ∈ db.task_runs.rows ∧ r.run_id = run_id := by
    simpa [Db.runTasks] using hr
  obtain ⟨k, hk, htask, hkey'⟩ := h.node_of_row hmem hrun
  rw [hkey] at hkey'
  cases hkey'
  rw [h.counters key hk, h.unmet_eq hk, h.inv.counted r hmem hs, hrun, htask]

/-! ### Steps -/

/-- The cursor is told of a success. -/
theorem feed_succeeded (h : Sim checks ids specs run_id db cursor) (hinv : Inv checks db')
    (hstored : Stored ids specs db')
    (hrun : ∃ run ∈ db'.workflow_runs.rows, run.id = run_id ∧ run.workflow_id = ids.workflow_id)
    {k : String} (hk : k ∈ cursor._dag.nodes)
    (henabled : db.status run_id (ids.task_id k) = .enabled)
    (hstatus : db'.status run_id
      = Precedence.succeed db.parents (db.status run_id) (ids.task_id k)) :
    ∃ cursor', feed cursor (.succeeded k) = .ok cursor' ∧
      Sim checks ids specs run_id db' cursor' := by
  have hnew : k ∉ cursor._succeeded := by
    rw [h.succeeded]
    rintro ⟨-, hd⟩
    rw [henabled] at hd
    cases hd
  have hzero : cursor._dag.unmet cursor._succeeded k = 0 := by
    rw [h.unmet_eq hk]
    exact Precedence.unmet_eq_zero.mpr ((h.inv.coherent run_id).released _ (Or.inl henabled))
  obtain ⟨cursor', unblocked, hok, hdag, hsucceeded, hfailed, hkeys, hcounters⟩ :=
    DagCursor.mark_succeeded_ok h.mirrored h.counters hk hnew hzero
  refine ⟨cursor', by simp only [feed, hok]; rfl, hinv, hstored, hrun, by rw [hdag]; exact h.dag,
    by rw [hkeys, hdag]; exact h.keys, hcounters, fun l => ?_, fun l => ?_, fun c => ?_⟩
  · rw [hsucceeded, hdag, hstatus, List.mem_append, List.mem_singleton, h.succeeded,
      Precedence.succeed_done henabled]
    constructor
    · rintro (⟨hl, hd⟩ | rfl)
      · exact ⟨hl, Or.inr hd⟩
      · exact ⟨hk, Or.inl rfl⟩
    · rintro ⟨hl, he | hd⟩
      · exact Or.inr (h.inj hl hk he)
      · exact Or.inl ⟨hl, hd⟩
  · rw [hfailed, hdag, hstatus, List.mem_filter, decide_eq_true_eq, h.failed,
      Precedence.succeed_eq_iff henabled (Or.inl rfl)]
    refine and_iff_left_of_imp ?_
    rintro ⟨-, hf⟩ rfl
    rw [henabled] at hf
    cases hf
  · rw [hstatus, ne_eq, Precedence.succeed_eq_iff henabled (Or.inr rfl)]
    exact h.uncancelled c

/-- The cursor is told of a failure. -/
theorem feed_failed (h : Sim checks ids specs run_id db cursor) (hinv : Inv checks db')
    (hstored : Stored ids specs db')
    (hrun : ∃ run ∈ db'.workflow_runs.rows, run.id = run_id ∧ run.workflow_id = ids.workflow_id)
    {k : String} (hk : k ∈ cursor._dag.nodes)
    (henabled : db.status run_id (ids.task_id k) = .enabled)
    (hstatus : db'.status run_id
      = Precedence.fail db.parents (db.status run_id) (ids.task_id k)) :
    ∃ cursor', feed cursor (.failed k) = .ok cursor' ∧ Sim checks ids specs run_id db' cursor' := by
  have hco := h.inv.coherent run_id
  obtain ⟨cursor', hok, hdag, hsucceeded, hpending, hfailed⟩ := DagCursor.mark_failed_ok hk
  refine ⟨cursor', hok, hinv, hstored, hrun, by rw [hdag]; exact h.dag,
    by rw [hpending, hdag]; exact h.keys, by rw [hdag, hsucceeded, hpending]; exact h.counters,
    fun l => ?_, fun l => ?_, fun c => ?_⟩
  · rw [hsucceeded, hdag, hstatus, h.succeeded, hco.fail_eq_iff henabled (Or.inl rfl)]
  · rw [hfailed, hdag, hstatus, h.failed, hco.fail_failed henabled]
    constructor
    · rintro (⟨hl, hf⟩ | rfl)
      · exact ⟨hl, Or.inr hf⟩
      · exact ⟨hk, Or.inl rfl⟩
    · rintro ⟨hl, he | hf⟩
      · exact Or.inr (h.inj hl hk he)
      · exact Or.inl ⟨hl, hf⟩
  · rw [hstatus]
    unfold Precedence.fail
    split
    · simp
    · split
      · simp
      · exact h.uncancelled c

/-- **Every operation that does not cancel the run keeps the cursor in step.** -/
theorem track (h : Sim checks ids specs run_id db cursor) {op : Op} (hspares : op.spares run_id) :
    ∃ cursor', (Conductor.track checks run_id ⟨db, .ok cursor⟩ op).cursor = .ok cursor' ∧
      Sim checks ids specs run_id (serve checks db op) cursor' := by
  have hinv' := serve_inv h.inv op
  have hstored' := h.stored.kept h.inv op
  have hrun' := run_persists h.inv h.run op
  obtain ⟨run, hmem, hid, -⟩ := h.run
  have htold := told h.inv ⟨run, hmem, hid⟩ hspares
  unfold Conductor.track
  dsimp only
  generalize hσ : (serve checks db op).status run_id = σ at htold
  generalize eventOf checks db run_id op = event at htold
  have henabled : ∀ {row : TaskRun} {k : String}, row ∈ db.task_runs.rows → row.run_id = run_id →
      row.state = .RUNNING → row.task_id = ids.task_id k →
      db.status run_id (ids.task_id k) = .enabled := by
    rintro row k hrow rfl hrunning htask
    rw [← htask, Db.status_of_mem h.inv.unique hrow, hrunning]
    rfl
  -- A report is about a row of the run, and the row about a node of the graph.
  cases htold with
  | nothing =>
      refine ⟨cursor, rfl, hinv', hstored', hrun', h.dag, h.keys, h.counters, ?_, ?_, ?_⟩
      · rw [hσ]
        exact h.succeeded
      · rw [hσ]
        exact h.failed
      · rw [hσ]
        exact h.uncancelled
  | succeeded hrow hrid hrunning =>
      obtain ⟨k, hk, htask, hkey⟩ := h.node_of_row hrow hrid
      rw [htask] at hσ
      rw [hkey]
      exact h.feed_succeeded hinv' hstored' hrun' hk (henabled hrow hrid hrunning htask) hσ
  | failed hrow hrid hrunning =>
      obtain ⟨k, hk, htask, hkey⟩ := h.node_of_row hrow hrid
      rw [htask] at hσ
      rw [hkey]
      exact h.feed_failed hinv' hstored' hrun' hk (henabled hrow hrid hrunning htask) hσ


end Sim

/-! ## Whole runs -/

/-- A run that was just created for a workflow that `create` accepted, whatever
happened in between, and a new cursor over the workflow's graph. -/
structure Tracked.Start (checks : Bool) (specs : List TaskSpec) (run_id : UUID) (s : Tracked) :
    Prop where
  created : ∃ ids now name description db₀ db₁ workflow ops run_ids clock trigger_payload run,
    Reachable checks db₀ ∧
    exec (store checks) (create ids now name specs description) db₀ = .ok (db₁, workflow) ∧
    exec (store checks) (submitRun run_ids clock workflow.id trigger_payload)
      (List.foldl (serve checks) db₁ ops) = .ok (s.db, run) ∧
    run.id = run_id
  cursor : s.cursor = (Dag.from_dependencies (dependencyMap specs)).bind DagCursor.new

/-- A published workflow survives any operations. -/
theorem Stored.foldl {ids : WorkflowIds} {specs : List TaskSpec} (hinv : Inv checks db)
    (h : Stored ids specs db) (ops : List Op) :
    Inv checks (ops.foldl (serve checks) db) ∧ Stored ids specs (ops.foldl (serve checks) db) := by
  induction ops generalizing db with
  | nil => exact ⟨hinv, h⟩
  | cons op ops ih => exact ih (serve_inv hinv op) (h.kept hinv op)

theorem Tracked.Start.sim {specs : List TaskSpec} {run_id : UUID} {s : Tracked}
    (h : s.Start checks specs run_id) :
    ∃ ids cursor, s.cursor = .ok cursor ∧ Sim checks ids specs run_id s.db cursor := by
  obtain ⟨ids, now, name, description, db₀, db₁, workflow, ops, run_ids, clock, trigger_payload, run,
    hreach, hcreate, hsubmit, hid⟩ := h.created
  have hinv₀ := hreach.inv
  have hpublished := exec_create hcreate
  obtain ⟨hinv, hstored⟩ := (hpublished.stored hinv₀.definitions).foldl (hpublished.inv hinv₀) ops
  obtain ⟨workflow', hworkflow', hwid, rows, hcreated⟩ := exec_submitRun hsubmit
  have hinv' : Inv checks s.db := hcreated.inv hinv hworkflow'
  obtain ⟨dag, order, hdag, horder⟩ := hstored.checked.sorted
  obtain ⟨hm, -, -⟩ := Dag.from_dependencies_ok hdag
  have hstatus := hcreated.status_new hinv (hcreated.unique hinv)
  rw [hid] at hstatus
  -- Nothing has been done or failed in a new run, and the cursor has been told nothing.
  have hstart : ∀ c, s.db.status run_id c = .enabled ∨ s.db.status run_id c = .waiting ∨
      s.db.status run_id c = .absent := by
    intro c
    rw [hstatus, Precedence.start]
    split
    · split
      · exact Or.inl rfl
      · exact Or.inr (Or.inl rfl)
    · exact Or.inr (Or.inr rfl)
  refine ⟨ids, ⟨dag, dag.in_degrees, [], []⟩, ?_, hinv', ?_, ⟨run, ?_, hid, ?_⟩, hdag, ?_,
    Dag.counters_in_degrees hm, fun k => ?_, fun k => ?_, fun c => ?_⟩
  · rw [h.cursor, hdag]
    exact DagCursor.new_ok horder
  · exact hstored.congr (by rw [hcreated.frame]) (by rw [hcreated.frame]) (by rw [hcreated.frame])
  · rw [hcreated.runs']
    exact List.mem_append_right _ (List.mem_singleton.mpr rfl)
  · rw [hcreated.workflow_id, hwid, hpublished.workflow_id]
  · show (dag._parents.rows.map _).map Prod.fst = dag.nodes
    rw [List.map_map]
    exact hm.keys
  · refine iff_of_false List.not_mem_nil ?_
    rintro ⟨-, hd⟩
    rcases hstart (ids.task_id k) with hs | hs | hs <;> rw [hs] at hd <;> cases hd
  · refine iff_of_false List.not_mem_nil ?_
    rintro ⟨-, hd⟩
    rcases hstart (ids.task_id k) with hs | hs | hs <;> rw [hs] at hd <;> cases hd
  · rcases hstart c with hs | hs | hs <;> rw [hs] <;> simp

/-- **The queue refines `DagCursor`.** Take a run of a workflow that `create` accepted
and a cursor over the graph of its dependency map, and let any operations follow that
do not cancel the run, the cursor being told of every accepted success and of every
failure that ended a task. Then the cursor has not raised, `blocked()` does not
raise, and the two agree on every task of the run. -/
theorem queue_refines_cursor {specs : List TaskSpec} {run_id : UUID} {s : Tracked}
    (h : Lts.ReachVia (Tracked.Start checks specs run_id)
      (fun s op s' => track checks run_id s op = s') (fun _ op => op.spares run_id) s) :
    ∃ cursor blocked, s.cursor = .ok cursor ∧ cursor.blocked = .ok blocked ∧
      (∀ key, key ∈ cursor.ready ↔
        s.db.HasRow run_id key (fun state => state = .READY ∨ state = .RUNNING)) ∧
      (∀ key, key ∈ blocked ↔ s.db.HasRow run_id key (fun state => state = .BLOCKED)) ∧
      (∀ key, key ∈ cursor._succeeded ↔
        s.db.HasRow run_id key (fun state => state = .SUCCEEDED)) ∧
      (∀ key, key ∈ cursor._failed ↔
        s.db.HasRow run_id key (fun state => state = .DEAD_LETTER ∨ state = .FAILED)) ∧
      (∀ r ∈ s.db.runTasks run_id, r.state = .PENDING → ∃ key, s.db.keyOf r = some key ∧
        OrderedDict.lookup cursor._pending key = some r.pending_deps) := by
  have hsim : ∃ ids cursor, s.cursor = .ok cursor ∧ Sim checks ids specs run_id s.db cursor := by
    refine Lts.ReachVia.invariant (P := fun s => ∃ ids cursor, s.cursor = .ok cursor ∧
      Sim checks ids specs run_id s.db cursor) (fun s hs => hs.sim) ?_ h
    rintro ⟨db, _⟩ op s' - ⟨ids, cursor, rfl, hsim⟩ hspares rfl
    obtain ⟨cursor', hcursor, hsim'⟩ := hsim.track hspares
    exact ⟨ids, cursor', hcursor, hsim'⟩
  obtain ⟨ids, cursor, hcursor, hsim⟩ := hsim
  obtain ⟨blocked, hblocked, hmem⟩ := hsim.blocked_ok
  refine ⟨cursor, blocked, hcursor, hblocked, hsim.mem_ready_iff, hmem, fun key => ?_,
    fun key => ?_, fun r hr hs => ?_⟩
  · rw [hsim.succeeded, hsim.hasRow_iff (fun r _ => TaskState.status_eq_done.symm)]
  · rw [hsim.failed, hsim.hasRow_iff (fun r _ => ?_)]
    rw [TaskState.status_eq_failed]
    exact or_comm
  · obtain ⟨hmem, hrun⟩ : r ∈ s.db.task_runs.rows ∧ r.run_id = run_id := by
      simpa [Db.runTasks] using hr
    obtain ⟨key, -, -, hkey⟩ := hsim.node_of_row hmem hrun
    exact ⟨key, hkey, hsim.pending_eq hr hs hkey⟩

/-- The run of a chain, and a cursor over its graph. -/
def chainTracked : Tracked where
  db := served true (chainStart noRetry)
  cursor := (Dag.from_dependencies (dependencyMap (chainSpecs noRetry))).bind DagCursor.new

/-- The first task of the chain succeeds: the second is ready for both. -/
theorem queue_refines_cursor_chain :
    let s := List.foldl (track true 10) chainTracked
      [claimAt 0 "w1", .success (clockAt 1) 12 "w1" none]
    (∃ cursor, s.cursor = .ok cursor ∧ ∀ key, key ∈ cursor.ready ↔
      s.db.HasRow 10 key (fun state => state = .READY ∨ state = .RUNNING)) ∧
    s.db.task_runs.rows.map TaskRun.state = [.SUCCEEDED, .READY] := by
  have hstart : chainTracked.Start true (chainSpecs noRetry) 10 := by
    obtain ⟨workflow, hcreate⟩ : ∃ workflow, exec (store true)
        (create ⟨1, fun key => if key = "a" then 2 else 3⟩ 0 "chain" (chainSpecs noRetry) none)
        Db.empty = .ok (served true ((chainStart noRetry).take 1), workflow) :=
      exec_of_isOk (by decide +kernel)
    obtain ⟨run, hsubmit⟩ : ∃ run, exec (store true)
        (submitRun ⟨10, fun task => 10 + task⟩ (clockAt 0) 1 none)
        (served true ((chainStart noRetry).take 1)) = .ok (chainTracked.db, run) :=
      exec_of_isOk (by decide +kernel)
    obtain ⟨_, -, -, _, hcreated⟩ := exec_submitRun hsubmit
    refine ⟨⟨_, _, _, _, _, _, workflow, [], ⟨10, fun task => 10 + task⟩, clockAt 0, none, run,
      .start initial_empty, hcreate, ?_, hcreated.run_id⟩, rfl⟩
    rw [(exec_create hcreate).workflow_id]
    exact hsubmit
  have hrun : Lts.ReachVia (Tracked.Start true (chainSpecs noRetry) 10)
      (fun s op s' => track true 10 s op = s') (fun _ op => op.spares 10)
      (List.foldl (track true 10) chainTracked
        [claimAt 0 "w1", .success (clockAt 1) 12 "w1" none]) :=
    Lts.ReachVia.foldl (.start hstart) ⟨trivial, trivial, trivial⟩
  obtain ⟨cursor, -, hcursor, -, hready, -⟩ := queue_refines_cursor hrun
  exact ⟨⟨cursor, hcursor, hready⟩, by decide +kernel⟩

end Conductor
