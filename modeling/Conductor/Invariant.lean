/-
The invariant of the queue.

Every run of a workflow is an execution of its tasks under their dependencies, in
the sense of `Precedence`: `Db.status` reads it off the task rows. `Inv` says that
all of these executions are coherent, that the counters `pending_deps` are exact,
and what the tables have to agree on for that.

An operation on the queue rewrites rows in place (`Rewritten`); what it means for
the executions is a `Precedence.Step` on each run. `Inv.rewritten` puts the two
together, so that an operation has to show only its own part.
-/
import Conductor.WorkflowsSpec

set_option autoImplicit false

open Relational Txn

namespace Conductor

open RunRepository TaskQueueRepository WorkflowRepository

variable {checks : Bool}

/-! ## Runs as executions -/

/-- The status of a task in a run, from the state of its row. -/
def TaskState.status : TaskState → Precedence.Status
  | .PENDING => .waiting
  | .READY | .RUNNING | .RETRYING => .enabled
  | .SUCCEEDED => .done
  | .FAILED | .DEAD_LETTER => .failed
  | .BLOCKED => .blocked
  | .CANCELLED => .cancelled

theorem TaskState.status_ne_absent (s : TaskState) : s.status ≠ .absent := by
  cases s <;> decide

theorem TaskState.status_eq_waiting {s : TaskState} : s.status = .waiting ↔ s = .PENDING := by
  cases s <;> simp [TaskState.status]

theorem TaskState.status_eq_enabled {s : TaskState} :
    s.status = .enabled ↔ s = .READY ∨ s = .RUNNING ∨ s = .RETRYING := by
  cases s <;> simp [TaskState.status]

theorem TaskState.status_eq_done {s : TaskState} : s.status = .done ↔ s = .SUCCEEDED := by
  cases s <;> simp [TaskState.status]

theorem TaskState.status_eq_failed {s : TaskState} :
    s.status = .failed ↔ s = .FAILED ∨ s = .DEAD_LETTER := by
  cases s <;> simp [TaskState.status]

theorem TaskState.status_eq_blocked {s : TaskState} : s.status = .blocked ↔ s = .BLOCKED := by
  cases s <;> simp [TaskState.status]

namespace Db

/-- The row of a task in a run. -/
def row (db : Db) (run_id task_id : UUID) : Option TaskRun :=
  db.task_runs.rows.find? (fun r => r.run_id = run_id && r.task_id = task_id)

/-- A run as an execution. -/
def status (db : Db) (run_id task_id : UUID) : Precedence.Status :=
  ((db.row run_id task_id).map (fun r => r.state.status)).getD .absent

/-- A run has at most one row for a task. -/
def RowsUnique (db : Db) : Prop :=
  ∀ r ∈ db.task_runs.rows, ∀ s ∈ db.task_runs.rows, r.run_id = s.run_id → r.task_id = s.task_id →
    r = s

variable {db : Db}

/-- The row of a run for a task is the one with both ids. -/
theorem row_eq_some (hu : db.RowsUnique) {run_id task_id : UUID} {r : TaskRun} :
    db.row run_id task_id = some r ↔
      r ∈ db.task_runs.rows ∧ r.run_id = run_id ∧ r.task_id = task_id := by
  constructor
  · intro h
    have hp := List.find?_some h
    simp only [Bool.and_eq_true, decide_eq_true_eq] at hp
    exact ⟨List.mem_of_find?_eq_some h, hp⟩
  · rintro ⟨hr, rfl, rfl⟩
    cases h : db.row r.run_id r.task_id with
    | none =>
        rw [row, List.find?_eq_none] at h
        simpa using h r hr
    | some s =>
        have hs := List.mem_of_find?_eq_some h
        have hp := List.find?_some h
        simp only [Bool.and_eq_true, decide_eq_true_eq] at hp
        rw [hu s hs r hr hp.1 hp.2]

theorem row_eq_none {run_id task_id : UUID} :
    db.row run_id task_id = none ↔
      ∀ r ∈ db.task_runs.rows, r.run_id = run_id → r.task_id ≠ task_id := by
  simp [row, List.find?_eq_none]

/-- A row says the status of its task in its run. -/
theorem status_of_mem (hu : db.RowsUnique) {r : TaskRun} (hr : r ∈ db.task_runs.rows) :
    db.status r.run_id r.task_id = r.state.status := by
  rw [status, (row_eq_some hu).mpr ⟨hr, rfl, rfl⟩]
  rfl

theorem status_eq_absent {run_id task_id : UUID} :
    db.status run_id task_id = .absent ↔ db.row run_id task_id = none := by
  unfold status
  cases db.row run_id task_id with
  | none => simp
  | some r => simpa using r.state.status_ne_absent

/-- A task that is not absent has a row, and its status is that row's. -/
theorem exists_row_of_status (hu : db.RowsUnique) {run_id task_id : UUID} {s : Precedence.Status}
    (h : db.status run_id task_id = s) (hs : s ≠ .absent) :
    ∃ r ∈ db.task_runs.rows, r.run_id = run_id ∧ r.task_id = task_id ∧ r.state.status = s := by
  cases hr : db.row run_id task_id with
  | none => exact absurd (h ▸ status_eq_absent.mpr hr) hs
  | some r =>
      obtain ⟨hmem, h1, h2⟩ := (row_eq_some hu).mp hr
      refine ⟨r, hmem, h1, h2, ?_⟩
      rw [← h, ← h1, ← h2, status_of_mem hu hmem]

/-- Rewriting rows in place rewrites what a lookup by task finds. -/
theorem row_map {db' : Db} {g : TaskRun → TaskRun}
    (hrows : db'.task_runs.rows = db.task_runs.rows.map g)
    (hkeep : ∀ r ∈ db.task_runs.rows, (g r).run_id = r.run_id ∧ (g r).task_id = r.task_id)
    (run_id task_id : UUID) : db'.row run_id task_id = (db.row run_id task_id).map g := by
  unfold row
  rw [hrows, List.find?_map]
  congr 1
  generalize db.task_runs.rows = l at hkeep
  induction l with
  | nil => rfl
  | cons a l ih =>
      obtain ⟨h1, h2⟩ := hkeep a List.mem_cons_self
      rw [List.find?_cons, List.find?_cons, Function.comp_apply, h1, h2,
        ih (fun r hr => hkeep r (List.mem_cons_of_mem _ hr))]

end Db

/-! ## What an operation does to a row -/

/-- What one operation does to one row: nothing, one rewrite, or the decrement
and release of a waiting child. -/
inductive RowChange : TaskRun → TaskRun → Prop where
  | none (r : TaskRun) : RowChange r r
  | step {r r' : TaskRun} (h : RowStep r r') : RowChange r r'
  | unblock {r : TaskRun} (h : r.state = .PENDING) : RowChange r (unblocked r)

theorem unblocked_cases (r : TaskRun) :
    (unblocked r).run_id = r.run_id ∧ (unblocked r).task_id = r.task_id ∧
      (unblocked r).max_attempts = r.max_attempts ∧ (unblocked r).attempt = r.attempt := by
  simp only [unblocked]
  split <;> split <;> exact ⟨rfl, rfl, rfl, rfl⟩

namespace RowChange

variable {r r' : TaskRun}

/-- A changed row is of the same run and task, with the same budget, and no attempt is taken
back. -/
theorem keeps (h : RowChange r r') :
    r'.id = r.id ∧ r'.run_id = r.run_id ∧ r'.task_id = r.task_id ∧
      r'.max_attempts = r.max_attempts ∧ r.attempt ≤ r'.attempt := by
  cases h with
  | none => exact ⟨rfl, rfl, rfl, rfl, le_refl _⟩
  | step h => exact ⟨h.keeps.1, h.run_id, h.task_id, h.keeps.2.2.2.1, h.attempt_le⟩
  | unblock =>
      obtain ⟨h1, h2, h3, h4⟩ := unblocked_cases r
      exact ⟨unblocked_id r, h1, h2, h3, h4.ge⟩

/-- The change as rewrites one after the other. -/
theorem steps (h : RowChange r r') : Relation.ReflTransGen RowStep r r' := by
  cases h with
  | none => exact .refl
  | step h => exact .single h
  | unblock h =>
      simp only [unblocked]
      split
      · rename_i hpos
        split
        · exact (Relation.ReflTransGen.single (.decrement h hpos)).tail (.release h ‹_›)
        · exact .single (.decrement h hpos)
      · split
        · exact .single (.release h ‹_›)
        · exact .refl

theorem lawful (h : RowChange r r') (hr : r.Lawful) : r'.Lawful :=
  RowStep.lawful_of_steps h.steps hr

end RowChange

/-! ## The invariant -/

structure Inv (checks : Bool) (db : Db) : Prop where
  good : db.Good checks
  definitions : db.Definitions
  unique : db.RowsUnique
  /-- A row is for a task of its run's workflow, with the budget of the task's
  retry policy. -/
  defined : ∀ r ∈ db.task_runs.rows, ∃ run ∈ db.workflow_runs.rows, ∃ task ∈ db.tasks.rows,
    ∃ policy, run.id = r.run_id ∧ task.id = r.task_id ∧ task.workflow_id = run.workflow_id ∧
      build_policy (some task.retry_policy) = .ok policy ∧ r.max_attempts = policy.max_attempts
  /-- A run has a row for every task of its workflow, and a task at all. -/
  materialised : ∀ run ∈ db.workflow_runs.rows,
    (∀ task ∈ db.tasks.rows, task.workflow_id = run.workflow_id →
      ∃ r ∈ db.task_runs.rows, r.run_id = run.id ∧ r.task_id = task.id) ∧
    ∃ r ∈ db.task_runs.rows, r.run_id = run.id
  /-- A run's workflow exists. -/
  run_defined : ∀ run ∈ db.workflow_runs.rows, ∃ w ∈ db.workflows.rows, w.id = run.workflow_id
  /-- An attempt row belongs to a task row that has counted it. -/
  numbered : ∀ a ∈ db.task_attempts.rows, ∃ r ∈ db.task_runs.rows,
    r.id = a.task_run_id ∧ a.attempt ≤ r.attempt
  coherent : ∀ run_id, Precedence.Coherent db.parents (db.status run_id)
  counted : ∀ r ∈ db.task_runs.rows, r.state = .PENDING →
    r.pending_deps = Precedence.unmet db.parents (db.status r.run_id) r.task_id

/-- An operation that rewrites task rows by `g` and leaves the definitions alone. -/
structure Rewritten (checks : Bool) (db db' : Db) (g : TaskRun → TaskRun) : Prop where
  rows : db'.task_runs.rows = db.task_runs.rows.map g
  change : ∀ r ∈ db.task_runs.rows, RowChange r (g r)
  workflows : db'.workflows = db.workflows
  tasks : db'.tasks = db.tasks
  edges : db'.task_dependencies = db.task_dependencies
  runs : ∃ h : WorkflowRun → WorkflowRun, (∀ run, (h run).id = run.id ∧
    (h run).workflow_id = run.workflow_id) ∧
    db'.workflow_runs.rows = db.workflow_runs.rows.map h
  numbered : ∀ a ∈ db'.task_attempts.rows, ∃ r ∈ db'.task_runs.rows,
    r.id = a.task_run_id ∧ a.attempt ≤ r.attempt
  good : db'.Good checks

namespace Rewritten

variable {db db' : Db} {g : TaskRun → TaskRun}

theorem parents (h : Rewritten checks db db' g) : db'.parents = db.parents :=
  Db.parents_congr h.edges

theorem mem_rows (h : Rewritten checks db db' g) {r' : TaskRun} :
    r' ∈ db'.task_runs.rows ↔ ∃ r ∈ db.task_runs.rows, g r = r' := by
  rw [h.rows, List.mem_map]

/-- The row of a task is rewritten like any other. -/
theorem row (h : Rewritten checks db db' g) (run_id task_id : UUID) :
    db'.row run_id task_id = (db.row run_id task_id).map g := by
  refine Db.row_map h.rows (fun r hr => ?_) run_id task_id
  obtain ⟨-, h1, h2, -⟩ := (h.change r hr).keeps
  exact ⟨h1, h2⟩

/-- The status of a task after the operation is that of its rewritten row. -/
theorem status (h : Rewritten checks db db' g) (run_id task_id : UUID) :
    db'.status run_id task_id
      = ((db.row run_id task_id).map (fun r => (g r).state.status)).getD .absent := by
  unfold Db.status
  rw [h.row, Option.map_map]
  rfl

/-- A run whose rows all keep their status keeps its own. -/
theorem status_eq (hu : db.RowsUnique) (h : Rewritten checks db db' g) {run_id : UUID}
    (hkeep : ∀ r ∈ db.task_runs.rows, r.run_id = run_id → (g r).state.status = r.state.status) :
    db'.status run_id = db.status run_id := by
  funext c
  rw [h.status, Db.status]
  cases hr : db.row run_id c with
  | none => rfl
  | some r =>
      obtain ⟨hmem, hrun, -⟩ := (Db.row_eq_some hu).mp hr
      simp [hkeep r hmem hrun]

/-- No row is added, so no task of a run has two. -/
theorem unique (h : Rewritten checks db db' g) (hu : db.RowsUnique) : db'.RowsUnique := by
  intro r' hr' s' hs' hrun htask
  obtain ⟨r, hr, rfl⟩ := h.mem_rows.mp hr'
  obtain ⟨s, hs, rfl⟩ := h.mem_rows.mp hs'
  obtain ⟨-, hr1, hr2, -⟩ := (h.change r hr).keeps
  obtain ⟨-, hs1, hs2, -⟩ := (h.change s hs).keeps
  rw [hr1, hs1] at hrun
  rw [hr2, hs2] at htask
  rw [hu r hr s hs hrun htask]

end Rewritten

/-- **An operation keeps the invariant** when on every run it is a step of the
execution and leaves the counters exact. -/
theorem Inv.rewritten {db db' : Db} {g : TaskRun → TaskRun} (hinv : Inv checks db)
    (h : Rewritten checks db db' g)
    (hstep : ∀ run_id, Precedence.Step db.parents (db.status run_id) (db'.status run_id))
    (hcounted : ∀ r ∈ db.task_runs.rows, (g r).state = .PENDING →
      (g r).pending_deps = Precedence.unmet db.parents (db'.status r.run_id) r.task_id) :
    Inv checks db' := by
  obtain ⟨hrun, hrunkeep, hruns⟩ := h.runs
  refine ⟨h.good, hinv.definitions.congr h.workflows h.tasks h.edges, h.unique hinv.unique, ?_, ?_,
    ?_, h.numbered, ?_, ?_⟩
  -- The rows: each still has its run, its task and the budget of its policy.
  · intro r' hr'
    obtain ⟨r, hr, rfl⟩ := h.mem_rows.mp hr'
    obtain ⟨run, hmem, task, htask, policy, h1, h2, h3, h4, h5⟩ := hinv.defined r hr
    obtain ⟨-, k1, k2, k3, -⟩ := (h.change r hr).keeps
    rw [h.tasks, hruns]
    exact ⟨hrun run, List.mem_map_of_mem hmem, task, htask, policy,
      by rw [(hrunkeep run).1, k1, h1], by rw [k2, h2], by rw [(hrunkeep run).2, h3], h4,
      by rw [k3, h5]⟩
  -- The runs: each still has a row for every task.
  · intro run' hrun'
    rw [hruns] at hrun'
    obtain ⟨run, hmem, rfl⟩ := List.mem_map.mp hrun'
    obtain ⟨hall, r, hr, hid⟩ := hinv.materialised run hmem
    rw [(hrunkeep run).1, (hrunkeep run).2, h.tasks]
    constructor
    · intro task htask hw
      obtain ⟨r, hr, h1, h2⟩ := hall task htask hw
      obtain ⟨-, k1, k2, -⟩ := (h.change r hr).keeps
      exact ⟨g r, h.mem_rows.mpr ⟨r, hr, rfl⟩, k1.trans h1, k2.trans h2⟩
    · obtain ⟨-, k1, -⟩ := (h.change r hr).keeps
      exact ⟨g r, h.mem_rows.mpr ⟨r, hr, rfl⟩, k1.trans hid⟩
  · intro run' hrun'
    rw [hruns] at hrun'
    obtain ⟨run, hmem, rfl⟩ := List.mem_map.mp hrun'
    rw [(hrunkeep run).2, h.workflows]
    exact hinv.run_defined run hmem
  -- The statuses, by the step, and the counters, by hypothesis.
  · intro run_id
    rw [h.parents]
    exact (hinv.coherent run_id).step (hstep run_id)
  · intro r' hr' hs
    obtain ⟨r, hr, rfl⟩ := h.mem_rows.mp hr'
    obtain ⟨-, k1, k2, -⟩ := (h.change r hr).keeps
    rw [h.parents, k1, k2]
    exact hcounted r hr hs

/-- An operation on the queue: it rewrites rows by `g`, and on every run it is a
step of the execution. -/
structure QueueStep (checks : Bool) (db db' : Db) (g : TaskRun → TaskRun) : Prop where
  rewritten : Rewritten checks db db' g
  step : ∀ run_id, Precedence.Step db.parents (db.status run_id) (db'.status run_id)
  counted : ∀ r ∈ db.task_runs.rows, (g r).state = .PENDING →
    (g r).pending_deps = Precedence.unmet db.parents (db'.status r.run_id) r.task_id

theorem QueueStep.inv {db db' : Db} {g : TaskRun → TaskRun}
    (h : QueueStep checks db db' g) (hinv : Inv checks db) : Inv checks db' :=
  hinv.rewritten h.rewritten h.step h.counted

/-- The common case: no row changes its status or its counter. -/
theorem QueueStep.of_stay {db db' : Db} {g : TaskRun → TaskRun} (hinv : Inv checks db)
    (h : Rewritten checks db db' g)
    (hkeep : ∀ r ∈ db.task_runs.rows,
      (g r).state.status = r.state.status ∧ (g r).pending_deps = r.pending_deps) :
    QueueStep checks db db' g := by
  have hstatus : ∀ run_id, db'.status run_id = db.status run_id :=
    fun _ => h.status_eq hinv.unique (fun r hr _ => (hkeep r hr).1)
  refine ⟨h, fun run_id => ?_, fun r hr hs => ?_⟩
  · rw [hstatus]
    exact .stay _
  · obtain ⟨hst, hpd⟩ := hkeep r hr
    have hp : r.state = .PENDING := by
      rw [hs] at hst
      exact TaskState.status_eq_waiting.mp hst.symm
    rw [hpd, hstatus]
    exact hinv.counted r hr hp

/-- Attempt rows that keep their keys stay numbered when task rows only count
up. -/
theorem numbered_of_keys {db : Db} (hinv : Inv checks db) {db' : Db} {g : TaskRun → TaskRun}
    (hrows : db'.task_runs.rows = db.task_runs.rows.map g)
    (hchange : ∀ r ∈ db.task_runs.rows, RowChange r (g r))
    (hattempts : ∀ a' ∈ db'.task_attempts.rows, ∃ a ∈ db.task_attempts.rows, a'.pk = a.pk) :
    ∀ a ∈ db'.task_attempts.rows, ∃ r ∈ db'.task_runs.rows,
      r.id = a.task_run_id ∧ a.attempt ≤ r.attempt := by
  intro a' ha'
  obtain ⟨a, ha, hpk⟩ := hattempts a' ha'
  obtain ⟨r, hr, hid, hnum⟩ := hinv.numbered a ha
  obtain ⟨k1, -, -, -, k2⟩ := (hchange r hr).keeps
  rw [hrows]
  refine ⟨g r, List.mem_map_of_mem hr, ?_, ?_⟩
  · rw [k1, hid]
    exact (congrArg Prod.fst hpk).symm
  · rw [show a'.attempt = a.attempt from congrArg Prod.snd hpk]
    exact hnum.trans k2

/-- Closing attempt rows keeps their keys. -/
theorem closed_keys {db : Db} {p : TaskAttempt → Bool} {now : Time} {state : TaskState}
    {error : Option String} :
    ∀ a' ∈ db.task_attempts.rows.map (fun a => if p a then closedAttempt now state error a else a),
      ∃ a ∈ db.task_attempts.rows, a'.pk = a.pk := by
  intro a' ha'
  obtain ⟨a, ha, rfl⟩ := List.mem_map.mp ha'
  refine ⟨a, ha, ?_⟩
  split
  · exact closedAttempt_pk now state error a
  · rfl

end Conductor
