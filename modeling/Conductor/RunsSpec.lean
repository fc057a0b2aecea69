/-
What the queue operations do when they run alone.

One lemma per statement and per operation: if the transaction returns, this is
the database it leaves. The operations of the queue rewrite rows and never delete
one, so each lemma gives the new `task_runs` as the old ones rewritten row by
row; the rest of the development uses these equations and never unfolds a
program again.
-/
import Mathlib.Data.List.Sort
import Mathlib.Data.Finset.Dedup
import Conductor.Lib.Precedence
import Conductor.Rows

set_option autoImplicit false

open Relational Txn

namespace Conductor

open RunRepository TaskQueueRepository

variable {checks : Bool}

/-! ## Constraints of a write -/

theorem uniqueConflict_nil {ρ κ : Type} [DecidableEq κ] (name : String) (u : ρ → κ)
    (existing : List ρ) : uniqueConflict name u existing [] = none := by
  simp [uniqueConflict]

theorem uniqueConflict_eq_none {ρ κ : Type} [DecidableEq κ] {name : String} {u : ρ → κ}
    {existing new : List ρ} :
    uniqueConflict name u existing new = none ↔
      (∀ r ∈ new, ∀ s ∈ existing, u s ≠ u r) ∧ (new.map u).Nodup := by
  unfold uniqueConflict
  split
  · rename_i h
    simp only [Bool.or_eq_true, List.any_eq_true, decide_eq_true_eq, Bool.not_eq_true',
      decide_eq_false_iff_not] at h
    refine iff_of_false (by simp) ?_
    rintro ⟨h1, h2⟩
    rcases h with ⟨r, hr, s, hs, he⟩ | h
    · exact h1 r hr s hs he
    · exact h h2
  · rename_i h
    simp only [Bool.or_eq_true, List.any_eq_true, decide_eq_true_eq, Bool.not_eq_true',
      decide_eq_false_iff_not, not_or, not_exists, not_and, not_not] at h
    exact iff_of_true rfl h

@[simp] theorem store_overlay (d db : Db) : (store checks).overlay d db = d.overlay db := rfl

@[simp] theorem store_validate (kind : Kind) (db d : Db) :
    (store checks).validate kind db d = Db.validate checks kind db d := rfl

/-- An `UPDATE` of task rows is refused only by a `CHECK` on a row it writes. -/
theorem validate_taskRuns {kind : Kind} (hk : kind ≠ .insert) (db : Db)
    (t : Table UUID TaskRun TaskRun.id) :
    Db.validate checks kind db { Db.empty with task_runs := t } = none ↔
      (checks = true → ∀ r ∈ t.rows, r.violates = none) := by
  cases checks <;> simp [Db.validate, hk, Db.violates, Db.empty]

theorem validate_workflowRuns (db : Db) (t : Table UUID WorkflowRun WorkflowRun.id) :
    Db.validate checks .update db { Db.empty with workflow_runs := t } = none ↔
      (checks = true → ∀ r ∈ t.rows, r.violates = none) := by
  cases checks <;> simp [Db.validate, Db.violates, Db.empty]

theorem validate_attempts (db : Db) (t : Table (UUID × ℤ) TaskAttempt TaskAttempt.pk) :
    Db.validate checks .update db { Db.empty with task_attempts := t } = none ↔
      (checks = true → ∀ a ∈ t.rows, a.violates = none) := by
  cases checks <;> simp [Db.validate, Db.violates, Db.empty]

/-! ## Statements -/

/-- `UPDATE task_runs`: the matching rows are rewritten and returned. -/
theorem exec_updateTaskRuns {p : Db → TaskRun → Bool} {f : TaskRun → TaskRun}
    {hf : ∀ r, (f r).id = r.id} {db : Db} {out : Db × List TaskRun} :
    exec (store checks) (updateTaskRuns p f hf) db = .ok out ↔
      (checks = true → ∀ r ∈ db.task_runs.rows, p db r = true → (f r).violates = none) ∧
      out = ({ db with task_runs := db.task_runs.update (p db) f hf },
        (db.task_runs.rows.filter (p db)).map f) := by
  unfold updateTaskRuns
  rw [exec_write_ok, store_validate, validate_taskRuns (by decide), store_overlay]
  have hov : Db.overlay { Db.empty with task_runs := db.task_runs.updated (p db) f hf } db
      = { db with task_runs := db.task_runs.update (p db) f hf } := by
    simp [Db.overlay, Db.empty, Table.overlay_updated]
  simp only [hov, exec_ret, Except.ok.injEq, Table.rows_updated, List.mem_map, List.mem_filter]
  constructor
  · rintro ⟨hck, rfl⟩
    exact ⟨fun hc r hr hp => hck hc _ ⟨r, ⟨hr, hp⟩, rfl⟩, rfl⟩
  · rintro ⟨hck, rfl⟩
    refine ⟨fun hc r' hr' => ?_, rfl⟩
    obtain ⟨r, ⟨hr, hp⟩, rfl⟩ := hr'
    exact hck hc r hr hp

/-- `UPDATE workflow_runs`. -/
theorem exec_updateRuns {p : WorkflowRun → Bool} {f : WorkflowRun → WorkflowRun}
    {hf : ∀ r, (f r).id = r.id} {db : Db} {out : Db × Unit} :
    exec (store checks) (updateRuns p f hf) db = .ok out ↔
      (checks = true → ∀ r ∈ db.workflow_runs.rows, p r = true → (f r).violates = none) ∧
      out = ({ db with workflow_runs := db.workflow_runs.update p f hf }, ()) := by
  unfold updateRuns
  rw [exec_write_ok, store_validate, validate_workflowRuns, store_overlay]
  have hov : Db.overlay { Db.empty with workflow_runs := db.workflow_runs.updated p f hf } db
      = { db with workflow_runs := db.workflow_runs.update p f hf } := by
    simp [Db.overlay, Db.empty, Table.overlay_updated]
  simp only [hov, exec_ret, Except.ok.injEq, Table.rows_updated, List.mem_map, List.mem_filter]
  constructor
  · rintro ⟨hck, rfl⟩
    exact ⟨fun hc r hr hp => hck hc _ ⟨r, ⟨hr, hp⟩, rfl⟩, rfl⟩
  · rintro ⟨hck, rfl⟩
    refine ⟨fun hc r' hr' => ?_, rfl⟩
    obtain ⟨r, ⟨hr, hp⟩, rfl⟩ := hr'
    exact hck hc r hr hp

/-- `UPDATE task_attempts`. -/
theorem exec_updateAttempts {p : TaskAttempt → Bool} {f : TaskAttempt → TaskAttempt}
    {hf : ∀ a, (f a).pk = a.pk} {db : Db} {out : Db × Unit} :
    exec (store checks) (updateAttempts p f hf) db = .ok out ↔
      (checks = true → ∀ a ∈ db.task_attempts.rows, p a = true → (f a).violates = none) ∧
      out = ({ db with task_attempts := db.task_attempts.update p f hf }, ()) := by
  unfold updateAttempts
  rw [exec_write_ok, store_validate, validate_attempts, store_overlay]
  have hov : Db.overlay { Db.empty with task_attempts := db.task_attempts.updated p f hf } db
      = { db with task_attempts := db.task_attempts.update p f hf } := by
    simp [Db.overlay, Db.empty, Table.overlay_updated]
  simp only [hov, exec_ret, Except.ok.injEq, Table.rows_updated, List.mem_map, List.mem_filter]
  constructor
  · rintro ⟨hck, rfl⟩
    exact ⟨fun hc r hr hp => hck hc _ ⟨r, ⟨hr, hp⟩, rfl⟩, rfl⟩
  · rintro ⟨hck, rfl⟩
    refine ⟨fun hc r' hr' => ?_, rfl⟩
    obtain ⟨r, ⟨hr, hp⟩, rfl⟩ := hr'
    exact hck hc r hr hp

/-- New rows become a table exactly when their keys differ. -/
theorem exec_newTable {κ ρ : Type} {key : ρ → κ} [DecidableEq κ] {e : Exn} {rows : List ρ}
    {db : Db} {out : Db × Table κ ρ key} :
    exec (store checks) (newTable key e rows) db = .ok out ↔
      ∃ h : (rows.map key).Nodup, out = (db, ⟨rows, h⟩) := by
  unfold newTable
  split
  · rename_i h
    simp [h, eq_comm]
  · rename_i h
    simp [h]

/-! ## Good databases

What every statement of the queue relies on and keeps, whatever the operation. -/

/-- Every row is lawful by itself, and, where the schema checks it, within its
budget. -/
structure Db.Good (checks : Bool) (db : Db) : Prop where
  lawful : ∀ r ∈ db.task_runs.rows, r.Lawful
  budget : checks = true → ∀ r ∈ db.task_runs.rows, r.attempt ≤ r.max_attempts
  runs : ∀ run ∈ db.workflow_runs.rows, run.violates = none
  attempts : ∀ a ∈ db.task_attempts.rows, 1 ≤ a.attempt

namespace Db.Good

variable {db : Db}

section TaskRuns

variable {p : Db → TaskRun → Bool} {f : TaskRun → TaskRun} {hf : ∀ r, (f r).id = r.id}

/-- An update that rewrites rows and counts no attempt is never refused. -/
theorem exec_update (hg : db.Good checks)
    (hstep : ∀ r ∈ db.task_runs.rows, p db r = true → RowStep r (f r))
    (hattempt : ∀ r, (f r).attempt = r.attempt) :
    exec (store checks) (updateTaskRuns p f hf) db =
      .ok ({ db with task_runs := db.task_runs.update (p db) f hf },
        (db.task_runs.rows.filter (p db)).map f) := by
  refine exec_updateTaskRuns.mpr ⟨fun hck r hr hp => ?_, rfl⟩
  have hst := hstep r hr hp
  refine (hst.lawful (hg.lawful r hr)).violates_eq_none.mpr ?_
  rw [hattempt, hst.keeps.2.2.2.1]
  exact hg.budget hck r hr

/-- The same update keeps the database good. -/
theorem update (hg : db.Good checks) {q : TaskRun → Bool}
    (hstep : ∀ r ∈ db.task_runs.rows, q r = true → RowStep r (f r))
    (hattempt : ∀ r, (f r).attempt = r.attempt) :
    Db.Good checks { db with task_runs := db.task_runs.update q f hf } := by
  refine ⟨fun r' hr' => ?_, fun hck r' hr' => ?_, hg.runs, hg.attempts⟩
  · obtain ⟨r, hr, rfl⟩ := List.mem_map.mp hr'
    split
    · exact (hstep r hr ‹_›).lawful (hg.lawful r hr)
    · exact hg.lawful r hr
  · obtain ⟨r, hr, rfl⟩ := List.mem_map.mp hr'
    split
    · rw [hattempt, (hstep r hr ‹_›).keeps.2.2.2.1]
      exact hg.budget hck r hr
    · exact hg.budget hck r hr

end TaskRuns

/-- Closing an attempt row is never refused. -/
theorem exec_close_attempt (hg : db.Good checks) (clock : Clock) (task_run_id : UUID) (attempt : ℤ)
    (state : TaskState) (error : Option String) :
    exec (store checks) (close_attempt clock task_run_id attempt state error) db =
      .ok ({ db with
        task_attempts := db.task_attempts.update (openAttempt task_run_id attempt)
          (closedAttempt clock.now state error) (closedAttempt_pk clock.now state error) }, ()) := by
  refine exec_updateAttempts.mpr ⟨fun _ a ha _ => ?_, rfl⟩
  have hpos := hg.attempts a ha
  simp only [TaskAttempt.violates, closedAttempt]
  exact if_neg (by omega)

theorem updateAttempts (hg : db.Good checks) {p : TaskAttempt → Bool} {now : Time}
    {state : TaskState} {error : Option String} :
    Db.Good checks { db with
      task_attempts :=
        db.task_attempts.update p (closedAttempt now state error)
          (closedAttempt_pk now state error) } := by
  refine ⟨hg.lawful, hg.budget, hg.runs, fun a' ha' => ?_⟩
  obtain ⟨a, ha, rfl⟩ := List.mem_map.mp ha'
  split <;> exact hg.attempts a ha

/-- Refreshing a run row is never refused: a terminal run state is not `PENDING`,
so the refresh that stamps `finished_at` stamps `started_at` as well. -/
theorem refreshed_violates (now : Time) (derived : RunState) {run : WorkflowRun}
    (h : run.violates = none) : (refreshed now derived run).violates = none := by
  have hrun : run.finished_at.isSome = true → run.started_at.isSome = true := by
    intro hf
    unfold WorkflowRun.violates at h
    by_contra hs
    rw [if_pos (by simp_all)] at h
    cases h
  unfold WorkflowRun.violates
  rw [if_neg ?_]
  simp only [refreshed, Bool.and_eq_true, not_and]
  cases derived <;> cases hs : run.started_at <;> cases hf : run.finished_at <;>
    simp_all [RunState.is_terminal]

theorem exec_refresh (hruns : ∀ run ∈ db.workflow_runs.rows, run.violates = none) (clock : Clock)
    (run_id : UUID) :
    exec (store checks) (refresh_run_state clock run_id) db =
      .ok ({ db with
        workflow_runs := db.workflow_runs.update (fun run => run.id = run_id)
          (refreshed clock.now (derive_run_state (db.taskStates run_id)))
          (refreshed_id clock.now (derive_run_state (db.taskStates run_id))) },
        derive_run_state (db.taskStates run_id)) := by
  unfold refresh_run_state
  rw [exec_read, exec_bind, exec_updateRuns.mpr ⟨fun _ run hrun _ => ?_, rfl⟩]
  · rfl
  · exact refreshed_violates _ _ (hruns run hrun)

/-- A refresh in a good database passes its checks. -/
theorem exec_refresh_run_state (hg : db.Good checks) (clock : Clock) (run_id : UUID) :
    exec (store checks) (refresh_run_state clock run_id) db =
      .ok ({ db with
        workflow_runs := db.workflow_runs.update (fun run => run.id = run_id)
          (refreshed clock.now (derive_run_state (db.taskStates run_id)))
          (refreshed_id clock.now (derive_run_state (db.taskStates run_id))) },
        derive_run_state (db.taskStates run_id)) :=
  exec_refresh hg.runs clock run_id

theorem refresh (hg : db.Good checks) {p : WorkflowRun → Bool} {now : Time} {derived : RunState} :
    Db.Good checks { db with
      workflow_runs := db.workflow_runs.update p (refreshed now derived)
        (refreshed_id now derived) } := by
  refine ⟨hg.lawful, hg.budget, fun run' hrun' => ?_, hg.attempts⟩
  obtain ⟨run, hrun, rfl⟩ := List.mem_map.mp hrun'
  split
  · exact refreshed_violates _ _ (hg.runs run hrun)
  · exact hg.runs run hrun

end Db.Good

/-! ## Dependencies -/

/-- The tasks a task depends on. -/
def Db.parents (db : Db) (task_id : UUID) : Finset UUID :=
  ((db.task_dependencies.rows.filter (fun e => e.child_task_id = task_id)).map
    TaskDependency.parent_task_id).toFinset

theorem Db.mem_parents {db : Db} {p c : UUID} :
    p ∈ db.parents c ↔ (⟨p, c⟩ : TaskDependency) ∈ db.task_dependencies.rows := by
  simp only [Db.parents, List.mem_toFinset, List.mem_map, List.mem_filter, decide_eq_true_eq]
  constructor
  · rintro ⟨⟨p', c'⟩, ⟨he, rfl⟩, rfl⟩
    exact he
  · intro he
    exact ⟨_, ⟨he, rfl⟩, rfl⟩

theorem Db.parents_congr {db db' : Db} (h : db'.task_dependencies = db.task_dependencies) :
    db'.parents = db.parents := by
  funext c
  unfold Db.parents
  rw [h]

/-- The children of a frontier. -/
theorem mem_childTaskIds {db : Db} {frontier : List UUID} {c : UUID} :
    c ∈ childTaskIds db frontier ↔ ∃ p ∈ frontier, p ∈ db.parents c := by
  simp only [childTaskIds, List.mem_dedup, List.mem_map, List.mem_filter, decide_eq_true_eq,
    Db.mem_parents]
  constructor
  · rintro ⟨⟨p, c'⟩, ⟨he, hp⟩, rfl⟩
    exact ⟨p, hp, he⟩
  · rintro ⟨p, hp, he⟩
    exact ⟨_, ⟨he, hp⟩, rfl⟩

/-! ## Leases -/

/-- A row that satisfies the filter of a statement about one task row. -/
theorem filter_heldBy (db : Db) (task_run_id : UUID) (worker_id : String) :
    db.task_runs.rows.filter (heldBy task_run_id worker_id)
      = ((db.task_runs.get task_run_id).filter (heldBy task_run_id worker_id)).toList := by
  rw [← Table.filter_key]
  refine List.filter_congr (fun r _ => ?_)
  simp only [heldBy]
  by_cases h : r.id = task_run_id <;> simp [h]

/-- A row is held by the worker that runs it. -/
theorem heldBy_iff {task_run_id : UUID} {worker_id : String} {r : TaskRun} :
    heldBy task_run_id worker_id r = true ↔
      r.id = task_run_id ∧ r.worker_id = some worker_id ∧ r.state = .RUNNING := by
  simp [heldBy, and_assoc]

/-- A renewal passes its checks, whether a row matches or not. -/
theorem exec_renew_lease {db : Db} (hg : db.Good checks) (lease_seconds : ℚ) (clock : Clock)
    (task_run_id : UUID) (worker_id : String) :
    exec (store checks) (renew_lease lease_seconds clock task_run_id worker_id) db =
      .ok ({ db with
        task_runs := db.task_runs.update (heldBy task_run_id worker_id)
          (renewed (clock.utcnow + lease_seconds)) (renewed_id (clock.utcnow + lease_seconds)) },
        decide ((db.task_runs.rows.filter (heldBy task_run_id worker_id)).length = 1)) := by
  unfold renew_lease
  rw [exec_bind, hg.exec_update (f := renewed (clock.utcnow + lease_seconds))
    (fun r _ hp => .renew _ (heldBy_iff.mp hp).2.2) (fun _ => rfl)]
  simp [Except.bind]

/-! ## Success -/

/-- What the two statements of `_unblock_children` do to a waiting child. -/
def unblocked (r : TaskRun) : TaskRun :=
  let lowered := if 0 < r.pending_deps then decremented r else r
  if lowered.pending_deps = 0 then released lowered else lowered

/-- A row after `_unblock_children` of `row`. -/
def afterUnblock (db : Db) (row r : TaskRun) : TaskRun :=
  if waitingChild db row r then unblocked r else r

theorem unblocked_id (r : TaskRun) : (unblocked r).id = r.id := by
  simp only [unblocked]
  split <;> split <;> rfl

theorem afterUnblock_id (db : Db) (row r : TaskRun) : (afterUnblock db row r).id = r.id := by
  unfold afterUnblock
  split
  · exact unblocked_id r
  · rfl

theorem waitingChild_state {db : Db} {row r : TaskRun} (h : waitingChild db row r = true) :
    r.state = .PENDING := by
  simp only [waitingChild, Bool.and_eq_true, decide_eq_true_eq] at h
  exact h.2

/-- Which rows wait for `row` depends on the edges and on nothing else of the
database. -/
theorem waitingChild_congr {db db' : Db} {row row' r r' : TaskRun}
    (hedges : db'.task_dependencies = db.task_dependencies) (hrun : row'.run_id = row.run_id)
    (htask : row'.task_id = row.task_id) (hr : r'.run_id = r.run_id) (ht : r'.task_id = r.task_id)
    (hs : r'.state = r.state) : waitingChild db' row' r' = waitingChild db row r := by
  unfold waitingChild childTaskIds
  rw [hedges, hrun, htask, hr, ht, hs]

theorem afterUnblock_congr {db db' : Db} {row row' : TaskRun} (r : TaskRun)
    (hedges : db'.task_dependencies = db.task_dependencies) (hrun : row'.run_id = row.run_id)
    (htask : row'.task_id = row.task_id) : afterUnblock db' row' r = afterUnblock db row r := by
  unfold afterUnblock
  rw [waitingChild_congr hedges hrun htask rfl rfl rfl]

/-- The two updates of `_unblock_children` taken together. -/
theorem exec_unblock_children {db : Db} (hg : db.Good checks) {task_run_id : UUID} {row : TaskRun}
    (hrow : db.task_runs.get task_run_id = some row) :
    exec (store checks) (unblock_children task_run_id) db =
      .ok ({ db with
        task_runs := db.task_runs.mapRows (afterUnblock db row) (afterUnblock_id db row) }, ()) := by
  unfold unblock_children
  have hdec : ∀ r ∈ db.task_runs.rows, (waitingChild db row r && 0 < r.pending_deps) = true →
      RowStep r (decremented r) := by
    intro r _ hp
    rw [Bool.and_eq_true, decide_eq_true_eq] at hp
    exact .decrement (waitingChild_state hp.1) hp.2
  have hg1 : Db.Good checks { db with
      task_runs := db.task_runs.update (fun r => waitingChild db row r && 0 < r.pending_deps)
        decremented decremented_id } := hg.update hdec (fun _ => rfl)
  have hrel : ∀ db' : Db, ∀ r ∈ db'.task_runs.rows,
      (waitingChild db' row r && r.pending_deps = 0) = true → RowStep r (released r) := by
    intro db' r _ hp
    rw [Bool.and_eq_true, decide_eq_true_eq] at hp
    exact .release (waitingChild_state hp.1) hp.2
  rw [exec_read]
  simp only [hrow]
  rw [exec_bind, hg.exec_update (f := decremented) hdec (fun _ => rfl)]
  simp only [Except.bind]
  rw [exec_bind, hg1.exec_update (f := released) (hrel _) (fun _ => rfl)]
  simp only [Except.bind, Prog.pure_eq, exec_ret]
  congr 2
  -- The two updates, composed row by row.
  refine congrArg (fun t => { db with task_runs := t }) (Table.ext_rows ?_)
  simp only [Table.rows_update, Table.rows_mapRows, List.map_map]
  refine List.map_congr_left (fun r _ => ?_)
  have hw : ∀ r', r'.run_id = r.run_id → r'.task_id = r.task_id → r'.state = r.state →
      waitingChild { db with
        task_runs := db.task_runs.update (fun r => waitingChild db row r && 0 < r.pending_deps)
          decremented decremented_id } row r' = waitingChild db row r := by
    exact fun r' h1 h2 h3 => waitingChild_congr rfl rfl rfl h1 h2 h3
  simp only [Function.comp_apply, afterUnblock, unblocked]
  cases hwait : waitingChild db row r
  · simp [hw r rfl rfl rfl, hwait]
  · by_cases hpos : 0 < r.pending_deps
    · simp only [hpos, decide_true, Bool.and_self, if_true]
      rw [hw (decremented r) rfl rfl rfl, hwait]
      simp
    · simp only [hpos, decide_false, Bool.and_false, Bool.false_eq_true, if_false, if_true]
      rw [hw r rfl rfl rfl, hwait]
      simp

/-- A row after an accepted `record_success` for `row`. -/
def afterSuccess (db : Db) (row : TaskRun) (now : Time) (output : Option Dict) (r : TaskRun) :
    TaskRun :=
  if r.id = row.id then succeeded now output r else afterUnblock db row r

theorem afterSuccess_id (db : Db) (row : TaskRun) (now : Time) (output : Option Dict)
    (r : TaskRun) : (afterSuccess db row now output r).id = r.id := by
  unfold afterSuccess
  split
  · rfl
  · exact afterUnblock_id db row r

/-- Without the lease nothing is written. -/
theorem exec_record_success_lost {db : Db} (hg : db.Good checks) (clock : Clock)
    {task_run_id : UUID} {worker_id : String} (output : Option Dict)
    (hlost : ∀ r ∈ db.task_runs.rows, heldBy task_run_id worker_id r = false) :
    exec (store checks) (record_success clock task_run_id worker_id output) db
      = .ok (db, false) := by
  unfold record_success
  rw [exec_bind, hg.exec_update (f := succeeded clock.now output)
    (fun r _ hp => .succeed _ _ (heldBy_iff.mp hp).2.2) (fun _ => rfl)]
  have hnone : db.task_runs.rows.filter (heldBy task_run_id worker_id) = [] := by
    rw [List.filter_eq_nil_iff]
    intro r hr
    simp [hlost r hr]
  simp only [Except.bind, hnone, List.map_nil, Table.update_eq_self hlost, Prog.pure_eq, exec_ret]

/-- With the lease the row, its attempt and its children are written. -/
theorem exec_record_success_held {db : Db} (hg : db.Good checks) (clock : Clock)
    {task_run_id : UUID} {worker_id : String} (output : Option Dict) {row : TaskRun}
    (hrow : db.task_runs.get task_run_id = some row)
    (hheld : heldBy task_run_id worker_id row = true) :
    exec (store checks) (record_success clock task_run_id worker_id output) db =
      .ok ({ db with
        task_runs := db.task_runs.mapRows (afterSuccess db row clock.now output)
          (afterSuccess_id db row clock.now output)
        task_attempts := db.task_attempts.update (openAttempt task_run_id row.attempt)
          (closedAttempt clock.now .SUCCEEDED none) (closedAttempt_pk clock.now .SUCCEEDED none) },
        true) := by
  obtain ⟨hid, hworker, hrunning⟩ := heldBy_iff.mp hheld
  have hstep : ∀ r ∈ db.task_runs.rows, heldBy task_run_id worker_id r = true →
      RowStep r (succeeded clock.now output r) :=
    fun r _ hp => .succeed _ _ (heldBy_iff.mp hp).2.2
  have hone : db.task_runs.rows.filter (heldBy task_run_id worker_id) = [row] := by
    rw [filter_heldBy, hrow]
    simp [Option.filter, hheld]
  -- Among the rows, the filter of the first update is the row itself.
  have honly : ∀ r ∈ db.task_runs.rows,
      heldBy task_run_id worker_id r = decide (r.id = row.id) := by
    intro r hr
    by_cases hk : r.id = row.id
    · have he : r = row := db.task_runs.eq_of_key hr (Table.get_eq_some.mp hrow).1 hk
      rw [he]
      simp [hheld]
    · simp [heldBy, hk, ← hid]
  have hg1 : Db.Good checks { db with
      task_runs := db.task_runs.update (heldBy task_run_id worker_id)
        (succeeded clock.now output) (succeeded_id clock.now output) } :=
    hg.update hstep (fun _ => rfl)
  have hrow1 : (db.task_runs.update (heldBy task_run_id worker_id) (succeeded clock.now output)
      (succeeded_id clock.now output)).get task_run_id = some (succeeded clock.now output row) := by
    rw [Table.get_update, hrow, Option.map_some, if_pos hheld]
  unfold record_success
  rw [exec_bind, hg.exec_update (f := succeeded clock.now output) hstep (fun _ => rfl)]
  simp only [Except.bind, hone, List.map_cons, List.map_nil]
  rw [exec_bind, hg1.exec_close_attempt]
  simp only [Except.bind]
  rw [exec_bind, exec_unblock_children hg1.updateAttempts hrow1]
  simp only [Except.bind, Prog.pure_eq, exec_ret]
  congr 2
  refine congrArg₂ (fun t a => { db with task_runs := t, task_attempts := a })
    (Table.ext_rows ?_) rfl
  simp only [Table.rows_update, Table.rows_mapRows, List.map_map]
  refine List.map_congr_left (fun r hr => ?_)
  simp only [Function.comp_apply, honly r hr, afterSuccess, decide_eq_true_eq]
  by_cases hk : r.id = row.id
  · rw [if_pos hk, if_pos hk, afterUnblock, if_neg]
    intro hw
    exact absurd (waitingChild_state hw) (by simp [succeeded])
  · rw [if_neg hk, if_neg hk]
    exact afterUnblock_congr r rfl rfl rfl

/-! ## The blocking walk

`blockLoop` issues one `UPDATE` a level. All of them set the same columns of rows
that were `PENDING` or `READY` before the walk, so together they are one update
over the union of the levels. Every level but the last takes at least one row out
of `PENDING` and `READY`, which bounds the number of levels. -/

/-- No row of task `t` in the run is `PENDING` or `READY`. -/
def Clear (db : Db) (run_id t : UUID) : Prop :=
  ∀ r ∈ db.task_runs.rows, r.run_id = run_id → r.task_id = t → blockable run_id [t] r = false

theorem blockable_iff {run_id : UUID} {tasks : List UUID} {r : TaskRun} :
    blockable run_id tasks r = true ↔
      r.run_id = run_id ∧ r.task_id ∈ tasks ∧ (r.state = .PENDING ∨ r.state = .READY) := by
  simp [blockable, and_assoc]

theorem clear_iff {db : Db} {run_id t : UUID} :
    Clear db run_id t ↔ ∀ r ∈ db.task_runs.rows, r.run_id = run_id → r.task_id = t →
      ¬ (r.state = .PENDING ∨ r.state = .READY) := by
  refine forall₂_congr (fun r _ => forall₂_congr (fun hr ht => ?_))
  rw [← Bool.not_eq_true, blockable_iff]
  simp [hr, ht]

/-- The database after the rows of `tasks` in the run were blocked. -/
def blockTasks (db : Db) (now : Time) (run_id : UUID) (tasks : List UUID) : Db :=
  { db with
    task_runs := db.task_runs.update (blockable run_id tasks) (blocked now) (blocked_id now) }

theorem not_blockable_blocked (now : Time) (run_id : UUID) (tasks : List UUID) (r : TaskRun) :
    blockable run_id tasks (blocked now r) = false := by
  simp [blockable, blocked]

/-- Blocking twice is blocking the union. -/
theorem blockTasks_append (db : Db) (now : Time) (run_id : UUID) (s t : List UUID) :
    blockTasks (blockTasks db now run_id s) now run_id t = blockTasks db now run_id (s ++ t) := by
  refine congrArg (fun t => { db with task_runs := t }) (Table.ext_rows ?_)
  simp only [blockTasks, Table.rows_update, List.map_map]
  refine List.map_congr_left (fun r _ => ?_)
  have happend : blockable run_id (s ++ t) r = (blockable run_id s r || blockable run_id t r) := by
    rw [Bool.eq_iff_iff, Bool.or_eq_true, blockable_iff, blockable_iff, blockable_iff,
      List.mem_append]
    tauto
  rw [Function.comp_apply, happend]
  cases hs : blockable run_id s r
  · simp
  · simp [not_blockable_blocked]

/-- Blocking a level makes it clear. -/
theorem clear_blockTasks {db : Db} {now : Time} {run_id : UUID} {tasks : List UUID} {t : UUID} :
    Clear (blockTasks db now run_id tasks) run_id t ↔ t ∈ tasks ∨ Clear db run_id t := by
  have hmem : ∀ r', r' ∈ (blockTasks db now run_id tasks).task_runs.rows ↔
      ∃ r ∈ db.task_runs.rows, (if blockable run_id tasks r then blocked now r else r) = r' :=
    fun r' => List.mem_map
  rw [clear_iff, clear_iff]
  constructor
  · intro h
    by_cases ht : t ∈ tasks
    · exact Or.inl ht
    · refine Or.inr (fun r hr hrun htask => h r ((hmem r).mpr ⟨r, hr, if_neg ?_⟩) hrun htask)
      rw [blockable_iff, htask]
      exact fun hb => ht hb.2.1
  · intro h r' hr'
    obtain ⟨r, hr, rfl⟩ := (hmem r').mp hr'
    split
    · intro _ _ hs
      simp [blocked] at hs
    · rename_i hb
      intro hrun htask hs
      rcases h with h | h
      · exact hb (blockable_iff.mpr ⟨hrun, htask ▸ h, hs⟩)
      · exact h r hr hrun htask hs

/-- A row of the run a blocking walk could still take. -/
def walkable (run_id : UUID) (r : TaskRun) : Bool := blockable run_id [r.task_id] r

/-- What the walk may still block. -/
theorem walkable_iff {run_id : UUID} {r : TaskRun} :
    walkable run_id r = true ↔ r.run_id = run_id ∧ (r.state = .PENDING ∨ r.state = .READY) := by
  rw [walkable, blockable_iff]
  simp

/-- Each level that blocks a row leaves fewer to block. -/
theorem length_walkable_blockTasks_lt {db : Db} (now : Time) {run_id : UUID} {tasks : List UUID}
    {r : TaskRun} (hr : r ∈ db.task_runs.rows) (hb : blockable run_id tasks r = true) :
    ((blockTasks db now run_id tasks).task_runs.rows.filter (walkable run_id)).length
      < (db.task_runs.rows.filter (walkable run_id)).length := by
  have hw : ∀ r, walkable run_id (if blockable run_id tasks r then blocked now r else r)
      = (!blockable run_id tasks r && walkable run_id r) := by
    intro r
    split
    · rename_i hb
      simp [hb, walkable, not_blockable_blocked]
    · rename_i hb
      simp [hb]
  have hfilter : (blockTasks db now run_id tasks).task_runs.rows.filter (walkable run_id)
      = ((db.task_runs.rows.filter (walkable run_id)).filter
          (fun r => !blockable run_id tasks r)).map
        (fun r => if blockable run_id tasks r then blocked now r else r) := by
    simp only [blockTasks, Table.rows_update, List.filter_map, List.filter_filter]
    congr 1
    refine List.filter_congr (fun r _ => ?_)
    rw [Function.comp_apply, hw]
  rw [hfilter, List.length_map, List.length_filter_lt_length_iff_exists]
  obtain ⟨hrun, -, hs⟩ := blockable_iff.mp hb
  exact ⟨r, List.mem_filter.mpr ⟨hr, walkable_iff.mpr ⟨hrun, hs⟩⟩, by simp [hb]⟩

/-- What has to hold when the walk from `t₀` stands at `frontier`, for it to reach
everything below `t₀`: a task it is done with has no child left to block. -/
def WalkInv (db : Db) (run_id t₀ : UUID) (frontier : List UUID) : Prop :=
  ∀ p, p = t₀ ∨ (Precedence.Below db.parents t₀ p ∧ Clear db run_id p) →
    p ∈ frontier ∨ ∀ c, p ∈ db.parents c → Clear db run_id c

/-- With nothing left at the frontier, everything below `t₀` is clear. -/
theorem WalkInv.clear_below {db : Db} {run_id t₀ : UUID} (h : WalkInv db run_id t₀ [])
    {d : UUID} (hd : Precedence.Below db.parents t₀ d) : Clear db run_id d := by
  have hstep : ∀ p, p = t₀ ∨ (Precedence.Below db.parents t₀ p ∧ Clear db run_id p) →
      ∀ c, p ∈ db.parents c → Clear db run_id c :=
    fun p hp => (h p hp).resolve_left (List.not_mem_nil)
  induction hd with
  | single hedge => exact hstep _ (Or.inl rfl) _ hedge
  | tail hbelow hedge ih => exact hstep _ (Or.inr ⟨hbelow, ih⟩) _ hedge

theorem WalkInv.nil_of_children {db : Db} {run_id t₀ : UUID} {frontier : List UUID}
    (h : WalkInv db run_id t₀ frontier)
    (hchildren : ∀ c ∈ childTaskIds db frontier, Clear db run_id c) : WalkInv db run_id t₀ [] := by
  intro p hp
  refine Or.inr (fun c hc => ?_)
  rcases h p hp with hf | hall
  · exact hchildren c (mem_childTaskIds.mpr ⟨p, hf, hc⟩)
  · exact hall c hc

/-- The walk goes one level down. -/
theorem WalkInv.blockTasks {db : Db} {now : Time} {run_id t₀ : UUID} {frontier : List UUID}
    (h : WalkInv db run_id t₀ frontier) :
    WalkInv (blockTasks db now run_id (childTaskIds db frontier)) run_id t₀
      (childTaskIds db frontier) := by
  intro p hp
  by_cases hnew : p ∈ childTaskIds db frontier
  · exact Or.inl hnew
  · refine Or.inr (fun c hc => clear_blockTasks.mpr ?_)
    have hold : p = t₀ ∨ (Precedence.Below db.parents t₀ p ∧ Clear db run_id p) := by
      rcases hp with hp | ⟨hbelow, hclear⟩
      · exact Or.inl hp
      · exact Or.inr ⟨hbelow, (clear_blockTasks.mp hclear).resolve_left hnew⟩
    rcases h p hold with hf | hall
    · exact Or.inl (mem_childTaskIds.mpr ⟨p, hf, hc⟩)
    · exact Or.inr (hall c hc)

/-- Every task row satisfies the `CHECK`s of its table, as stored rows do. -/
def Db.Stored (checks : Bool) (db : Db) : Prop :=
  checks = true → ∀ r ∈ db.task_runs.rows, r.violates = none

theorem Db.Good.stored {db : Db} (hg : db.Good checks) : db.Stored checks :=
  fun hck r hr => (hg.lawful r hr).violates_eq_none.mpr (hg.budget hck r hr)

/-- Blocking a row that waits breaks no `CHECK`. -/
theorem violates_blocked (now : Time) {r : TaskRun} (h : r.state = .PENDING ∨ r.state = .READY) :
    (blocked now r).violates = r.violates := by
  have hidle : decide (r.state = .RUNNING) = false := by
    rcases h with h | h
    · rw [h]
      rfl
    · rw [h]
      rfl
  unfold TaskRun.violates
  rw [hidle]
  rfl

theorem Db.Stored.exec_block {db : Db} (hs : db.Stored checks) (now : Time) (run_id : UUID)
    (tasks : List UUID) :
    exec (store checks) (updateTaskRuns (fun _ => blockable run_id tasks) (blocked now)
        (blocked_id now)) db =
      .ok (blockTasks db now run_id tasks,
        (db.task_runs.rows.filter (blockable run_id tasks)).map (blocked now)) := by
  refine exec_updateTaskRuns.mpr ⟨fun hck r hr hb => ?_, rfl⟩
  rw [violates_blocked now (blockable_iff.mp hb).2.2]
  exact hs hck r hr

theorem Db.Stored.blockTasks {db : Db} (hs : db.Stored checks) (now : Time) (run_id : UUID)
    (tasks : List UUID) : (blockTasks db now run_id tasks).Stored checks := by
  intro hck r' hr'
  obtain ⟨r, hr, rfl⟩ := List.mem_map.mp hr'
  split
  · rename_i hb
    rw [violates_blocked now (blockable_iff.mp hb).2.2]
    exact hs hck r hr
  · exact hs hck r hr

theorem blockTasks_nil (db : Db) (now : Time) (run_id : UUID) : blockTasks db now run_id [] = db := by
  refine congrArg (fun t => { db with task_runs := t }) (Table.update_eq_self ?_)
  intro r _
  simp [blockable]

/-- **The blocking walk**, whatever the dependencies and the states of the rows. It blocks
rows strictly below its frontier and nothing else, the same rows for every number of rounds
that is more than the rows it could take; and if it kept `WalkInv` from the start, nothing
below `t₀` is left `PENDING` or `READY`. -/
theorem exec_blockLoop_stored (now : Time) (run_id t₀ : UUID) (frontier : List UUID) (db : Db)
    (hs : db.Stored checks) :
    ∃ tasks, (∀ rounds, (db.task_runs.rows.filter (walkable run_id)).length < rounds →
        exec (store checks) (blockLoop now run_id rounds frontier) db
          = .ok (blockTasks db now run_id tasks, ())) ∧
      (∀ c ∈ tasks, ∃ p ∈ frontier, Precedence.Below db.parents p c) ∧
      (WalkInv db run_id t₀ frontier →
        ∀ d, Precedence.Below db.parents t₀ d →
          Clear (blockTasks db now run_id tasks) run_id d) := by
  -- Every level that goes on takes a row, so the rows it could take are the measure.
  induction hn : (db.task_runs.rows.filter (walkable run_id)).length using Nat.strong_induction_on
    generalizing frontier db with
  | _ n ih =>
      subst hn
      -- The walk stops here: no row is touched.
      have hstop : (∀ c ∈ childTaskIds db frontier, Clear db run_id c) →
          (WalkInv db run_id t₀ frontier → ∀ d, Precedence.Below db.parents t₀ d →
            Clear (blockTasks db now run_id []) run_id d) := by
        intro hchildren hinv d hd
        rw [blockTasks_nil]
        exact (hinv.nil_of_children hchildren).clear_below hd
      cases frontier with
      | nil =>
          refine ⟨[], fun rounds _ => ?_, by simp, hstop ?_⟩
          · rw [blockTasks_nil]
            cases rounds with
            | zero => rfl
            | succ _ => rfl
          · intro c hc
            obtain ⟨p, hp, -⟩ := mem_childTaskIds.mp hc
            exact absurd hp List.not_mem_nil
      | cons task rest =>
          by_cases hempty : (childTaskIds db (task :: rest)).isEmpty = true
          · refine ⟨[], fun rounds hrounds => ?_, by simp, hstop ?_⟩
            · obtain ⟨rounds, rfl⟩ := Nat.exists_eq_succ_of_ne_zero (Nat.ne_zero_of_lt hrounds)
              simp only [blockLoop, exec_read]
              rw [if_pos hempty, exec_ret, blockTasks_nil]
            · intro c hc
              rw [List.isEmpty_iff.mp hempty] at hc
              exact absurd hc List.not_mem_nil
          by_cases hnone : db.task_runs.rows.filter
              (blockable run_id (childTaskIds db (task :: rest))) = []
          · -- "already blocked by another failing branch"
            have hno := List.filter_eq_nil_iff.mp hnone
            refine ⟨[], fun rounds hrounds => ?_, by simp, hstop ?_⟩
            · obtain ⟨rounds, rfl⟩ := Nat.exists_eq_succ_of_ne_zero (Nat.ne_zero_of_lt hrounds)
              have hsame : blockTasks db now run_id (childTaskIds db (task :: rest)) = db :=
                congrArg (fun t => { db with task_runs := t })
                  (Table.update_eq_self (fun r hr => by simpa using hno r hr))
              simp only [blockLoop, exec_read]
              rw [if_neg hempty, exec_bind, hs.exec_block]
              simp only [Except.bind]
              rw [hnone, List.map_nil, if_pos List.isEmpty_nil, exec_ret, hsame, blockTasks_nil]
            · intro c hc
              rw [clear_iff]
              intro r hr hrun htask hstate
              exact hno r hr (blockable_iff.mpr ⟨hrun, htask ▸ hc, hstate⟩)
          · obtain ⟨r, hr⟩ := List.exists_mem_of_ne_nil _ hnone
            obtain ⟨hr, hb⟩ := List.mem_filter.mp hr
            have hlt := length_walkable_blockTasks_lt now hr hb
            obtain ⟨tasks, hexec, hsound, hcomplete⟩ := ih _ hlt (childTaskIds db (task :: rest)) _
              (hs.blockTasks now run_id (childTaskIds db (task :: rest))) rfl
            refine ⟨childTaskIds db (task :: rest) ++ tasks, fun rounds hrounds => ?_, ?_, ?_⟩
            · obtain ⟨rounds, rfl⟩ := Nat.exists_eq_succ_of_ne_zero (Nat.ne_zero_of_lt hrounds)
              simp only [blockLoop, exec_read]
              rw [if_neg hempty, exec_bind, hs.exec_block]
              simp only [Except.bind]
              rw [if_neg (by simpa using hnone), ← blockTasks_append]
              exact hexec rounds (by omega)
            · intro c hc
              rcases List.mem_append.mp hc with hc | hc
              · obtain ⟨p, hp, hpc⟩ := mem_childTaskIds.mp hc
                exact ⟨p, hp, Relation.TransGen.single hpc⟩
              · obtain ⟨q, hq, hqc⟩ := hsound c hc
                obtain ⟨p, hp, hpq⟩ := mem_childTaskIds.mp hq
                exact ⟨p, hp, Relation.TransGen.head hpq hqc⟩
            · intro hinv d hd
              rw [← blockTasks_append]
              exact hcomplete hinv.blockTasks d hd

/-- The walk over rows that the queue wrote. -/
theorem exec_blockLoop (now : Time) (run_id t₀ : UUID) :
    ∀ (rounds : ℕ) (frontier : List UUID) (db : Db), db.Good checks →
      (db.task_runs.rows.filter (walkable run_id)).length < rounds →
      ∃ tasks, exec (store checks) (blockLoop now run_id rounds frontier) db
          = .ok (blockTasks db now run_id tasks, ()) ∧
        (∀ c ∈ tasks, ∃ p ∈ frontier, Precedence.Below db.parents p c) ∧
        (WalkInv db run_id t₀ frontier →
          ∀ d, Precedence.Below db.parents t₀ d →
            Clear (blockTasks db now run_id tasks) run_id d) := by
  intro rounds frontier db hg hrounds
  obtain ⟨tasks, hexec, hrest⟩ := exec_blockLoop_stored now run_id t₀ frontier db hg.stored
  exact ⟨tasks, hexec rounds hrounds, hrest⟩

/-- The walk from the task of a row. -/
theorem exec_block_descendants {db : Db} {clock : Clock} {rounds : ℕ} {task_run_id : UUID}
    {row : TaskRun} (hrow : db.task_runs.get task_run_id = some row) :
    exec (store checks) (block_descendants clock rounds task_run_id) db
      = exec (store checks) (blockLoop clock.now row.run_id rounds [row.task_id]) db := by
  unfold block_descendants
  rw [exec_read]
  simp only [hrow]

/-! ## Failure -/

theorem ownedBy_iff {task_run_id : UUID} {worker_id : String} {r : TaskRun} :
    ownedBy task_run_id worker_id r = true ↔
      r.id = task_run_id ∧ r.worker_id = some worker_id := by
  simp [ownedBy]

/-- Among the rows, the filter of `record_failure` selects the row it read. -/
theorem ownedBy_eq {db : Db} {worker_id : String} {row : TaskRun} (hrow : row ∈ db.task_runs.rows)
    (hworker : row.worker_id = some worker_id) {r : TaskRun} (hr : r ∈ db.task_runs.rows) :
    ownedBy row.id worker_id r = decide (r.id = row.id) := by
  by_cases hk : r.id = row.id
  · rw [db.task_runs.eq_of_key hr hrow hk]
    simp [ownedBy, hworker]
  · simp [ownedBy, hk]

/-- Without the lease nothing is decided. -/
theorem exec_record_failure_lost {db : Db} (clock : Clock) (uniform : ℚ → ℚ) (rounds : ℕ)
    {task_run_id : UUID} {worker_id : String} (error : String)
    (hlost : ∀ row, db.task_runs.get task_run_id = some row → row.worker_id ≠ some worker_id) :
    exec (store checks) (record_failure clock uniform rounds task_run_id worker_id error) db
      = .ok (db, none) := by
  unfold record_failure record_failure_with
  rw [exec_read]
  cases hrow : db.task_runs.get task_run_id with
  | none => rfl
  | some row => simp only [if_pos (hlost row hrow), exec_ret]

section Failure

variable {db : Db} {task_run_id : UUID} {worker_id : String} {row : TaskRun} {task : Task}
  {policy : RetryPolicy}

/-- A failure with attempts left: the row goes back to `READY`. -/
theorem exec_record_failure_retry (hg : db.Good checks) (clock : Clock) (uniform : ℚ → ℚ)
    (rounds : ℕ) (error : String) (hrow : db.task_runs.get task_run_id = some row)
    (hworker : row.worker_id = some worker_id) (htask : db.tasks.get row.task_id = some task)
    (hpolicy : build_policy (some task.retry_policy) = .ok policy)
    (hlt : row.attempt < policy.max_attempts) :
    ∃ delay, exec (store checks)
        (record_failure clock uniform rounds task_run_id worker_id error) db =
      .ok ({ db with
        task_runs := db.task_runs.update (ownedBy task_run_id worker_id)
          (requeuedForRetry (clock.utcnow + delay) error)
          (requeuedForRetry_id (clock.utcnow + delay) error)
        task_attempts := db.task_attempts.update (openAttempt task_run_id row.attempt)
          (closedAttempt clock.now .RETRYING (some error))
          (closedAttempt_pk clock.now .RETRYING (some error)) }, some .RETRYING) := by
  obtain ⟨hmem, rfl⟩ := Table.get_eq_some.mp hrow
  have hsome : row.worker_id.isSome = true := by rw [hworker]; rfl
  have hrunning := (hg.lawful row hmem).running_of_worker hsome
  have hpos := ((hg.lawful row hmem).held hrunning).2.2
  obtain ⟨hge, -⟩ | ⟨-, delay, hdelay⟩ := policy.next_delay_spec uniform hpos
  · omega
  have hstep : ∀ r ∈ db.task_runs.rows, ownedBy row.id worker_id r = true →
      RowStep r (requeuedForRetry (clock.utcnow + delay) error r) :=
    fun r _ hp => .retry _ _ (by rw [(ownedBy_iff.mp hp).2]; rfl)
  have hg1 : Db.Good checks { db with
      task_runs := db.task_runs.update (ownedBy row.id worker_id)
        (requeuedForRetry (clock.utcnow + delay) error)
        (requeuedForRetry_id (clock.utcnow + delay) error) } := hg.update hstep (fun _ => rfl)
  refine ⟨delay, ?_⟩
  unfold record_failure record_failure_with
  rw [exec_read]
  simp only [hrow, hworker, ne_eq, not_true_eq_false, if_false, htask, hpolicy, hdelay, Prog.lift,
    Prog.ret_bind, failForRetry]
  rw [exec_bind, hg.exec_update (f := requeuedForRetry (clock.utcnow + delay) error) hstep
    (fun _ => rfl)]
  simp only [Except.bind]
  rw [exec_bind, hg1.exec_close_attempt]
  rfl

/-- A row after `record_failure` for `row` found its retries exhausted and the
walk blocked `tasks`. -/
def afterFailure (row : TaskRun) (now : Time) (terminal : TaskState) (error : String)
    (tasks : List UUID) (r : TaskRun) : TaskRun :=
  if r.id = row.id then failedTerminally now terminal error r
  else if blockable row.run_id tasks r then blocked now r
  else r

theorem afterFailure_id (row : TaskRun) (now : Time) (terminal : TaskState) (error : String)
    (tasks : List UUID) (r : TaskRun) : (afterFailure row now terminal error tasks r).id = r.id := by
  unfold afterFailure
  split
  · rfl
  · split <;> rfl

theorem terminalOf_cases (row : TaskRun) :
    terminalOf row = .DEAD_LETTER ∨ terminalOf row = .FAILED := by
  unfold terminalOf
  split
  · exact Or.inl rfl
  · exact Or.inr rfl

/-- The database the blocking walk starts from: the failed row is terminal, its
attempt closed. -/
def failedDb (db : Db) (row : TaskRun) (worker_id : String) (now : Time) (error : String) : Db :=
  { db with
    task_runs := db.task_runs.update (ownedBy row.id worker_id)
      (failedTerminally now (terminalOf row) error) (failedTerminally_id now (terminalOf row) error)
    task_attempts := db.task_attempts.update (openAttempt row.id row.attempt)
      (closedAttempt now (terminalOf row) (some error))
      (closedAttempt_pk now (terminalOf row) (some error)) }

/-- What a failure does to each row. -/
theorem failedDb_rows (hmem : row ∈ db.task_runs.rows) (hworker : row.worker_id = some worker_id)
    (now : Time) (error : String) :
    (failedDb db row worker_id now error).task_runs.rows = db.task_runs.rows.map
      (fun r => if r.id = row.id then failedTerminally now (terminalOf row) error r else r) := by
  refine List.map_congr_left (fun r hr => ?_)
  simp [ownedBy_eq hmem hworker hr]

/-- Failing a running row takes nothing away from the walk and leaves it nothing
new. -/
theorem clear_failedDb (hmem : row ∈ db.task_runs.rows) (hworker : row.worker_id = some worker_id)
    (hrunning : row.state = .RUNNING) (now : Time) (error : String) (run_id d : UUID) :
    Clear (failedDb db row worker_id now error) run_id d ↔ Clear db run_id d := by
  rw [clear_iff, clear_iff, failedDb_rows hmem hworker]
  constructor
  · intro h r hr hrun htask hs
    have hk : r.id ≠ row.id := by
      intro hk
      rw [db.task_runs.eq_of_key hr hmem hk, hrunning] at hs
      rcases hs with hs | hs <;> cases hs
    exact h r (List.mem_map.mpr ⟨r, hr, if_neg hk⟩) hrun htask hs
  · intro h r' hr'
    obtain ⟨r, hr, rfl⟩ := List.mem_map.mp hr'
    split
    · intro _ _ hs
      rcases terminalOf_cases row with ht | ht <;> simp [failedTerminally, ht] at hs
    · exact h r hr

/-- A failure with no attempts left: the row ends, and the walk blocks rows below
it. -/
theorem exec_record_failure_terminal (hg : db.Good checks) (clock : Clock) (uniform : ℚ → ℚ)
    {rounds : ℕ} (error : String) (hrow : db.task_runs.get task_run_id = some row)
    (hworker : row.worker_id = some worker_id) (htask : db.tasks.get row.task_id = some task)
    (hpolicy : build_policy (some task.retry_policy) = .ok policy)
    (hge : policy.max_attempts ≤ row.attempt) (hrounds : db.task_runs.rows.length < rounds) :
    ∃ tasks, exec (store checks)
        (record_failure clock uniform rounds task_run_id worker_id error) db =
      .ok ({ db with
        task_runs := db.task_runs.mapRows
          (afterFailure row clock.now (terminalOf row) error tasks)
          (afterFailure_id row clock.now (terminalOf row) error tasks)
        task_attempts := db.task_attempts.update (openAttempt task_run_id row.attempt)
          (closedAttempt clock.now (terminalOf row) (some error))
          (closedAttempt_pk clock.now (terminalOf row) (some error)) }, some (terminalOf row)) ∧
      (∀ c ∈ tasks, Precedence.Below db.parents row.task_id c) ∧
      (WalkInv db row.run_id row.task_id [row.task_id] →
        ∀ d, Precedence.Below db.parents row.task_id d → d ∈ tasks ∨ Clear db row.run_id d) := by
  obtain ⟨hmem, rfl⟩ := Table.get_eq_some.mp hrow
  have hsome : row.worker_id.isSome = true := by rw [hworker]; rfl
  have hrunning := (hg.lawful row hmem).running_of_worker hsome
  have hpos := ((hg.lawful row hmem).held hrunning).2.2
  -- The policy gives no delay, so the branch is the terminal one.
  obtain ⟨-, hdelay⟩ | ⟨hlt, -⟩ := policy.next_delay_spec uniform hpos
  swap
  · omega
  have hstep : ∀ r ∈ db.task_runs.rows, ownedBy row.id worker_id r = true →
      RowStep r (failedTerminally clock.now (terminalOf row) error r) :=
    fun r _ hp => .fail _ _ _ (terminalOf_cases row) (by rw [(ownedBy_iff.mp hp).2]; rfl)
  have hg0 : Db.Good checks { db with
      task_runs := db.task_runs.update (ownedBy row.id worker_id)
        (failedTerminally clock.now (terminalOf row) error)
        (failedTerminally_id clock.now (terminalOf row) error) } := hg.update hstep (fun _ => rfl)
  have hg1 : (failedDb db row worker_id clock.now error).Good checks := hg0.updateAttempts
  have hget1 : (failedDb db row worker_id clock.now error).task_runs.get row.id
      = some (failedTerminally clock.now (terminalOf row) error row) := by
    unfold failedDb
    rw [Table.get_update, hrow, Option.map_some, if_pos (ownedBy_iff.mpr ⟨rfl, hworker⟩)]
  -- The walk starts after the row has failed, and finds the rows below as they were.
  have hclear := clear_failedDb hmem hworker hrunning clock.now error row.run_id
  have hlen : ((failedDb db row worker_id clock.now error).task_runs.rows.filter
      (walkable row.run_id)).length < rounds := by
    refine lt_of_le_of_lt (List.length_filter_le _ _) ?_
    rw [failedDb_rows hmem hworker, List.length_map]
    exact hrounds
  obtain ⟨tasks, hexec, hsound, hcomplete⟩ :=
    exec_blockLoop clock.now row.run_id row.task_id rounds [row.task_id] _ hg1 hlen
  refine ⟨tasks, ?_, ?_, ?_⟩
  · unfold record_failure record_failure_with
    rw [exec_read]
    simp only [hrow, hworker, ne_eq, not_true_eq_false, if_false, htask, hpolicy, hdelay, Prog.lift,
      Prog.ret_bind, failTerminally]
    rw [exec_bind, hg.exec_update (f := failedTerminally clock.now (terminalOf row) error) hstep
      (fun _ => rfl)]
    simp only [Except.bind]
    rw [exec_bind, hg0.exec_close_attempt]
    change exec (store checks)
      (block_descendants clock rounds row.id >>= fun _ => pure (some (terminalOf row)))
      (failedDb db row worker_id clock.now error) = _
    rw [exec_bind, exec_block_descendants hget1]
    change (exec (store checks) (blockLoop clock.now row.run_id rounds [row.task_id])
      (failedDb db row worker_id clock.now error)).bind _ = _
    rw [hexec]
    simp only [Except.bind, Prog.pure_eq, exec_ret]
    congr 2
    refine congrArg₂ (fun t a => { db with task_runs := t, task_attempts := a })
      (Table.ext_rows ?_) rfl
    simp only [Table.rows_update, Table.rows_mapRows]
    rw [failedDb_rows hmem hworker, List.map_map]
    -- Row by row: first the failure, then what the walk blocks, and never both.
    refine List.map_congr_left (fun r _ => ?_)
    simp only [Function.comp_apply, afterFailure]
    split
    · rw [if_neg]
      intro hb
      have hs := (blockable_iff.mp hb).2.2
      rcases terminalOf_cases row with ht | ht <;> simp [failedTerminally, ht] at hs
    · rfl
  · intro c hc
    obtain ⟨p, hp, hpc⟩ := hsound c hc
    rw [List.mem_singleton.mp hp] at hpc
    exact hpc
  · intro hinv d hd
    have hinv1 : WalkInv (failedDb db row worker_id clock.now error) row.run_id row.task_id
        [row.task_id] := by
      intro p hp
      rw [hclear] at hp
      exact (hinv p hp).imp id (fun h c hc => (hclear c).mpr (h c hc))
    exact (clear_blockTasks.mp (hcomplete hinv1 d hd)).imp id (hclear d).mp

end Failure

/-! ## Reaping and cancelling -/

theorem leaseExpired_state {now : Time} {r : TaskRun} (h : leaseExpired now r = true) :
    r.state = .RUNNING := by
  simp only [leaseExpired, Bool.and_eq_true, decide_eq_true_eq] at h
  exact h.1

/-- The attempt rows that the loop over the reaped rows closes. -/
def openAmong (rows : List TaskRun) (a : TaskAttempt) : Bool :=
  rows.any (fun r => openAttempt r.id r.attempt a)

/-- The attempts of the reaped rows are closed one after another. -/
theorem exec_closeReaped (clock : Clock) (rows : List TaskRun) {db : Db} (hg : db.Good checks) :
    exec (store checks) (closeReaped clock rows) db =
      .ok ({ db with
        task_attempts := db.task_attempts.update (openAmong rows)
          (closedAttempt clock.now .FAILED (some LEASE_EXPIRED))
          (closedAttempt_pk clock.now .FAILED (some LEASE_EXPIRED)) }, ()) := by
  induction rows generalizing db with
  | nil =>
      rw [closeReaped, exec_ret, Table.update_eq_self (p := openAmong []) (fun _ _ => rfl)]
  | cons row rest ih =>
      unfold closeReaped
      rw [exec_bind, hg.exec_close_attempt]
      simp only [Except.bind]
      rw [ih hg.updateAttempts]
      congr 2
      refine congrArg (fun t => { db with task_attempts := t }) (Table.ext_rows ?_)
      simp only [Table.rows_update, List.map_map]
      refine List.map_congr_left (fun a _ => ?_)
      -- A closed row is not open for the rest of the loop.
      have hclosed : openAmong rest (closedAttempt clock.now .FAILED (some LEASE_EXPIRED) a)
          = false := by
        simp [openAmong, openAttempt, closedAttempt]
      have hcons : openAmong (row :: rest) a
          = (openAttempt row.id row.attempt a || openAmong rest a) := by
        simp [openAmong]
      rw [Function.comp_apply, hcons]
      cases openAttempt row.id row.attempt a <;> simp [hclosed]

/-- A sweep passes its checks: a row without an owner is lawful. -/
theorem exec_reap_expired_leases {db : Db} (hg : db.Good checks) (clock : Clock) :
    exec (store checks) (reap_expired_leases clock) db =
      .ok ({ db with
        task_runs := db.task_runs.update (leaseExpired clock.utcnow) reaped reaped_id
        task_attempts := db.task_attempts.update
          (openAmong (db.task_runs.rows.filter (leaseExpired clock.utcnow)))
          (closedAttempt clock.now .FAILED (some LEASE_EXPIRED))
          (closedAttempt_pk clock.now .FAILED (some LEASE_EXPIRED)) },
        (db.task_runs.rows.filter (leaseExpired clock.utcnow)).length) := by
  have hstep : ∀ r ∈ db.task_runs.rows, leaseExpired clock.utcnow r = true →
      RowStep r (reaped r) := fun r _ hp => .reap (leaseExpired_state hp)
  have hg1 : Db.Good checks { db with
      task_runs := db.task_runs.update (leaseExpired clock.utcnow) reaped reaped_id } :=
    hg.update hstep (fun _ => rfl)
  unfold reap_expired_leases
  rw [exec_bind, hg.exec_update (f := reaped) hstep (fun _ => rfl)]
  simp only [Except.bind]
  rw [exec_bind, exec_closeReaped clock _ hg1]
  simp only [Except.bind, Prog.pure_eq, exec_ret, List.length_map]
  have hany : openAmong ((db.task_runs.rows.filter (leaseExpired clock.utcnow)).map reaped)
      = openAmong (db.task_runs.rows.filter (leaseExpired clock.utcnow)) := by
    funext a
    simp only [openAmong, List.any_map]
    rfl
  rw [hany]

/-- `cancel` refreshes the run from the rows it has just cancelled. No `CHECK` of a database
that satisfies them can refuse it. -/
theorem exec_cancel_stored {db : Db} (hlawful : ∀ r ∈ db.task_runs.rows, r.Lawful)
    (hstored : db.Stored checks) (hruns : ∀ run ∈ db.workflow_runs.rows, run.violates = none)
    (clock : Clock) (run_id : UUID) :
    let cancelledDb : Db := { db with
      task_runs := db.task_runs.update (cancellable run_id) (cancelled clock.now)
        (cancelled_id clock.now) }
    exec (store checks) (cancel clock run_id) db =
      .ok ({ cancelledDb with
        workflow_runs := db.workflow_runs.update (fun run => run.id = run_id)
          (refreshed clock.now (derive_run_state (cancelledDb.taskStates run_id)))
          (refreshed_id clock.now (derive_run_state (cancelledDb.taskStates run_id))) },
        (db.task_runs.rows.filter (cancellable run_id)).length) := by
  intro cancelledDb
  have hvalid : checks = true → ∀ r ∈ db.task_runs.rows, cancellable run_id r = true →
      (cancelled clock.now r).violates = none := by
    intro hck r hr hp
    simp only [cancellable, Bool.and_eq_true, decide_eq_true_eq] at hp
    have hlawful' := (RowStep.cancel clock.now hp.2).lawful (hlawful r hr)
    exact hlawful'.violates_eq_none.mpr
      ((hlawful r hr).violates_eq_none.mp (hstored hck r hr))
  have hruns' : ∀ run ∈ cancelledDb.workflow_runs.rows, run.violates = none := hruns
  unfold cancel
  rw [exec_bind, exec_updateTaskRuns.mpr ⟨hvalid, rfl⟩]
  simp only [Except.bind]
  rw [exec_bind, Db.Good.exec_refresh hruns']
  simp only [Except.bind, Prog.pure_eq, exec_ret, List.length_map]
  rfl

/-- A cancellation passes its checks. -/
theorem exec_cancel {db : Db} (hg : db.Good checks) (clock : Clock) (run_id : UUID) :
    let cancelledDb : Db := { db with
      task_runs := db.task_runs.update (cancellable run_id) (cancelled clock.now)
        (cancelled_id clock.now) }
    exec (store checks) (cancel clock run_id) db =
      .ok ({ cancelledDb with
        workflow_runs := db.workflow_runs.update (fun run => run.id = run_id)
          (refreshed clock.now (derive_run_state (cancelledDb.taskStates run_id)))
          (refreshed_id clock.now (derive_run_state (cancelledDb.taskStates run_id))) },
        (db.task_runs.rows.filter (cancellable run_id)).length) :=
  exec_cancel_stored hg.lawful hg.stored hg.runs clock run_id

/-! ## Inserting -/

theorem validate_insert {d db : Db} :
    (store checks).validate .insert db d = none ↔
      db.conflict d = none ∧ (checks = true → d.violates = none) := by
  cases checks <;> simp [Db.validate, Option.or_eq_none_iff]

theorem exec_insertRows {d db : Db} {handler : Exn → Exn} {out : Db × Unit} :
    exec (store checks) (insertRows d handler) db = .ok out ↔
      db.conflict d = none ∧ (checks = true → d.violates = none) ∧ out = (d.overlay db, ()) := by
  unfold insertRows
  rw [exec_write_ok, validate_insert, store_overlay, exec_ret, and_assoc]
  simp only [Except.ok.injEq, eq_comm]

/-- Inserting attempt rows: refused exactly when a `(task_run_id, attempt)` is
taken. -/
theorem exec_insertAttempts {db : Db} {handler : Exn → Exn}
    {t : Table (UUID × ℤ) TaskAttempt TaskAttempt.pk} {out : Db × Unit} :
    exec (store checks) (insertRows { Db.empty with task_attempts := t } handler) db = .ok out ↔
      (∀ a ∈ t.rows, ∀ b ∈ db.task_attempts.rows, b.pk ≠ a.pk) ∧
      (checks = true → ∀ a ∈ t.rows, 1 ≤ a.attempt) ∧
      out = ({ db with task_attempts := t.overlay db.task_attempts }, ()) := by
  rw [exec_insertRows]
  have hconf : db.conflict { Db.empty with task_attempts := t } = none ↔
      ∀ a ∈ t.rows, ∀ b ∈ db.task_attempts.rows, b.pk ≠ a.pk := by
    simp [Db.conflict, Db.empty, uniqueConflict_nil, uniqueConflict_eq_none, t.nodup]
  have hviol : Db.violates { Db.empty with task_attempts := t } = none ↔
      ∀ a ∈ t.rows, 1 ≤ a.attempt := by
    simp [Db.violates, Db.empty, TaskAttempt.violates]
  rw [hconf, hviol]
  simp [Db.overlay, Db.empty]

/-! ## Claiming -/

/-- The rows a claim takes. -/
def picked (tie : UUID → ℕ) (now : Time) (limit : ℕ) (db : Db) (r : TaskRun) : Bool :=
  r.id ∈ candidates tie now limit db.task_runs.rows

/-- A claim takes claimable rows only. -/
theorem claimable_of_picked {tie : UUID → ℕ} {now : Time} {limit : ℕ} {db : Db} {r : TaskRun}
    (hr : r ∈ db.task_runs.rows) (hp : picked tie now limit db r = true) :
    r.state = .READY ∧ r.scheduled_at ≤ now := by
  simp only [picked, candidates, decide_eq_true_eq, List.mem_map] at hp
  obtain ⟨s, hs, hk⟩ := hp
  have hs' := (List.mem_insertionSort _).mp (List.mem_of_mem_take hs)
  obtain ⟨hmem, hc⟩ := List.mem_filter.mp hs'
  rw [db.task_runs.eq_of_key hmem hr hk] at hc
  simpa [claimable] using hc

theorem picked_state {tie : UUID → ℕ} {now : Time} {limit : ℕ} {db : Db} {r : TaskRun}
    (hr : r ∈ db.task_runs.rows) (hp : picked tie now limit db r = true) : r.state = .READY :=
  (claimable_of_picked hr hp).1

/-- The rows a claim takes, as it leaves them. -/
def claimedRows (tie : UUID → ℕ) (clock : Clock) (limit : ℕ) (worker_id : String)
    (lease_until : Time) (db : Db) : List TaskRun :=
  (db.task_runs.rows.filter (picked tie clock.utcnow limit db)).map
    (claimed worker_id lease_until clock.now)

/-- What a claim needs besides good rows: definitions for its tasks, and no
attempt row numbered above its task row. -/
structure Db.Claimable (db : Db) : Prop where
  defined : ∀ r ∈ db.task_runs.rows, (db.tasks.get r.task_id).isSome = true
  numbered : ∀ a ∈ db.task_attempts.rows, ∀ r ∈ db.task_runs.rows,
    a.task_run_id = r.id → a.attempt ≤ r.attempt

theorem mapM_ok_iff {ε α β : Type} {f : α → Except ε β} {l : List α} {out : List β} :
    l.mapM f = .ok out ↔ List.Forall₂ (fun a b => f a = .ok b) l out := by
  induction l generalizing out with
  | nil =>
      rw [List.mapM_nil, List.forall₂_nil_left_iff]
      constructor
      · intro h
        cases h
        rfl
      · rintro rfl
        rfl
  | cons a l ih =>
      rw [List.mapM_cons, List.forall₂_cons_left_iff]
      cases hf : f a with
      | error e =>
          refine iff_of_false (fun h => by cases h) ?_
          rintro ⟨b, -, hb, -⟩
          cases hb
      | ok b =>
          cases hl : l.mapM f with
          | error e =>
              refine iff_of_false (fun h => by cases h) ?_
              rintro ⟨b', out', -, hrest, -⟩
              rw [ih.mpr hrest] at hl
              cases hl
          | ok rest =>
              constructor
              · intro h
                cases h
                exact ⟨b, rest, rfl, ih.mp hl, rfl⟩
              · rintro ⟨b', out', hb, hrest, rfl⟩
                cases hb
                rw [ih.mpr hrest] at hl
                cases hl
                rfl

theorem exists_right_of_forall₂ {α β : Type} {R : α → β → Prop} {l : List α} {out : List β}
    (h : List.Forall₂ R l out) {a : α} (ha : a ∈ l) : ∃ b ∈ out, R a b := by
  induction h with
  | nil => exact absurd ha List.not_mem_nil
  | cons hab _ ih =>
      rcases List.mem_cons.mp ha with rfl | ha
      · exact ⟨_, List.mem_cons_self, hab⟩
      · obtain ⟨b, hb, hR⟩ := ih ha
        exact ⟨b, List.mem_cons_of_mem _ hb, hR⟩

theorem exists_left_of_forall₂ {α β : Type} {R : α → β → Prop} {l : List α} {out : List β}
    (h : List.Forall₂ R l out) {b : β} (hb : b ∈ out) : ∃ a ∈ l, R a b :=
  exists_right_of_forall₂ h.flip hb

/-- Where every element has an image, the list has one. -/
theorem exists_forall₂ {α β : Type} {R : α → β → Prop} {l : List α}
    (h : ∀ a ∈ l, ∃ b, R a b) : ∃ out, List.Forall₂ R l out := by
  induction l with
  | nil => exact ⟨[], .nil⟩
  | cons a l ih =>
      obtain ⟨b, hb⟩ := h a List.mem_cons_self
      obtain ⟨out, hout⟩ := ih (fun a' ha' => h a' (List.mem_cons_of_mem _ ha'))
      exact ⟨b :: out, .cons hb hout⟩

section Claim

variable {db : Db} {tie : UUID → ℕ} {clock : Clock} {limit : ℕ} {worker_id : String}
  {lease_until : Time}

/-- The rows as the claim has written them. -/
theorem mem_claimedRows {r' : TaskRun} :
    r' ∈ claimedRows tie clock limit worker_id lease_until db ↔
      ∃ r, (r ∈ db.task_runs.rows ∧ picked tie clock.utcnow limit db r = true) ∧
        claimed worker_id lease_until clock.now r = r' := by
  simp only [claimedRows, List.mem_map, List.mem_filter]

/-- The attempt rows a claim adds. -/
def newAttempts (tie : UUID → ℕ) (clock : Clock) (limit : ℕ) (worker_id : String)
    (lease_until : Time) (db : Db) : List TaskAttempt :=
  (claimedRows tie clock limit worker_id lease_until db).map (newAttempt worker_id clock.now)

theorem newAttempts_nodup :
    ((newAttempts tie clock limit worker_id lease_until db).map TaskAttempt.pk).Nodup := by
  refine List.Nodup.of_map Prod.fst ?_
  simp only [newAttempts, claimedRows, List.map_map]
  exact (List.Sublist.map TaskRun.id List.filter_sublist).nodup db.task_runs.nodup

/-- A new attempt is that of a claimed row. -/
theorem mem_newAttempts {a : TaskAttempt}
    (ha : a ∈ newAttempts tie clock limit worker_id lease_until db) :
    ∃ r ∈ db.task_runs.rows, picked tie clock.utcnow limit db r = true ∧
      a = newAttempt worker_id clock.now (claimed worker_id lease_until clock.now r) := by
  obtain ⟨r', hr', rfl⟩ := List.mem_map.mp ha
  obtain ⟨r, ⟨hr, hp⟩, rfl⟩ := mem_claimedRows.mp hr'
  exact ⟨r, hr, hp, rfl⟩

/-- The attempt a claim opens is not there yet. -/
theorem newAttempts_fresh (hc : db.Claimable) :
    ∀ a ∈ newAttempts tie clock limit worker_id lease_until db, ∀ b ∈ db.task_attempts.rows,
      b.pk ≠ a.pk := by
  intro a ha b hb he
  obtain ⟨r, hr, -, rfl⟩ := mem_newAttempts ha
  have hid : b.task_run_id = r.id := congrArg Prod.fst he
  have hnum : b.attempt = r.attempt + 1 := congrArg Prod.snd he
  have := hc.numbered b hb r hr hid
  omega

theorem newAttempts_positive (hg : db.Good checks) :
    ∀ a ∈ newAttempts tie clock limit worker_id lease_until db, 1 ≤ a.attempt := by
  intro a ha
  obtain ⟨r, hr, -, rfl⟩ := mem_newAttempts ha
  have := (hg.lawful r hr).attempt_nonneg
  simp only [newAttempt, claimed]
  omega

/-- The rows a claim writes pass the schema exactly when none of them exceeds its
budget. -/
theorem claimedRows_violates (hg : db.Good checks) :
    (∀ r ∈ claimedRows tie clock limit worker_id lease_until db, r.violates = none) ↔
      ∀ r ∈ db.task_runs.rows, picked tie clock.utcnow limit db r = true →
        r.attempt < r.max_attempts := by
  have hone : ∀ r ∈ db.task_runs.rows, picked tie clock.utcnow limit db r = true →
      ((claimed worker_id lease_until clock.now r).violates = none ↔
        r.attempt < r.max_attempts) := fun r hr hp =>
    (RowStep.lawful (.claim _ _ _ (picked_state hr hp)) (hg.lawful r hr)).violates_eq_none
  refine ⟨fun h r hr hp => ?_, fun h r' hr' => ?_⟩
  · exact (hone r hr hp).mp (h _ (mem_claimedRows.mpr ⟨r, ⟨hr, hp⟩, rfl⟩))
  · obtain ⟨r, ⟨hr, hp⟩, rfl⟩ := mem_claimedRows.mp hr'
    exact (hone r hr hp).mpr (h r hr hp)

/-- The database after a claim. -/
def claimedDb (tie : UUID → ℕ) (clock : Clock) (limit : ℕ) (worker_id : String)
    (lease_until : Time) (db : Db) : Db :=
  { db with
    task_runs := db.task_runs.update (picked tie clock.utcnow limit db)
      (claimed worker_id lease_until clock.now) (claimed_id worker_id lease_until clock.now)
    task_attempts := Table.overlay
      ⟨newAttempts tie clock limit worker_id lease_until db, newAttempts_nodup⟩ db.task_attempts }

theorem claimedDb_attempts (hc : db.Claimable) :
    (claimedDb tie clock limit worker_id lease_until db).task_attempts.rows
      = db.task_attempts.rows ++ newAttempts tie clock limit worker_id lease_until db :=
  Table.rows_overlay_of_new (fun a ha => Table.get_eq_none.mpr (newAttempts_fresh hc a ha))

end Claim

/-- **A claim returns exactly when every row it takes has an attempt left** (or
the schema does not check), and this is what it leaves and hands out. -/
theorem exec_claim_batch {db : Db} (hg : db.Good checks) (hc : db.Claimable) (lease_seconds : ℚ)
    (clock : Clock) (tie : UUID → ℕ) (worker_id : String) (limit : ℕ)
    {out : Db × List ClaimedTask} :
    exec (store checks) (claim_batch lease_seconds clock tie worker_id limit) db = .ok out ↔
      (checks = true → ∀ r ∈ db.task_runs.rows, picked tie clock.utcnow limit db r = true →
        r.attempt < r.max_attempts) ∧
      List.Forall₂ (fun r c => toClaimedTask db r = .ok c)
        (claimedRows tie clock limit worker_id (clock.utcnow + lease_seconds) db) out.2 ∧
      out.1 = claimedDb tie clock limit worker_id (clock.utcnow + lease_seconds) db := by
  obtain ⟨db', results⟩ := out
  have hov : Db.overlay { Db.empty with
        task_runs := db.task_runs.updated (picked tie clock.utcnow limit db)
          (claimed worker_id (clock.utcnow + lease_seconds) clock.now)
          (claimed_id worker_id (clock.utcnow + lease_seconds) clock.now) } db
      = { db with
        task_runs := db.task_runs.update (picked tie clock.utcnow limit db)
          (claimed worker_id (clock.utcnow + lease_seconds) clock.now)
          (claimed_id worker_id (clock.utcnow + lease_seconds) clock.now) } := by
    simp [Db.overlay, Db.empty, Table.overlay_updated]
  unfold claim_batch
  rw [exec_write_ok, store_validate, validate_taskRuns (by decide), store_overlay]
  refine and_congr (forall_congr' (fun _ => claimedRows_violates hg)) ?_
  change exec _ (if (claimedRows tie clock limit worker_id (clock.utcnow + lease_seconds) db).isEmpty
    then _ else _) (Db.overlay { Db.empty with
      task_runs := db.task_runs.updated (picked tie clock.utcnow limit db)
        (claimed worker_id (clock.utcnow + lease_seconds) clock.now)
        (claimed_id worker_id (clock.utcnow + lease_seconds) clock.now) } db) = _ ↔ _
  rw [hov]
  by_cases hempty : claimedRows tie clock limit worker_id (clock.utcnow + lease_seconds) db = []
  -- A claim that takes nothing returns before it inserts an attempt.
  · have hnone : (claimedDb tie clock limit worker_id (clock.utcnow + lease_seconds) db).task_attempts
        = db.task_attempts := by
      refine Table.ext_rows ?_
      rw [claimedDb_attempts hc, newAttempts, hempty, List.map_nil, List.append_nil]
    rw [hempty, if_pos List.isEmpty_nil, exec_ret, List.forall₂_nil_left_iff]
    have hdb : claimedDb tie clock limit worker_id (clock.utcnow + lease_seconds) db
        = { db with
          task_runs := (claimedDb tie clock limit worker_id
            (clock.utcnow + lease_seconds) db).task_runs } := by
      conv_rhs => rw [← hnone]
      rfl
    constructor
    · intro h
      cases h
      exact ⟨rfl, hdb.symm⟩
    · rintro ⟨rfl, rfl⟩
      rw [hdb]
      rfl
  · rw [if_neg (by simpa using hempty), exec_read, exec_bind_ok]
    constructor
    -- The attempts are new: their numbers are those that the rows have just counted.
    · rintro ⟨db1, res, h1, h2⟩
      obtain ⟨res', hres, he⟩ := (exec_lift_ok _).mp h1
      cases he
      obtain ⟨db2, att, h3, h4⟩ := (exec_bind_ok _).mp h2
      obtain ⟨hnd, he⟩ := exec_newTable.mp h3
      cases he
      obtain ⟨db3, _, h5, h6⟩ := (exec_bind_ok _).mp h4
      obtain ⟨-, -, he⟩ := exec_insertAttempts.mp h5
      cases he
      cases h6
      exact ⟨mapM_ok_iff.mp hres, rfl⟩
    · rintro ⟨hres, rfl⟩
      refine ⟨_, results, (exec_lift_ok _).mpr ⟨results, mapM_ok_iff.mpr hres, rfl⟩, ?_⟩
      refine (exec_bind_ok _).mpr ⟨_, _, exec_newTable.mpr ⟨newAttempts_nodup, rfl⟩, ?_⟩
      exact (exec_bind_ok _).mpr ⟨_, _,
        exec_insertAttempts.mpr ⟨newAttempts_fresh hc, fun _ => newAttempts_positive hg, rfl⟩, rfl⟩

/-! ## Creating a run -/

/-- Inserting run rows is refused exactly when an id is taken. -/
theorem validate_insertRuns {db : Db} {t : Table UUID WorkflowRun WorkflowRun.id} :
    (store checks).validate .insert db { Db.empty with workflow_runs := t } = none ↔
      (∀ r ∈ t.rows, ∀ s ∈ db.workflow_runs.rows, s.id ≠ r.id) ∧
      (checks = true → ∀ r ∈ t.rows, r.violates = none) := by
  rw [validate_insert]
  have hconf : db.conflict { Db.empty with workflow_runs := t } = none ↔
      ∀ r ∈ t.rows, ∀ s ∈ db.workflow_runs.rows, s.id ≠ r.id := by
    simp [Db.conflict, Db.empty, uniqueConflict_nil, uniqueConflict_eq_none, t.nodup]
  have hviol : Db.violates { Db.empty with workflow_runs := t } = none ↔
      ∀ r ∈ t.rows, r.violates = none := by
    simp [Db.violates, Db.empty]
  rw [hconf, hviol]

theorem exec_insertRuns {db : Db} {handler : Exn → Exn}
    {t : Table UUID WorkflowRun WorkflowRun.id} {out : Db × Unit} :
    exec (store checks) (insertRows { Db.empty with workflow_runs := t } handler) db = .ok out ↔
      (∀ r ∈ t.rows, ∀ s ∈ db.workflow_runs.rows, s.id ≠ r.id) ∧
      (checks = true → ∀ r ∈ t.rows, r.violates = none) ∧
      out = ({ db with workflow_runs := t.overlay db.workflow_runs }, ()) := by
  unfold insertRows
  rw [exec_write_ok, validate_insertRuns, and_assoc, exec_ret]
  simp [Db.overlay, Db.empty, eq_comm]

/-- Inserting task rows is refused exactly when an id, or the task's place in its
run, is taken. -/
theorem validate_insertTaskRuns {db : Db} {t : Table UUID TaskRun TaskRun.id} :
    (store checks).validate .insert db { Db.empty with task_runs := t } = none ↔
      ((∀ r ∈ t.rows, ∀ s ∈ db.task_runs.rows, s.id ≠ r.id) ∧
        (∀ r ∈ t.rows, ∀ s ∈ db.task_runs.rows, (s.run_id, s.task_id) ≠ (r.run_id, r.task_id)) ∧
        (t.rows.map (fun r => (r.run_id, r.task_id))).Nodup) ∧
      (checks = true → ∀ r ∈ t.rows, r.violates = none) := by
  rw [validate_insert]
  have hconf : db.conflict { Db.empty with task_runs := t } = none ↔
      (∀ r ∈ t.rows, ∀ s ∈ db.task_runs.rows, s.id ≠ r.id) ∧
        (∀ r ∈ t.rows, ∀ s ∈ db.task_runs.rows, (s.run_id, s.task_id) ≠ (r.run_id, r.task_id)) ∧
        (t.rows.map (fun r => (r.run_id, r.task_id))).Nodup := by
    simp only [Db.conflict, Db.empty, Table.rows_empty, uniqueConflict_nil, Option.none_or,
      Option.or_none, Option.or_eq_none_iff, uniqueConflict_eq_none, t.nodup, and_true]
  have hviol : Db.violates { Db.empty with task_runs := t } = none ↔
      ∀ r ∈ t.rows, r.violates = none := by
    simp [Db.violates, Db.empty]
  rw [hconf, hviol]

theorem exec_insertTaskRuns {db : Db} {handler : Exn → Exn}
    {t : Table UUID TaskRun TaskRun.id} {out : Db × Unit} :
    exec (store checks) (insertRows { Db.empty with task_runs := t } handler) db = .ok out ↔
      ((∀ r ∈ t.rows, ∀ s ∈ db.task_runs.rows, s.id ≠ r.id) ∧
        (∀ r ∈ t.rows, ∀ s ∈ db.task_runs.rows, (s.run_id, s.task_id) ≠ (r.run_id, r.task_id)) ∧
        (t.rows.map (fun r => (r.run_id, r.task_id))).Nodup) ∧
      (checks = true → ∀ r ∈ t.rows, r.violates = none) ∧
      out = ({ db with task_runs := t.overlay db.task_runs }, ()) := by
  unfold insertRows
  rw [exec_write_ok, validate_insertTaskRuns, and_assoc, exec_ret]
  simp [Db.overlay, Db.empty, eq_comm]

/-- The tasks of a workflow. -/
def Db.workflowTasks (db : Db) (workflow_id : UUID) : List Task :=
  db.tasks.rows.filter (fun t => t.workflow_id = workflow_id)

/-- How many dependencies the map that `create_run` is given lists for a task. -/
def listedDependencies (dependencies : OrderedDict String (List String)) (task : Task) : ℕ :=
  ((OrderedDict.lookup dependencies task.key).getD []).length

/-- The row that `create_run` makes for a task. -/
def NewRow (ids : RunIds) (clock : Clock) (dependencies : OrderedDict String (List String))
    (task : Task) (r : TaskRun) : Prop :=
  ∃ policy, build_policy (some task.retry_policy) = .ok policy ∧
    r = newTaskRun ids clock (listedDependencies dependencies task) policy task

theorem mapM_newRow {ids : RunIds} {clock : Clock} {dependencies : OrderedDict String (List String)}
    {tasks : List Task} {rows : List TaskRun} :
    (tasks.mapM (fun task => do
      let unmet := ((OrderedDict.lookup dependencies task.key).getD []).length
      let policy ← build_policy (some task.retry_policy)
      return newTaskRun ids clock unmet policy task)) = .ok rows ↔
        List.Forall₂ (NewRow ids clock dependencies) tasks rows := by
  rw [mapM_ok_iff]
  refine ⟨fun h => h.imp (fun task r hr => ?_), fun h => h.imp (fun task r hr => ?_)⟩
  · cases hp : build_policy (some task.retry_policy) with
    | error e =>
        rw [hp] at hr
        cases hr
    | ok policy =>
        rw [hp] at hr
        cases hr
        exact ⟨policy, hp, rfl⟩
  · obtain ⟨policy, hp, rfl⟩ := hr
    rw [hp]
    rfl

/-- What `create_run` does when it returns: it appends a `PENDING` run and, for
every task of the workflow, a row that nobody had. -/
structure CreatedRun (ids : RunIds) (clock : Clock) (workflow : Workflow)
    (dependencies : OrderedDict String (List String)) (db db' : Db) (run : WorkflowRun)
    (rows : List TaskRun) : Prop where
  run_id : run.id = ids.run_id
  workflow_id : run.workflow_id = workflow.id
  pending : run.state = .PENDING ∧ run.started_at = none ∧ run.finished_at = none
  new_run : ∀ s ∈ db.workflow_runs.rows, s.id ≠ run.id
  tasks_ne : db.workflowTasks workflow.id ≠ []
  rows_eq : List.Forall₂ (NewRow ids clock dependencies) (db.workflowTasks workflow.id) rows
  new_rows : ∀ r ∈ rows, ∀ s ∈ db.task_runs.rows, s.id ≠ r.id
  runs' : db'.workflow_runs.rows = db.workflow_runs.rows ++ [run]
  task_runs' : db'.task_runs.rows = db.task_runs.rows ++ rows
  frame : db' = { db with workflow_runs := db'.workflow_runs, task_runs := db'.task_runs }

/-- What a submission that returns has written. -/
theorem exec_create_run {db db' : Db} {ids : RunIds} {clock : Clock} {workflow : Workflow}
    {dependencies : OrderedDict String (List String)} {trigger_payload : Option Dict}
    {run : WorkflowRun}
    (h : exec (store checks) (create_run ids clock workflow dependencies trigger_payload) db
      = .ok (db', run)) :
    ∃ rows, CreatedRun ids clock workflow dependencies db db' run rows := by
  unfold create_run at h
  obtain ⟨db1, t, h1, h⟩ := (exec_bind_ok _).mp h
  obtain ⟨hnd, he⟩ := exec_newTable.mp h1
  cases he
  obtain ⟨db2, _, h2, h⟩ := (exec_bind_ok _).mp h
  obtain ⟨hnew, -, he⟩ := exec_insertRuns.mp h2
  cases he
  obtain ⟨db3, tasks, h3, h⟩ := (exec_bind_ok _).mp h
  cases h3
  obtain ⟨db4, rows, h4, h⟩ := (exec_bind_ok _).mp h
  obtain ⟨rows', hrows, he⟩ := (exec_lift_ok _).mp h4
  cases he
  -- The check for tasks comes after the run has been sent.
  change exec _ (if (db.workflowTasks workflow.id).isEmpty = true then _ else _) _ = _ at h
  have hne : db.workflowTasks workflow.id ≠ [] := by
    intro hnil
    rw [if_pos (List.isEmpty_iff.mpr hnil)] at h
    cases h
  rw [if_neg (fun hnil => hne (List.isEmpty_iff.mp hnil))] at h
  obtain ⟨db6, t6, h6, h⟩ := (exec_bind_ok _).mp h
  obtain ⟨hnd6, he⟩ := exec_newTable.mp h6
  cases he
  obtain ⟨db7, _, h7, h⟩ := (exec_bind_ok _).mp h
  obtain ⟨⟨hids, -, -⟩, -, he⟩ := exec_insertTaskRuns.mp h7
  cases he
  cases h
  refine ⟨rows, rfl, rfl, ⟨rfl, rfl, rfl⟩, fun s hs => hnew _ (by simp) s hs, hne,
    mapM_newRow.mp hrows, hids, ?_, ?_, rfl⟩
  · exact Table.rows_overlay_of_new (fun r hr => Table.get_eq_none.mpr (hnew r hr))
  · exact Table.rows_overlay_of_new (fun r hr => Table.get_eq_none.mpr (hids r hr))

/-! ## What the statements of the queue write

Alone or interleaved, a statement of a queue operation leaves definitions and run
rows alone, and a task row it writes is a rewrite of the row it saw. -/

/-- Rows `d` written by a queue statement that saw `v`, all of them `P`. -/
structure QueueWrite (P : TaskRun → Prop) (v d : Db) : Prop where
  workflows : d.workflows = Table.empty
  tasks : d.tasks = Table.empty
  edges : d.task_dependencies = Table.empty
  runs : d.workflow_runs = Table.empty
  keys : d.idempotency_keys = Table.empty
  rows : ∀ r' ∈ d.task_runs.rows, P r' ∧ ∃ r ∈ v.task_runs.rows, RowStep r r'

section Writes

variable {P : TaskRun → Prop}

/-- Rows made from rows that are all `P`. -/
theorem writes_newTable {κ ρ : Type} {key : ρ → κ} [DecidableEq κ] {e : Exn} {rows : List ρ}
    {P : ρ → Prop} (hrows : ∀ r ∈ rows, P r) {W : Db → Db → Prop} {α : Type}
    {k : Table κ ρ key → Tx α} (hk : ∀ t : Table κ ρ key, (∀ r ∈ t.rows, P r) → (k t).Writes W) :
    (newTable key e rows >>= k).Writes W := by
  unfold newTable
  split
  · exact hk ⟨rows, by assumption⟩ hrows
  · exact .raise _

theorem writes_updateTaskRuns {p : Db → TaskRun → Bool} {f : TaskRun → TaskRun}
    {hf : ∀ r, (f r).id = r.id}
    (hstep : ∀ v, ∀ r ∈ v.task_runs.rows, p v r = true → P (f r) ∧ RowStep r (f r)) :
    (updateTaskRuns p f hf).Writes (QueueWrite P) := by
  refine .write (fun v => ⟨rfl, rfl, rfl, rfl, rfl, fun r' hr' => ?_⟩) (fun d => .ret _)
  obtain ⟨r, hmem, rfl⟩ := List.mem_map.mp hr'
  obtain ⟨hr, hp⟩ := List.mem_filter.mp hmem
  exact ⟨(hstep v r hr hp).1, r, hr, (hstep v r hr hp).2⟩

theorem writes_close_attempt (clock : Clock) (task_run_id : UUID) (attempt : ℤ)
    (state : TaskState) (error : Option String) :
    (close_attempt clock task_run_id attempt state error).Writes (QueueWrite P) :=
  .write (fun _ => ⟨rfl, rfl, rfl, rfl, rfl, fun _ hr => absurd hr List.not_mem_nil⟩)
    (fun _ => .ret _)

theorem writes_unblock_children (task_run_id : UUID)
    (hP : ∀ r : TaskRun, r.state = .PENDING ∨ r.state = .READY → P r) :
    (unblock_children task_run_id).Writes (QueueWrite P) := by
  refine .read (fun v => ?_)
  cases v.task_runs.get task_run_id with
  | none => exact .ret _
  | some row =>
      refine (writes_updateTaskRuns (fun w r _ hp => ?_)).bind (fun _ =>
        (writes_updateTaskRuns (fun w r _ hp => ?_)).bind (fun _ => .ret _))
      · simp only [Bool.and_eq_true, decide_eq_true_eq] at hp
        have hpending := waitingChild_state hp.1
        exact ⟨hP _ (Or.inl hpending), .decrement hpending hp.2⟩
      · simp only [Bool.and_eq_true, decide_eq_true_eq] at hp
        exact ⟨hP _ (Or.inr rfl), .release (waitingChild_state hp.1) hp.2⟩

/-- One level of the blocking walk. -/
theorem writes_block (now : Time) (run_id : UUID) (children : List UUID)
    (hP : ∀ r : TaskRun, r.state = .BLOCKED → r.run_id = run_id → r.task_id ∈ children → P r) :
    (updateTaskRuns (fun _ => blockable run_id children) (blocked now)
      (blocked_id now)).Writes (QueueWrite P) := by
  refine writes_updateTaskRuns (fun _ r _ hp => ?_)
  obtain ⟨hrun, htask, hstate⟩ := blockable_iff.mp hp
  exact ⟨hP _ rfl hrun htask, .block now hstate⟩

theorem writes_blockLoop (now : Time) (run_id : UUID) (rounds : ℕ) (frontier : List UUID)
    (hP : ∀ r : TaskRun, r.state = .BLOCKED → P r) :
    (blockLoop now run_id rounds frontier).Writes (QueueWrite P) := by
  induction rounds generalizing frontier with
  | zero =>
      cases frontier with
      | nil => exact .ret _
      | cons => exact .raise _
  | succ rounds ih =>
      cases frontier with
      | nil => exact .ret _
      | cons task tasks =>
          refine .read (fun v => ?_)
          dsimp only
          split
          · exact .ret _
          · refine (writes_block now run_id _ (fun r hr _ _ => hP r hr)).bind (fun rows => ?_)
            split
            · exact .ret _
            · exact ih _

theorem writes_block_descendants (clock : Clock) (rounds : ℕ) (task_run_id : UUID)
    (hP : ∀ r : TaskRun, r.state = .BLOCKED → P r) :
    (block_descendants clock rounds task_run_id).Writes (QueueWrite P) := by
  refine .read (fun v => ?_)
  cases v.task_runs.get task_run_id with
  | none => exact .ret _
  | some row => exact writes_blockLoop clock.now row.run_id rounds [row.task_id] hP

/-- A success writes its row and the children it unblocks. -/
theorem writes_record_success (clock : Clock) (task_run_id : UUID) (worker_id : String)
    (output : Option Dict) :
    (record_success clock task_run_id worker_id output).Writes (QueueWrite (fun r =>
      r.state = .SUCCEEDED ∧ r.id = task_run_id ∨ r.state = .PENDING ∨ r.state = .READY)) := by
  refine (writes_updateTaskRuns (fun _ r _ hp => ?_)).bind (fun closed => ?_)
  · obtain ⟨hid, -, hrunning⟩ := heldBy_iff.mp hp
    exact ⟨Or.inl ⟨rfl, hid⟩, .succeed _ _ hrunning⟩
  · match closed with
    | [row] =>
        exact (writes_close_attempt _ _ _ _ _).bind (fun _ =>
          (writes_unblock_children task_run_id (fun _ => Or.inr)).bind (fun _ => .ret _))
    | [] => exact .ret _
    | _ :: _ :: _ => exact .ret _

theorem ownedBy_worker {task_run_id : UUID} {worker_id : String} {r : TaskRun}
    (h : ownedBy task_run_id worker_id r = true) : r.worker_id.isSome = true := by
  rw [(ownedBy_iff.mp h).2]
  rfl

/-- The guarded update of `record_failure` when retries are exhausted. -/
theorem writes_fail (now : Time) (row : TaskRun) (worker_id error : String) :
    (updateTaskRuns (fun _ => ownedBy row.id worker_id)
      (failedTerminally now (terminalOf row) error)
      (failedTerminally_id now (terminalOf row) error)).Writes (QueueWrite (fun r =>
        (r.state = .DEAD_LETTER ∨ r.state = .FAILED) ∧ r.id = row.id)) :=
  writes_updateTaskRuns (fun _ _ _ hp => ⟨⟨terminalOf_cases row, (ownedBy_iff.mp hp).1⟩,
    .fail _ _ _ (terminalOf_cases row) (ownedBy_worker hp)⟩)

/-- The guarded update of `record_failure` when there is another attempt. -/
theorem writes_retry (scheduled_at : Time) (row : TaskRun) (worker_id error : String) :
    (updateTaskRuns (fun _ => ownedBy row.id worker_id) (requeuedForRetry scheduled_at error)
      (requeuedForRetry_id scheduled_at error)).Writes (QueueWrite (fun r => r.state = .READY)) :=
  writes_updateTaskRuns (fun _ _ _ hp => ⟨rfl, .retry _ _ (ownedBy_worker hp)⟩)

/-- Nothing is written where a run is loaded. -/
theorem writes_get_with_tasks {P : Db → Db → Prop} (run_id : UUID) :
    (get_with_tasks run_id).Writes P := by
  refine .read (fun v => ?_)
  cases v.workflow_runs.get run_id with
  | none => exact .ret _
  | some run => exact .read (fun _ => .ret _)

theorem writes_any {α : Type} {tx : Tx α} (h : tx.Writes (QueueWrite P)) :
    tx.Writes (QueueWrite (fun _ => True)) :=
  h.mono (fun _ _ hd => ⟨hd.workflows, hd.tasks, hd.edges, hd.runs, hd.keys,
    fun r' hr' => ⟨trivial, (hd.rows r' hr').2⟩⟩)

/-- A failure writes its row, and below it only rows that it blocks. -/
theorem writes_record_failure (clock : Clock) (uniform : ℚ → ℚ) (rounds : ℕ) (task_run_id : UUID)
    (worker_id : String) (error : String) :
    (record_failure clock uniform rounds task_run_id worker_id error).Writes
      (QueueWrite (fun _ => True)) := by
  refine .read (fun v => ?_)
  cases v.task_runs.get task_run_id with
  | none => exact .ret _
  | some row =>
      dsimp only
      split
      · exact .ret _
      · split
        · exact .raise _
        · refine (Prog.Writes.lift _).bind (fun policy => (Prog.Writes.lift _).bind (fun delay => ?_))
          cases delay with
          | none =>
              exact (writes_any (writes_fail _ row _ _)).bind (fun _ =>
                (writes_close_attempt _ _ _ _ _).bind (fun _ =>
                  (writes_block_descendants _ _ _ (fun _ _ => trivial)).bind (fun _ => .ret _)))
          | some delay =>
              exact (writes_any (writes_retry _ row _ _)).bind (fun _ =>
                (writes_close_attempt _ _ _ _ _).bind (fun _ => .ret _))

/-- A claim writes the rows it picks. -/
theorem writes_claim_batch (lease_seconds : ℚ) (clock : Clock) (tie : UUID → ℕ)
    (worker_id : String) (limit : ℕ) :
    (claim_batch lease_seconds clock tie worker_id limit).Writes
      (QueueWrite (fun r => r.state = .RUNNING)) := by
  refine .write (fun v => ⟨rfl, rfl, rfl, rfl, rfl, fun r' hr' => ?_⟩) (fun d => ?_)
  · obtain ⟨r, hmem, rfl⟩ := List.mem_map.mp hr'
    obtain ⟨hr, hp⟩ := List.mem_filter.mp hmem
    exact ⟨rfl, r, hr, .claim _ _ _ (picked_state hr hp)⟩
  · split
    · exact .ret _
    · refine .read (fun v => (Prog.Writes.lift _).bind (fun results => ?_))
      unfold newTable
      split
      · exact .write (fun _ => ⟨rfl, rfl, rfl, rfl, rfl, fun _ hr => absurd hr List.not_mem_nil⟩)
          (fun _ => .ret _)
      · exact .raise _

theorem writes_renew_lease (lease_seconds : ℚ) (clock : Clock) (task_run_id : UUID)
    (worker_id : String) :
    (renew_lease lease_seconds clock task_run_id worker_id).Writes
      (QueueWrite (fun r => r.state = .RUNNING)) := by
  refine (writes_updateTaskRuns (fun _ r _ hp => ?_)).bind (fun _ => .ret _)
  obtain ⟨-, -, hrunning⟩ := heldBy_iff.mp hp
  exact ⟨hrunning, .renew _ hrunning⟩

theorem writes_closeReaped (clock : Clock) (rows : List TaskRun) :
    (closeReaped clock rows).Writes (QueueWrite P) := by
  induction rows with
  | nil => exact .ret _
  | cons row rest ih => exact (writes_close_attempt _ _ _ _ _).bind (fun _ => ih)

theorem writes_reap_expired_leases (clock : Clock) :
    (reap_expired_leases clock).Writes (QueueWrite (fun r => r.state = .READY)) := by
  refine (writes_updateTaskRuns (fun _ r _ hp => ?_)).bind (fun rows =>
    (writes_closeReaped clock rows).bind (fun _ => .ret _))
  exact ⟨rfl, .reap (leaseExpired_state hp)⟩

/-- The update of `cancel`. -/
theorem writes_cancel (now : Time) (run_id : UUID) :
    (updateTaskRuns (fun _ => cancellable run_id) (cancelled now) (cancelled_id now)).Writes
      (QueueWrite (fun r => r.state = .CANCELLED ∧ r.run_id = run_id)) := by
  refine writes_updateTaskRuns (fun _ r _ hp => ?_)
  simp only [cancellable, Bool.and_eq_true, decide_eq_true_eq] at hp
  exact ⟨⟨rfl, hp.1⟩, .cancel now hp.2⟩

/-- A transaction of queue statements leaves the run rows alone. -/
theorem runs_of_writes {α : Type} {tx : Tx α} (h : tx.Writes (QueueWrite P)) {db db' : Db} {a : α}
    (hexec : exec (store checks) tx db = .ok (db', a)) : db'.workflow_runs = db.workflow_runs := by
  have hkeep : ∀ v d : Db, v.workflow_runs = db.workflow_runs → QueueWrite P v d →
      ((store checks).overlay d v).workflow_runs = db.workflow_runs := by
    intro v d hv hd
    show d.workflow_runs.overlay v.workflow_runs = _
    rw [hd.runs, Table.empty_overlay, hv]
  exact h.exec (store checks) hkeep rfl hexec

end Writes

end Conductor
