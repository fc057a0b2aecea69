/-
Sessions of every kind, side by side.

`Interleaving` lets the transactions of the queue meet each other, on definitions and runs
that were there before. When workflows are published and runs submitted meanwhile, much of
what holds of transactions one at a time is lost. What is left of the committed database
is `Db.Sturdy`: the rows are lawful, the definitions belong together, every run has one row
for each task of its workflow, and the record of a finished run is true.

It is carried by what a session may write (`Authored`, `Worked`), rewrites of committed rows
or rows of a workflow or a run of its own, and by what it has seen, which is still there
(`Keeps`). The two theorems at the end are about commits: the session's own leaves the
database sturdy, and that of another one is not felt.
-/
import Conductor.Versions
import Conductor.Inspection

set_option autoImplicit false

open Relational Txn

namespace Conductor

open RunRepository TaskQueueRepository WorkflowRepository

variable {checks : Bool} {db db' db'' own own' d v : Db} {trace trace' : List (Event Db)}
  {run_id : UUID}

/-! ## What is there stays -/

/-- Task rows are rewritten, run rows refreshed, and definitions left alone; a task row that
is new is of a run that had none, and a task that is new of a workflow that had none. -/
structure Keeps (db db' : Db) : Prop where
  rows : ∀ r ∈ db.task_runs.rows, ∃ r' ∈ db'.task_runs.rows, RowSteps r r'
  new_rows : ∀ r' ∈ db'.task_runs.rows, Known db r' ∨ ∀ r ∈ db.task_runs.rows, r.run_id ≠ r'.run_id
  runs : ∀ run ∈ db.workflow_runs.rows, ∃ run' ∈ db'.workflow_runs.rows, RunSteps run run'
  workflows : ∀ w ∈ db.workflows.rows, w ∈ db'.workflows.rows
  tasks : ∀ t ∈ db.tasks.rows, t ∈ db'.tasks.rows
  new_tasks : ∀ t' ∈ db'.tasks.rows, t' ∈ db.tasks.rows ∨
    ∀ t ∈ db.tasks.rows, t.workflow_id ≠ t'.workflow_id

namespace Keeps

theorem refl (db : Db) : Keeps db db :=
  ⟨fun r hr => ⟨r, hr, .refl⟩, fun r hr => Or.inl ⟨r, hr, .refl⟩,
    fun run hrun => ⟨run, hrun, .refl⟩, fun _ hw => hw, fun _ ht => ht, fun _ ht => Or.inl ht⟩

theorem trans (h : Keeps db db') (h' : Keeps db' db'') : Keeps db db'' where
  rows r hr := by
    obtain ⟨r', hr', hsteps⟩ := h.rows r hr
    obtain ⟨r'', hr'', hsteps'⟩ := h'.rows r' hr'
    exact ⟨r'', hr'', hsteps.trans hsteps'⟩
  new_rows r'' hr'' := by
    rcases h'.new_rows r'' hr'' with ⟨r', hr', hsteps'⟩ | hnone
    · obtain ⟨-, hrun, -⟩ := RowStep.keeps_of_steps hsteps'
      rcases h.new_rows r' hr' with ⟨r, hr, hsteps⟩ | hnone
      · exact Or.inl ⟨r, hr, hsteps.trans hsteps'⟩
      · exact Or.inr (fun r hr he => hnone r hr (he.trans hrun))
    · refine Or.inr (fun r hr he => ?_)
      obtain ⟨r', hr', hsteps⟩ := h.rows r hr
      exact hnone r' hr' ((RowStep.keeps_of_steps hsteps).2.1.trans he)
  runs run hrun := by
    obtain ⟨run', hrun', hsteps⟩ := h.runs run hrun
    obtain ⟨run'', hrun'', hsteps'⟩ := h'.runs run' hrun'
    exact ⟨run'', hrun'', hsteps.trans hsteps'⟩
  workflows w hw := h'.workflows w (h.workflows w hw)
  tasks t ht := h'.tasks t (h.tasks t ht)
  new_tasks t'' ht'' := by
    rcases h'.new_tasks t'' ht'' with ht' | hnone
    · exact h.new_tasks t'' ht'
    · exact Or.inr (fun t ht => hnone t (h.tasks t ht))

/-- A terminal row is there to stay. -/
theorem final (h : Keeps db db') {r : TaskRun} (hr : r ∈ db.task_runs.rows) (hl : r.Lawful)
    (hterminal : r.state.is_terminal = true) : r ∈ db'.task_runs.rows := by
  obtain ⟨r', hr', hsteps⟩ := h.rows r hr
  rw [RowStep.eq_of_terminal hsteps hl hterminal] at hr'
  exact hr'

/-- The tasks of a run that are all terminal. -/
theorem mem_taskStates (h : Keeps db db') (hlawful : ∀ r ∈ db.task_runs.rows, r.Lawful)
    (hsome : db.taskStates run_id ≠ []) (hall : ∀ s ∈ db.taskStates run_id, s.is_terminal = true)
    (s : TaskState) : s ∈ db'.taskStates run_id ↔ s ∈ db.taskStates run_id := by
  have hterminal : ∀ r ∈ db.runTasks run_id, r.state.is_terminal = true :=
    fun r hr => hall r.state (List.mem_map_of_mem hr)
  constructor
  · intro hs
    obtain ⟨r', hr', rfl⟩ := List.mem_map.mp hs
    obtain ⟨hmem', hrun'⟩ := Db.mem_runTasks.mp hr'
    rcases h.new_rows r' hmem' with ⟨r, hr, hsteps⟩ | hnone
    · have hrun := (RowStep.keeps_of_steps hsteps).2.1.symm.trans hrun'
      have hmem := Db.mem_runTasks.mpr ⟨hr, hrun⟩
      rw [RowStep.eq_of_terminal hsteps (hlawful r hr) (hterminal r hmem)]
      exact List.mem_map_of_mem hmem
    -- The run has had a row before.
    · obtain ⟨s, hs⟩ := List.exists_mem_of_ne_nil _ hsome
      obtain ⟨r, hr, -⟩ := List.mem_map.mp hs
      obtain ⟨hmem, hrun⟩ := Db.mem_runTasks.mp hr
      exact absurd (hrun.trans hrun'.symm) (hnone r hmem)
  · intro hs
    obtain ⟨r, hr, rfl⟩ := List.mem_map.mp hs
    obtain ⟨hmem, hrun⟩ := Db.mem_runTasks.mp hr
    exact List.mem_map_of_mem (Db.mem_runTasks.mpr
      ⟨h.final hmem (hlawful r hmem) (hterminal r hr), hrun⟩)

end Keeps

/-- Rows that can be laid over a database without loss. -/
structure Lays (v d : Db) : Prop where
  rows : ∀ r ∈ d.task_runs.rows, Known v r ∨
    v.task_runs.get r.id = none ∧ ∀ r₀ ∈ v.task_runs.rows, r₀.run_id ≠ r.run_id
  runs : ∀ run ∈ d.workflow_runs.rows, (∃ run₀ ∈ v.workflow_runs.rows, RunSteps run₀ run) ∨
    v.workflow_runs.get run.id = none
  workflows : ∀ w ∈ d.workflows.rows, v.workflows.get w.id = none
  tasks : ∀ t ∈ d.tasks.rows, v.tasks.get t.id = none ∧
    ∀ t₀ ∈ v.tasks.rows, t₀.workflow_id ≠ t.workflow_id

/-- A row under an overlay of new rows. -/
theorem mem_overlay_of_new {κ ρ : Type} {key : ρ → κ} [DecidableEq κ] {d t : Table κ ρ key}
    (hd : ∀ r ∈ d.rows, t.get (key r) = none) {r : ρ} (hr : r ∈ t.rows) :
    r ∈ (d.overlay t).rows := by
  rw [Table.rows_overlay_of_new hd]
  exact List.mem_append_left _ hr

theorem Lays.keeps (h : Lays v d) : Keeps v (d.overlay v) where
  rows r hr := by
    cases hget : d.task_runs.get r.id with
    | none => exact ⟨r, Table.mem_overlay.mpr (Or.inr ⟨hr, hget⟩), .refl⟩
    | some r' =>
        obtain ⟨hr', hid⟩ := Table.get_eq_some.mp hget
        refine ⟨r', Table.mem_overlay.mpr (Or.inl hr'), ?_⟩
        rcases h.rows r' hr' with ⟨r₀, hr₀, hsteps⟩ | ⟨hnone, -⟩
        · have he : r₀ = r := v.task_runs.eq_of_key hr₀ hr
            ((RowStep.keeps_of_steps hsteps).1.symm.trans hid)
          exact he ▸ hsteps
        · exact absurd hid.symm (Table.get_eq_none.mp hnone r hr)
  new_rows r' hr' := by
    rcases Table.mem_overlay.mp hr' with hr' | ⟨hr', -⟩
    · exact (h.rows r' hr').imp_right And.right
    · exact Or.inl ⟨r', hr', .refl⟩
  runs run hrun := by
    cases hget : d.workflow_runs.get run.id with
    | none => exact ⟨run, Table.mem_overlay.mpr (Or.inr ⟨hrun, hget⟩), .refl⟩
    | some run' =>
        obtain ⟨hrun', hid⟩ := Table.get_eq_some.mp hget
        refine ⟨run', Table.mem_overlay.mpr (Or.inl hrun'), ?_⟩
        rcases h.runs run' hrun' with ⟨run₀, hrun₀, hsteps⟩ | hnone
        · have he : run₀ = run := v.workflow_runs.eq_of_key hrun₀ hrun
            ((RunStep.keeps_of_steps hsteps).1.symm.trans hid)
          exact he ▸ hsteps
        · exact absurd hid.symm (Table.get_eq_none.mp hnone run hrun)
  workflows w hw := mem_overlay_of_new h.workflows hw
  tasks t ht := mem_overlay_of_new (fun t ht => (h.tasks t ht).1) ht
  new_tasks t' ht' := by
    rcases Table.mem_overlay.mp ht' with ht' | ⟨ht', -⟩
    · exact Or.inr (h.tasks t' ht').2
    · exact Or.inl ht'

/-! ## The databases of the service -/

/-- What a reached database is like, whoever has met whom on the way. -/
structure Db.Sturdy (checks : Bool) (db : Db) : Prop extends Db.Materialised db where
  lawful : ∀ r ∈ db.task_runs.rows, r.Lawful
  stored : db.Stored checks
  gapless : db.Gapless
  definitions : db.Definitions
  run_defined : ∀ run ∈ db.workflow_runs.rows, ∃ w ∈ db.workflows.rows, w.id = run.workflow_id
  valid : ∀ run ∈ db.workflow_runs.rows, run.violates = none ∧ 0 ≤ run.version
  /-- The record of a finished run is true. -/
  truthful : ∀ run ∈ db.workflow_runs.rows, run.RecordOf db

theorem Db.Sturdy.initial (h : Initial db) (hgapless : db.Gapless) : db.Sturdy checks where
  keys := h.definitions.keys
  defined r hr := by
    rw [h.no_task_runs] at hr
    cases hr
  whole run hrun := by
    rw [h.no_runs] at hrun
    cases hrun
  unique r hr := by
    rw [h.no_task_runs] at hr
    cases hr
  lawful r hr := by
    rw [h.no_task_runs] at hr
    cases hr
  stored _ r hr := by
    rw [h.no_task_runs] at hr
    cases hr
  gapless := hgapless
  definitions := h.definitions
  run_defined run hrun := by
    rw [h.no_runs] at hrun
    cases hrun
  valid run hrun := by
    rw [h.no_runs] at hrun
    cases hrun
  truthful run hrun := by
    rw [h.no_runs] at hrun
    cases hrun

/-- Every row has its run, and every task its workflow. -/
structure Db.Rooted (db : Db) : Prop where
  rows : ∀ r ∈ db.task_runs.rows, ∃ run ∈ db.workflow_runs.rows, run.id = r.run_id
  tasks : ∀ t ∈ db.tasks.rows, ∃ w ∈ db.workflows.rows, w.id = t.workflow_id

theorem Db.Sturdy.rooted (h : db.Sturdy checks) : db.Rooted where
  rows r hr := by
    obtain ⟨run, hrun, -, -, hid, -⟩ := h.defined r hr
    exact ⟨run, hrun, hid⟩
  tasks := h.definitions.workflows

/-! ## The rows of a session -/

/-- A run row that the session has refreshed, from the tasks as it saw them. -/
structure Refreshes (db : Db) (trace : List (Event Db)) (run : WorkflowRun) : Prop where
  old : ∃ run₀ ∈ db.workflow_runs.rows, RunSteps run₀ run ∧ run₀.version < run.version
  derived : ∃ v, .saw v ∈ trace ∧ run.Derived (v.taskStates run.id)

/-- A run row that the session has inserted. -/
structure Starts (db own : Db) (run : WorkflowRun) : Prop where
  new : db.workflow_runs.get run.id = none
  pending : run.state = .PENDING
  valid : run.violates = none
  version : run.version = 0
  workflow : ∃ w ∈ (own.overlay db).workflows.rows, w.id = run.workflow_id

/-- A task row that the session has inserted, for a run that it has inserted. -/
structure Enters (db own : Db) (r : TaskRun) : Prop where
  new : db.task_runs.get r.id = none
  lawful : r.Lawful
  run : ∃ run ∈ own.workflow_runs.rows, run.id = r.run_id ∧ db.workflow_runs.get run.id = none

/-- The definitions of a session are those of its own workflows. -/
structure Authored (db own : Db) : Prop where
  workflows : ∀ w ∈ own.workflows.rows, db.workflows.get w.id = none
  tasks : ∀ t ∈ own.tasks.rows, db.tasks.get t.id = none
  definitions : own.Definitions

/-- The runs of a session and their rows. -/
structure Worked (checks : Bool) (db own : Db) (trace : List (Event Db)) : Prop where
  runs : ∀ run ∈ own.workflow_runs.rows, Refreshes db trace run ∨ Starts db own run
  rows : ∀ r ∈ own.task_runs.rows, Known db r ∨ Enters db own r
  unique : own.RowsUnique
  stored : own.Stored checks

/-- What holds of an open session: the rows it has written, and what it has seen, which is
still there. -/
structure Ahead (checks : Bool) (db own : Db) (trace : List (Event Db)) : Prop where
  drafted : Drafted db own trace
  authored : Authored db own
  worked : Worked checks db own trace
  seen : ∀ v, .saw v ∈ trace → (∀ r ∈ v.task_runs.rows, r.Lawful) ∧ Keeps v (own.overlay db)

theorem mem_workflows_overlay (h : Authored db own) {w : Workflow} (hw : w ∈ db.workflows.rows) :
    w ∈ (own.overlay db).workflows.rows := mem_overlay_of_new h.workflows hw

/-- A row of a run of the database is not one of a run that the session has inserted. -/
theorem Enters.run_ne (hroot : db.Rooted) {r r₀ : TaskRun} (h : Enters db own r)
    (hr₀ : r₀ ∈ db.task_runs.rows) : r₀.run_id ≠ r.run_id := by
  intro he
  obtain ⟨run, -, hid, hnone⟩ := h.run
  obtain ⟨run₀, hrun₀, hid₀⟩ := hroot.rows r₀ hr₀
  exact Table.get_eq_none.mp hnone run₀ hrun₀ (hid₀.trans (he.trans hid.symm))

/-- The rows of a session can be laid over a database in which all rows have their roots. -/
theorem lays_of_session (hroot : db.Rooted) (hauthored : Authored db own)
    (hworked : Worked checks db own trace) : Lays db own where
  rows r hr := by
    rcases hworked.rows r hr with hknown | henters
    · exact Or.inl hknown
    · exact Or.inr ⟨henters.new, fun r₀ hr₀ => henters.run_ne hroot hr₀⟩
  runs run hrun := by
    rcases hworked.runs run hrun with hrefreshes | hstarts
    · obtain ⟨run₀, hrun₀, hsteps, -⟩ := hrefreshes.old
      exact Or.inl ⟨run₀, hrun₀, hsteps⟩
    · exact Or.inr hstarts.new
  workflows := hauthored.workflows
  tasks t ht := by
    obtain ⟨w, hw, hid⟩ := hauthored.definitions.workflows t ht
    refine ⟨hauthored.tasks t ht, fun t₀ ht₀ he => ?_⟩
    obtain ⟨w₀, hw₀, hid₀⟩ := hroot.tasks t₀ ht₀
    exact Table.get_eq_none.mp (hauthored.workflows w hw) w₀ hw₀ (hid₀.trans (he.trans hid.symm))

/-- An edge is its own key, so every edge stays. -/
theorem Db.mem_parents_overlay {p c : UUID} :
    p ∈ (own.overlay db).parents c ↔ p ∈ own.parents c ∨ p ∈ db.parents c := by
  rw [Db.mem_parents, Db.mem_parents, Db.mem_parents]
  constructor
  · intro he
    exact (Table.mem_overlay.mp he).imp_right And.left
  · rintro (he | he)
    · exact Table.mem_overlay.mpr (Or.inl he)
    · cases hget : own.task_dependencies.get (p, c) with
      | none => exact Table.mem_overlay.mpr (Or.inr ⟨he, hget⟩)
      | some e =>
          obtain ⟨hmem, hkey⟩ := Table.get_eq_some.mp hget
          cases hkey
          exact Table.mem_overlay.mpr (Or.inl hmem)

/-- No path leads from the tasks of the session to those that are there, or back. -/
theorem Authored.below_cases (hd : db.Definitions) (h : Authored db own) {a b : UUID}
    (hab : Precedence.Below (own.overlay db).parents a b) :
    Precedence.Below own.parents a b ∨ Precedence.Below db.parents a b := by
  have hapart : ∀ s ∈ own.tasks.rows, ∀ t ∈ db.tasks.rows, s.id ≠ t.id :=
    fun s hs t ht he => Table.get_eq_none.mp (h.tasks s hs) t ht he.symm
  induction hab with
  | single hac =>
      rcases Db.mem_parents_overlay.mp hac with hac | hac
      · exact Or.inl (.single hac)
      · exact Or.inr (.single hac)
  | tail _ hbc ih =>
      rcases Db.mem_parents_overlay.mp hbc with hbc | hbc
      · refine ih.imp (fun hown => hown.tail hbc) (fun hold => ?_)
        obtain ⟨q, -, hqb⟩ := Relation.TransGen.tail'_iff.mp hold
        obtain ⟨s, hs, -, -, hsid, -⟩ := h.definitions.edges _ _ hbc
        obtain ⟨-, -, t, ht, -, htid, -⟩ := hd.edges _ _ hqb
        exact absurd (hsid.trans htid.symm) (hapart s hs t ht)
      · refine ih.imp (fun hown => ?_) (fun hold => hold.tail hbc)
        obtain ⟨q, -, hqb⟩ := Relation.TransGen.tail'_iff.mp hown
        obtain ⟨-, -, t, ht, -, htid, -⟩ := h.definitions.edges _ _ hqb
        obtain ⟨s, hs, -, -, hsid, -⟩ := hd.edges _ _ hbc
        exact absurd (htid.trans hsid.symm) (hapart t ht s hs)

namespace Ahead

theorem lays (h : Ahead checks db own trace) (hroot : db.Rooted) : Lays db own :=
  lays_of_session hroot h.authored h.worked

theorem keeps (h : Ahead checks db own trace) (hroot : db.Rooted) : Keeps db (own.overlay db) :=
  (h.lays hroot).keeps

/-- What the session sees has its roots. -/
theorem rooted (h : Ahead checks db own trace) (hroot : db.Rooted) : (own.overlay db).Rooted where
  rows r hr := by
    have hold : ∀ r₀ ∈ db.task_runs.rows,
        ∃ run ∈ (own.overlay db).workflow_runs.rows, run.id = r₀.run_id := by
      intro r₀ hr₀
      obtain ⟨run₀, hrun₀, hid₀⟩ := hroot.rows r₀ hr₀
      obtain ⟨run, hrun, hsteps⟩ := (h.keeps hroot).runs run₀ hrun₀
      exact ⟨run, hrun, (RunStep.keeps_of_steps hsteps).1.trans hid₀⟩
    rcases Table.mem_overlay.mp hr with hr | ⟨hr, -⟩
    · rcases h.worked.rows r hr with ⟨r₀, hr₀, hsteps⟩ | henters
      · rw [(RowStep.keeps_of_steps hsteps).2.1]
        exact hold r₀ hr₀
      · obtain ⟨run, hrun, hid, -⟩ := henters.run
        exact ⟨run, Table.mem_overlay.mpr (Or.inl hrun), hid⟩
    · exact hold r hr
  tasks t ht := by
    rcases Table.mem_overlay.mp ht with ht | ⟨ht, -⟩
    · obtain ⟨w, hw, hid⟩ := h.authored.definitions.workflows t ht
      exact ⟨w, Table.mem_overlay.mpr (Or.inl hw), hid⟩
    · obtain ⟨w, hw, hid⟩ := hroot.tasks t ht
      exact ⟨w, mem_workflows_overlay h.authored hw, hid⟩

theorem lawful (h : Ahead checks db own trace) (hdb : ∀ r ∈ db.task_runs.rows, r.Lawful) :
    ∀ r ∈ (own.overlay db).task_runs.rows, r.Lawful := by
  intro r hr
  rcases Table.mem_overlay.mp hr with hr | ⟨hr, -⟩
  · rcases h.worked.rows r hr with ⟨r₀, hr₀, hsteps⟩ | henters
    · exact RowStep.lawful_of_steps hsteps (hdb r₀ hr₀)
    · exact henters.lawful
  · exact hdb r hr

/-- The session sees one row for each task of a run. -/
theorem unique (h : Ahead checks db own trace) (hroot : db.Rooted) (hdb : db.RowsUnique) :
    (own.overlay db).RowsUnique := by
  -- A row of the view comes from a committed one, or it is one of the session's own.
  have hcases : ∀ r ∈ (own.overlay db).task_runs.rows, Known db r ∨
      r ∈ own.task_runs.rows ∧ Enters db own r := by
    intro r hr
    rcases Table.mem_overlay.mp hr with hr | ⟨hr, -⟩
    · exact (h.worked.rows r hr).imp_right (fun he => ⟨hr, he⟩)
    · exact Or.inl ⟨r, hr, .refl⟩
  have hdifferent : ∀ r r' : TaskRun, Known db r → Enters db own r' → r.run_id ≠ r'.run_id := by
    rintro r r' ⟨r₀, hr₀, hsteps⟩ henters he
    exact henters.run_ne hroot hr₀ ((RowStep.keeps_of_steps hsteps).2.1.symm.trans he)
  intro r hr r' hr' hrun htask
  rcases hcases r hr with hknown | ⟨hmem, henters⟩
  · rcases hcases r' hr' with hknown' | ⟨-, henters'⟩
    · obtain ⟨r₀, hr₀, hsteps⟩ := hknown
      obtain ⟨r₀', hr₀', hsteps'⟩ := hknown'
      obtain ⟨k1, k2, k3⟩ := RowStep.keeps_of_steps hsteps
      obtain ⟨k1', k2', k3'⟩ := RowStep.keeps_of_steps hsteps'
      have he : r₀ = r₀' := hdb r₀ hr₀ r₀' hr₀' (k2.symm.trans (hrun.trans k2'))
        (k3.symm.trans (htask.trans k3'))
      exact (own.overlay db).task_runs.eq_of_key hr hr' (by rw [k1, k1', he])
    · exact absurd hrun (hdifferent r r' hknown henters')
  · rcases hcases r' hr' with hknown' | ⟨hmem', -⟩
    · exact absurd hrun.symm (hdifferent r' r hknown' henters)
    · exact h.worked.unique r hmem r' hmem' hrun htask

end Ahead

/-! ## Commits -/

/-- A run that the session has inserted has a row for each task of its workflow, as the
session saw them, and no others. -/
structure Covered (own v : Db) (run : WorkflowRun) : Prop where
  some_task : ∃ task ∈ v.tasks.rows, task.workflow_id = run.workflow_id
  all_tasks : ∀ task ∈ v.tasks.rows, task.workflow_id = run.workflow_id →
    ∃ r ∈ own.task_runs.rows, r.run_id = run.id ∧ r.task_id = task.id
  only_tasks : ∀ r ∈ own.task_runs.rows, r.run_id = run.id →
    ∃ task ∈ v.tasks.rows, task.id = r.task_id ∧ task.workflow_id = run.workflow_id

/-- What a session has written when it has come to its end. A run row of version 0 is one
that nobody has refreshed yet. -/
def Complete (own : Db) (trace : List (Event Db)) : Prop :=
  ∀ run ∈ own.workflow_runs.rows, run.version = 0 → ∃ v, .saw v ∈ trace ∧ Covered own v run

theorem RunStep.violates_of_steps {run run' : WorkflowRun} (h : RunSteps run run')
    (hvalid : run.violates = none) : run'.violates = none := by
  induction h with
  | refl => exact hvalid
  | tail _ hstep ih =>
      obtain ⟨now, derived, rfl⟩ := hstep
      exact Db.Good.refreshed_violates now derived ih

/-- A run that was recorded as finished when its tasks were seen. -/
theorem recordOf_of_derived {run : WorkflowRun} (hkeeps : Keeps v db)
    (hlawful : ∀ r ∈ v.task_runs.rows, r.Lawful) (h : run.Derived (v.taskStates run.id)) :
    run.RecordOf db := by
  intro hterminal
  obtain ⟨hstate, hfinished⟩ := h
  rw [hstate] at hterminal
  obtain ⟨hsome, hall⟩ := derive_is_terminal.mp hterminal
  have hsame := hkeeps.mem_taskStates hlawful hsome hall
  refine ⟨hfinished (hstate ▸ hterminal), fun s hs => hall s ((hsame s).mp hs), ?_⟩
  rw [hstate]
  exact derive_congr (fun s => (hsame s).symm)

theorem WorkflowRun.RecordOf.derived {run : WorkflowRun} (h : run.RecordOf db)
    (hterminal : run.state.is_terminal = true) : run.Derived (db.taskStates run.id) :=
  ⟨(h hterminal).2.2, fun _ => (h hterminal).1⟩

namespace Ahead

variable (hs : db.Sturdy checks) (h : Ahead checks db own trace)
include hs h

/-- A run of the view: a committed one, a refreshed one, or one of the session's own. -/
theorem run_cases {run : WorkflowRun} (hrun : run ∈ (own.overlay db).workflow_runs.rows) :
    (∃ run₀ ∈ db.workflow_runs.rows, RunSteps run₀ run ∧ 0 ≤ run.version ∧
      (run ∈ db.workflow_runs.rows ∨ Refreshes db trace run)) ∨
    run ∈ own.workflow_runs.rows ∧ Starts db own run := by
  rcases Table.mem_overlay.mp hrun with hrun | ⟨hrun, -⟩
  · rcases h.worked.runs run hrun with hrefreshes | hstarts
    · obtain ⟨run₀, hrun₀, hsteps, hversion⟩ := hrefreshes.old
      exact Or.inl ⟨run₀, hrun₀, hsteps, ((hs.valid run₀ hrun₀).2.trans_lt hversion).le,
        Or.inr hrefreshes⟩
    · exact Or.inr ⟨hrun, hstarts⟩
  · exact Or.inl ⟨run, hrun, .refl, (hs.valid run hrun).2, Or.inl hrun⟩

omit hs in
/-- The run of a row that the session has inserted is inserted too. -/
theorem starts_of_enters {r : TaskRun} (henters : Enters db own r) :
    ∃ run ∈ own.workflow_runs.rows, run.id = r.run_id ∧ Starts db own run := by
  obtain ⟨run, hrun, hid, hnone⟩ := henters.run
  rcases h.worked.runs run hrun with hrefreshes | hstarts
  · obtain ⟨run₀, hrun₀, hsteps, -⟩ := hrefreshes.old
    exact absurd (RunStep.keeps_of_steps hsteps).1.symm (Table.get_eq_none.mp hnone run₀ hrun₀)
  · exact ⟨run, hrun, hid, hstarts⟩

theorem keys_overlay : ∀ s ∈ (own.overlay db).tasks.rows, ∀ t ∈ (own.overlay db).tasks.rows,
    s.workflow_id = t.workflow_id → s.key = t.key → s = t := by
  have hnew : ∀ s ∈ db.tasks.rows, ∀ t ∈ own.tasks.rows, s.workflow_id ≠ t.workflow_id :=
    fun s hmem t ht => ((h.lays hs.rooted).tasks t ht).2 s hmem
  intro s hmem t ht hworkflow hkey
  rcases Table.mem_overlay.mp hmem with hmem | ⟨hmem, -⟩
  · rcases Table.mem_overlay.mp ht with ht | ⟨ht, -⟩
    · exact h.authored.definitions.keys s hmem t ht hworkflow hkey
    · exact absurd hworkflow.symm (hnew t ht s hmem)
  · rcases Table.mem_overlay.mp ht with ht | ⟨ht, -⟩
    · exact absurd hworkflow (hnew s hmem t ht)
    · exact hs.keys s hmem t ht hworkflow hkey

theorem definitions_overlay : (own.overlay db).Definitions where
  workflows := (h.rooted hs.rooted).tasks
  keys := h.keys_overlay hs
  edges p c hp := by
    rcases Db.mem_parents_overlay.mp hp with hp | hp
    · obtain ⟨s, hmem, t, ht, hids⟩ := h.authored.definitions.edges p c hp
      exact ⟨s, Table.mem_overlay.mpr (Or.inl hmem), t, Table.mem_overlay.mpr (Or.inl ht), hids⟩
    · obtain ⟨s, hmem, t, ht, hids⟩ := hs.definitions.edges p c hp
      have hkeeps := h.keeps hs.rooted
      exact ⟨s, hkeeps.tasks s hmem, t, hkeeps.tasks t ht, hids⟩
  acyclic t ht := by
    rcases h.authored.below_cases hs.definitions ht with hcycle | hcycle
    · exact h.authored.definitions.acyclic t hcycle
    · exact hs.definitions.acyclic t hcycle

theorem run_defined_overlay : ∀ run ∈ (own.overlay db).workflow_runs.rows,
    ∃ w ∈ (own.overlay db).workflows.rows, w.id = run.workflow_id := by
  intro run hrun
  rcases h.run_cases hs hrun with ⟨run₀, hrun₀, hsteps, -⟩ | ⟨-, hstarts⟩
  · obtain ⟨w, hw, hid⟩ := hs.run_defined run₀ hrun₀
    exact ⟨w, mem_workflows_overlay h.authored hw,
      hid.trans (RunStep.keeps_of_steps hsteps).2.1.symm⟩
  · exact hstarts.workflow

theorem truthful_overlay : ∀ run ∈ (own.overlay db).workflow_runs.rows,
    run.RecordOf (own.overlay db) := by
  intro run hrun
  rcases h.run_cases hs hrun with ⟨-, -, -, -, hold | hrefreshes⟩ | ⟨-, hstarts⟩
  · intro hterminal
    exact recordOf_of_derived (h.keeps hs.rooted) hs.lawful
      ((hs.truthful run hold).derived hterminal) hterminal
  · -- The session has seen the tasks of which it has recorded the state.
    obtain ⟨v, hv, hderived⟩ := hrefreshes.derived
    obtain ⟨hlawful, hkeeps⟩ := h.seen v hv
    exact recordOf_of_derived hkeeps hlawful hderived
  · intro hterminal
    rw [hstarts.pending] at hterminal
    cases hterminal

variable (hcomplete : Complete own trace)
include hcomplete

omit hs in
/-- A run that the session has inserted, with the tasks it is made of. -/
theorem covered_of_starts {run : WorkflowRun} (hrun : run ∈ own.workflow_runs.rows)
    (hstarts : Starts db own run) : ∃ v, Keeps v (own.overlay db) ∧ Covered own v run := by
  obtain ⟨v, hv, hcovered⟩ := hcomplete run hrun hstarts.version
  exact ⟨v, (h.seen v hv).2, hcovered⟩

theorem defined_overlay : ∀ r ∈ (own.overlay db).task_runs.rows,
    ∃ run ∈ (own.overlay db).workflow_runs.rows, ∃ task ∈ (own.overlay db).tasks.rows,
      run.id = r.run_id ∧ task.id = r.task_id ∧ task.workflow_id = run.workflow_id := by
  have hkeeps := h.keeps hs.rooted
  have hold : ∀ r₀ ∈ db.task_runs.rows, ∃ run ∈ (own.overlay db).workflow_runs.rows,
      ∃ task ∈ (own.overlay db).tasks.rows, run.id = r₀.run_id ∧ task.id = r₀.task_id ∧
        task.workflow_id = run.workflow_id := by
    intro r₀ hr₀
    obtain ⟨run₀, hrun₀, task, htask, hid, htask_id, hworkflow⟩ := hs.defined r₀ hr₀
    obtain ⟨run, hrun, hsteps⟩ := hkeeps.runs run₀ hrun₀
    obtain ⟨hid', hworkflow', -⟩ := RunStep.keeps_of_steps hsteps
    exact ⟨run, hrun, task, hkeeps.tasks task htask, hid'.trans hid, htask_id,
      hworkflow.trans hworkflow'.symm⟩
  intro r hr
  rcases Table.mem_overlay.mp hr with hmem | ⟨hr, -⟩
  · rcases h.worked.rows r hmem with ⟨r₀, hr₀, hsteps⟩ | henters
    · obtain ⟨-, k2, k3⟩ := RowStep.keeps_of_steps hsteps
      rw [k2, k3]
      exact hold r₀ hr₀
    · obtain ⟨run, hrun, hid, hstarts⟩ := h.starts_of_enters henters
      obtain ⟨v, hseen, hcovered⟩ := h.covered_of_starts hcomplete hrun hstarts
      obtain ⟨task, htask, htask_id, hworkflow⟩ := hcovered.only_tasks r hmem hid.symm
      exact ⟨run, Table.mem_overlay.mpr (Or.inl hrun), task, hseen.tasks task htask, hid,
        htask_id, hworkflow⟩
  · exact hold r hr

theorem whole_overlay : ∀ run ∈ (own.overlay db).workflow_runs.rows,
    (∀ task ∈ (own.overlay db).tasks.rows, task.workflow_id = run.workflow_id →
      ∃ r ∈ (own.overlay db).task_runs.rows, r.run_id = run.id ∧ r.task_id = task.id) ∧
    ∃ r ∈ (own.overlay db).task_runs.rows, r.run_id = run.id := by
  have hkeeps := h.keeps hs.rooted
  intro run hrun
  rcases h.run_cases hs hrun with ⟨run₀, hrun₀, hsteps, -⟩ | ⟨hmem, hstarts⟩
  · obtain ⟨hid, hworkflow, -⟩ := RunStep.keeps_of_steps hsteps
    obtain ⟨hall, r₁, hr₁, hr₁_run⟩ := hs.whole run₀ hrun₀
    have hlater : ∀ r₀ ∈ db.task_runs.rows, r₀.run_id = run₀.id →
        ∃ r ∈ (own.overlay db).task_runs.rows, r.run_id = run.id ∧ r.task_id = r₀.task_id := by
      intro r₀ hr₀ hr₀_run
      obtain ⟨r, hr, hrow⟩ := hkeeps.rows r₀ hr₀
      obtain ⟨-, k2, k3⟩ := RowStep.keeps_of_steps hrow
      exact ⟨r, hr, k2.trans (hr₀_run.trans hid.symm), k3⟩
    refine ⟨fun task htask hw => ?_, ?_⟩
    · -- A task of the session is of a workflow that no committed run is of.
      rcases Table.mem_overlay.mp htask with htask | ⟨htask, -⟩
      · obtain ⟨w, hw', hwid⟩ := h.authored.definitions.workflows task htask
        obtain ⟨w₀, hw₀, hw₀id⟩ := hs.run_defined run₀ hrun₀
        exact absurd (hw₀id.trans (hworkflow.symm.trans (hw.symm.trans hwid.symm)))
          (Table.get_eq_none.mp (h.authored.workflows w hw') w₀ hw₀)
      · obtain ⟨r₀, hr₀, hr₀_run, hr₀_task⟩ := hall task htask (hw.trans hworkflow)
        obtain ⟨r, hr, hr_run, hr_task⟩ := hlater r₀ hr₀ hr₀_run
        exact ⟨r, hr, hr_run, hr_task.trans hr₀_task⟩
    · obtain ⟨r, hr, hr_run, -⟩ := hlater r₁ hr₁ hr₁_run
      exact ⟨r, hr, hr_run⟩
  · obtain ⟨v, hseen, hcovered⟩ := h.covered_of_starts hcomplete hmem hstarts
    obtain ⟨t, ht, htw⟩ := hcovered.some_task
    have hrow : ∀ task ∈ v.tasks.rows, task.workflow_id = run.workflow_id →
        ∃ r ∈ (own.overlay db).task_runs.rows, r.run_id = run.id ∧ r.task_id = task.id := by
      intro task htask hw
      obtain ⟨r, hr, hids⟩ := hcovered.all_tasks task htask hw
      exact ⟨r, Table.mem_overlay.mpr (Or.inl hr), hids⟩
    refine ⟨fun task htask hw => ?_, ?_⟩
    · rcases hseen.new_tasks task htask with htask | hnone
      · exact hrow task htask hw
      · exact absurd (htw.trans hw.symm) (hnone t ht)
    · obtain ⟨r, hr, hr_run, -⟩ := hrow t ht htw
      exact ⟨r, hr, hr_run⟩

/-- **A commit leaves the database sturdy,** whatever has been committed since its session
began. -/
theorem sturdy_commit : (own.overlay db).Sturdy checks where
  keys := h.keys_overlay hs
  defined := h.defined_overlay hs hcomplete
  whole := h.whole_overlay hs hcomplete
  unique := h.unique hs.rooted hs.unique
  lawful := h.lawful hs.lawful
  stored hck r hr := by
    rcases Table.mem_overlay.mp hr with hr | ⟨hr, -⟩
    · exact h.worked.stored hck r hr
    · exact hs.stored hck r hr
  gapless := h.drafted.gapless
  definitions := h.definitions_overlay hs
  run_defined := h.run_defined_overlay hs
  valid run hrun := by
    rcases h.run_cases hs hrun with ⟨run₀, hrun₀, hsteps, hversion, -⟩ | ⟨-, hstarts⟩
    · exact ⟨RunStep.violates_of_steps hsteps (hs.valid run₀ hrun₀).1, hversion⟩
    · exact ⟨hstarts.valid, hstarts.version.ge⟩
  truthful := h.truthful_overlay hs

end Ahead

/-! ## The commits of others -/

theorem Db.mem_locks_task {t : Task} (ht : t ∈ d.tasks.rows) : .task t.id ∈ d.locks := by
  simp only [Db.locks, List.append_assoc]
  refine List.mem_append_right _ (List.mem_append_right _ (List.mem_append_left _ ?_))
  exact List.mem_map_of_mem ht

/-- Rows that one of two sessions holds are not among those of the other. -/
structure Apart (own own' : Db) : Prop where
  workflows : ∀ w ∈ own.workflows.rows, own'.workflows.get w.id = none
  tasks : ∀ t ∈ own.tasks.rows, own'.tasks.get t.id = none
  runs : ∀ run ∈ own.workflow_runs.rows, own'.workflow_runs.get run.id = none
  rows : ∀ r ∈ own.task_runs.rows, own'.task_runs.get r.id = none

theorem Apart.of_locks (h : ∀ l ∈ own.locks, l ∉ own'.locks) : Apart own own' where
  workflows w hw := by
    refine Table.get_eq_none.mpr (fun u hu hid => h _ (Db.mem_locks_workflow hw) ?_)
    exact hid ▸ Db.mem_locks_workflow hu
  tasks t ht := by
    refine Table.get_eq_none.mpr (fun u hu hid => h _ (Db.mem_locks_task ht) ?_)
    exact hid ▸ Db.mem_locks_task hu
  runs run hrun := by
    refine Table.get_eq_none.mpr (fun u hu hid => h _ (Db.mem_locks_workflowRun hrun) ?_)
    exact hid ▸ Db.mem_locks_workflowRun hu
  rows r hr := by
    refine Table.get_eq_none.mpr (fun u hu hid => h _ (Db.mem_locks_taskRun hr) ?_)
    exact hid ▸ Db.mem_locks_taskRun hu

theorem Apart.symm (h : ∀ l ∈ own.locks, l ∉ own'.locks) : Apart own' own :=
  .of_locks (fun l hl' hl => h l hl hl')

section Tables

variable {κ ρ : Type} {key : ρ → κ} [DecidableEq κ] {e f t : Table κ ρ key} {r : ρ} {k : κ}

theorem get_overlay_eq_none (he : e.get k = none) (ht : t.get k = none) :
    (e.overlay t).get k = none := by
  rw [Table.get_overlay, he, ht]
  rfl

/-- It does not matter for a row which of two sets of other rows is laid first. -/
theorem mem_overlay_comm (hef : ∀ r ∈ e.rows, f.get (key r) = none) :
    r ∈ (e.overlay (f.overlay t)).rows ↔ r ∈ (f.overlay (e.overlay t)).rows := by
  have hfe : ∀ r ∈ f.rows, e.get (key r) = none := by
    intro r hr
    refine Table.get_eq_none.mpr (fun s hs hk => ?_)
    exact Table.get_eq_none.mp (hef s hs) r hr hk.symm
  simp only [Table.mem_overlay]
  constructor
  · rintro (hr | ⟨hr | ⟨hr, hf⟩, he⟩)
    · exact Or.inr ⟨Or.inl hr, hef r hr⟩
    · exact Or.inl hr
    · exact Or.inr ⟨Or.inr ⟨hr, he⟩, hf⟩
  · rintro (hr | ⟨hr | ⟨hr, he⟩, hf⟩)
    · exact Or.inr ⟨Or.inl hr, hfe r hr⟩
    · exact Or.inl hr
    · exact Or.inr ⟨Or.inr ⟨hr, hf⟩, he⟩

end Tables

theorem Keeps.swap (hapart : Apart own own') (h : Keeps v (own'.overlay (own.overlay db))) :
    Keeps v (own.overlay (own'.overlay db)) where
  rows r hr := by
    obtain ⟨r', hr', hsteps⟩ := h.rows r hr
    exact ⟨r', (mem_overlay_comm hapart.rows).mpr hr', hsteps⟩
  new_rows r' hr' := h.new_rows r' ((mem_overlay_comm hapart.rows).mp hr')
  runs run hrun := by
    obtain ⟨run', hrun', hsteps⟩ := h.runs run hrun
    exact ⟨run', (mem_overlay_comm hapart.runs).mpr hrun', hsteps⟩
  workflows w hw := (mem_overlay_comm hapart.workflows).mpr (h.workflows w hw)
  tasks t ht := (mem_overlay_comm hapart.tasks).mpr (h.tasks t ht)
  new_tasks t' ht' := h.new_tasks t' ((mem_overlay_comm hapart.tasks).mp ht')

theorem Authored.stable (h : Authored db own) (hapart : Apart own own') :
    Authored (own'.overlay db) own where
  workflows w hw := get_overlay_eq_none (hapart.workflows w hw) (h.workflows w hw)
  tasks t ht := get_overlay_eq_none (hapart.tasks t ht) (h.tasks t ht)
  definitions := h.definitions

theorem Worked.stable (h : Worked checks db own trace) (hapart : Apart own own')
    (hauthored' : Authored db own') : Worked checks (own'.overlay db) own trace where
  runs run hrun := by
    rcases h.runs run hrun with hrefreshes | hstarts
    · obtain ⟨run₀, hrun₀, hsteps, hversion⟩ := hrefreshes.old
      refine Or.inl ⟨⟨run₀, Table.mem_overlay.mpr (Or.inr ⟨hrun₀, ?_⟩), hsteps, hversion⟩,
        hrefreshes.derived⟩
      rw [← (RunStep.keeps_of_steps hsteps).1]
      exact hapart.runs run hrun
    · refine Or.inr ⟨get_overlay_eq_none (hapart.runs run hrun) hstarts.new, hstarts.pending,
        hstarts.valid, hstarts.version, ?_⟩
      obtain ⟨w, hw, hid⟩ := hstarts.workflow
      refine ⟨w, Table.mem_overlay.mpr ?_, hid⟩
      exact (Table.mem_overlay.mp hw).imp_right
        (fun hold => ⟨mem_workflows_overlay hauthored' hold.1, hold.2⟩)
  rows r hr := by
    rcases h.rows r hr with ⟨r₀, hr₀, hsteps⟩ | henters
    · refine Or.inl ⟨r₀, Table.mem_overlay.mpr (Or.inr ⟨hr₀, ?_⟩), hsteps⟩
      rw [← (RowStep.keeps_of_steps hsteps).1]
      exact hapart.rows r hr
    · obtain ⟨run, hrun, hid, hnone⟩ := henters.run
      exact Or.inr ⟨get_overlay_eq_none (hapart.rows r hr) henters.new, henters.lawful,
        run, hrun, hid, get_overlay_eq_none (hapart.runs run hrun) hnone⟩
  unique := h.unique
  stored := h.stored

/-- **The commit of another session is not felt.** -/
theorem Ahead.commit (hs : db.Sturdy checks) (h : Ahead checks db own trace)
    (h' : Ahead checks db own' trace') (hdisjoint : ∀ l ∈ own.locks, l ∉ own'.locks) :
    Ahead checks (own'.overlay db) own trace where
  drafted := h.drafted.commit h'.drafted hs.gapless hdisjoint
  authored := h.authored.stable (.of_locks hdisjoint)
  worked := h.worked.stable (.of_locks hdisjoint) h'.authored
  seen v hv := by
    obtain ⟨hlawful, hkeeps⟩ := h.seen v hv
    have hapart : Apart own' own := .symm hdisjoint
    -- What this session sees is a database that the rows of the other can be laid over.
    have hlays : Lays (own.overlay db) own' := lays_of_session (h.rooted hs.rooted)
      (h'.authored.stable hapart) (h'.worked.stable hapart h.authored)
    exact ⟨hlawful, hkeeps.trans (.swap (.of_locks hdisjoint) hlays.keeps)⟩

end Conductor
