/-
The queue under READ COMMITTED.

The transactions of `Requests`, at the granularity of their statements: any number
of workers, reapers and API processes have sessions open at once, on a database
that the service has reached before. `Txn.ReadCommitted` says what a session sees
and when it waits.

The database of such a system only evolves: definitions stay, every task row is
rewritten in place by the `RowStep`s of the sessions that held it, every run row
keeps its id (`Evolves`). A session's own rows are rewrites of the committed ones
(`Based`), and no other session can disturb that. `postcondition` is what a session
that has run to its end has written, whatever the others did meanwhile; the modules
on top read their claims off it.
-/
import Conductor.Lib.ReadCommitted
import Conductor.Requests

set_option autoImplicit false

open Relational Txn

namespace Conductor

open RunRepository TaskQueueRepository

/-! ## The transactions -/

/-- One transaction on the queue. `rounds` bounds the `while` loop of
`_block_descendants`: a loop that ends has some number of rounds, and a call that
asks for too few raises, like a session that is broken off. -/
inductive Call where
  | claim (lease_seconds : ℚ) (clock : Clock) (tie : UUID → ℕ) (worker_id : String) (limit : ℕ)
  | renew (lease_seconds : ℚ) (clock : Clock) (task_run_id : UUID) (worker_id : String)
  | reap (clock : Clock)
  | cancel (clock : Clock) (run_id : UUID)
  | complete (rounds : ℕ) (report : Report)

/-- The statements of a call. Only a completion has an answer of interest:
`accepted`. -/
def Call.body : Call → Tx Bool
  | .claim lease_seconds clock tie worker_id limit => do
      let _ ← claim_batch lease_seconds clock tie worker_id limit
      return true
  | .renew lease_seconds clock task_run_id worker_id =>
      renew_lease lease_seconds clock task_run_id worker_id
  | .reap clock => do
      let _ ← reap_expired_leases clock
      return true
  | .cancel clock run_id => do
      let _ ← RunRepository.cancel clock run_id
      return true
  | .complete rounds report => Conductor.complete rounds report

/-- The run a call refreshes. -/
def Call.refreshes : Call → Option UUID
  | .cancel _ run_id => some run_id
  | .complete _ report => some report.run_id
  | _ => none

/-- A report names the run of its row. -/
def Call.Sound (db : Db) : Call → Prop
  | .complete _ report => (Request.complete report).Sound db
  | _ => True

instance (db : Db) (call : Call) : Decidable (call.Sound db) := by
  cases call <;> unfold Call.Sound <;> infer_instance

/-! ## The system -/

abbrev Queue := Sys Db Exn Bool Call

/-- A database of the service, with no transaction open. -/
def Queue.Idle (checks : Bool) (s : Queue) : Prop :=
  Requested checks (fun _ _ => True) s.committed ∧ s.sessions = []

/-- States of the interleaved queue in which every write statement met `M` and every
commit met `N`. -/
def Interleaved (checks : Bool) (M : Call → List (Event Db) → Db → Db → Prop)
    (N : Call → Db → Db → List (Event Db) → Prop) : Queue → Prop :=
  Lts.ReachVia (Queue.Idle checks) (fun s l s' => s.step (store checks) Call.body l = s')
    (StepMeets (store checks) (fun db call => call.Sound db) M N)

/-- No condition on write statements. -/
def anyWrite (_ : Call) (_ : List (Event Db)) (_ _ : Db) : Prop := True

/-- No condition on commits. -/
def anyCommit (_ : Call) (_ _ : Db) (_ : List (Event Db)) : Prop := True

instance (call : Call) (trace : List (Event Db)) (v v' : Db) :
    Decidable (anyWrite call trace v v') := inferInstanceAs (Decidable True)

instance (call : Call) (db own : Db) (trace : List (Event Db)) :
    Decidable (anyCommit call db own trace) := inferInstanceAs (Decidable True)

variable {checks : Bool}

theorem store_lawful : (store checks).Lawful where
  locks_empty := rfl
  locks_overlay d e l hl := by
    have hmem : ∀ {κ ρ : Type} {key : ρ → κ} [DecidableEq κ] (t u : Table κ ρ key) (f : ρ → Lock),
        l ∈ (t.overlay u).rows.map f → l ∈ t.rows.map f ∨ l ∈ u.rows.map f := by
      intro κ ρ key _ t u f h
      obtain ⟨r, hr, rfl⟩ := List.mem_map.mp h
      rcases Table.mem_overlay.mp hr with hr | ⟨hr, -⟩
      · exact Or.inl (List.mem_map_of_mem hr)
      · exact Or.inr (List.mem_map_of_mem hr)
    simp only [store, Db.locks, Db.overlay, List.mem_append] at hl ⊢
    rcases hl with ((((((hl | hl) | hl) | hl) | hl) | hl) | hl) | hl
    all_goals
      rcases hmem _ _ _ hl with h | h
      · exact Or.inl (by tauto)
      · exact Or.inr (by tauto)

/-- New rows as a table, in any annotation. -/
theorem outline_newTable {I : Db → Prop} {J : Db → Db → List (Event Db) → Prop}
    {M : List (Event Db) → Db → Db → Prop} {own : Db} {trace : List (Event Db)} {κ ρ : Type}
    {key : ρ → κ} [DecidableEq κ] {e : Exn} {rows : List ρ}
    {Q : Table κ ρ key → Db → List (Event Db) → Prop} (h : ∀ t, t.rows = rows → Q t own trace) :
    Outline (store checks) I J M Q (newTable key e rows) own trace := by
  unfold newTable
  split
  · exact h _ rfl
  · trivial

/-- A flush of new rows, in any annotation. -/
theorem outline_flush {I : Db → Prop} {J : Db → Db → List (Event Db) → Prop}
    {M : List (Event Db) → Db → Db → Prop} {own d : Db} {trace : List (Event Db)}
    {handler : Exn → Exn} {Q : Unit → Db → List (Event Db) → Prop}
    (hJ : ∀ db, I db → J db own trace →
      (store checks).validate .insert (own.overlay db) d = none →
      J db (d.overlay own) (.wrote d :: trace))
    (hQ : Q () (d.overlay own) (.wrote d :: trace)) :
    Outline (store checks) I J M Q (insertRows d handler) own trace := by
  intro db₁ db free rows _ _ hI h _ hrows hvalid
  cases hrows
  exact ⟨hJ db hI h hvalid, hQ⟩

/-! ## How the database evolves -/

/-- Rewrites of a row, one after the other. -/
abbrev RowSteps := Relation.ReflTransGen RowStep

theorem RowStep.keeps_of_steps {r r' : TaskRun} (h : RowSteps r r') :
    r'.id = r.id ∧ r'.run_id = r.run_id ∧ r'.task_id = r.task_id := by
  induction h with
  | refl => exact ⟨rfl, rfl, rfl⟩
  | tail _ hstep ih =>
      obtain ⟨h1, h2, h3, -⟩ := hstep.keeps
      exact ⟨h1.trans ih.1, h2.trans ih.2.1, h3.trans ih.2.2⟩

/-- One database came from the other by rewriting its rows. -/
structure Evolves (db db' : Db) : Prop where
  edges : db'.task_dependencies = db.task_dependencies
  rows : ∃ g : TaskRun → TaskRun, db'.task_runs.rows = db.task_runs.rows.map g ∧
    ∀ r ∈ db.task_runs.rows, RowSteps r (g r)
  runs : ∃ h : WorkflowRun → WorkflowRun, db'.workflow_runs.rows = db.workflow_runs.rows.map h ∧
    ∀ run ∈ db.workflow_runs.rows, (h run).id = run.id

/-- Written rows that are rewrites of rows of the database under them. -/
structure Based (db own : Db) : Prop where
  edges : own.task_dependencies = Table.empty
  rows : ∀ r' ∈ own.task_runs.rows, ∃ r ∈ db.task_runs.rows, RowSteps r r'
  runs : ∀ run' ∈ own.workflow_runs.rows, ∃ run ∈ db.workflow_runs.rows, run.id = run'.id

namespace Evolves

variable {db db' db'' : Db}

theorem refl (db : Db) : Evolves db db :=
  ⟨rfl, ⟨id, by simp, fun _ _ => .refl⟩, ⟨id, by simp, fun _ _ => rfl⟩⟩

theorem trans (h : Evolves db db') (h' : Evolves db' db'') : Evolves db db'' := by
  obtain ⟨g, hg, hsteps⟩ := h.rows
  obtain ⟨g', hg', hsteps'⟩ := h'.rows
  obtain ⟨f, hf, hid⟩ := h.runs
  obtain ⟨f', hf', hid'⟩ := h'.runs
  refine ⟨h'.edges.trans h.edges, ⟨g' ∘ g, ?_, fun r hr => ?_⟩, ⟨f' ∘ f, ?_, fun run hrun => ?_⟩⟩
  · rw [hg', hg, List.map_map]
  · exact (hsteps r hr).trans (hsteps' _ (by rw [hg]; exact List.mem_map_of_mem hr))
  · rw [hf', hf, List.map_map]
  · exact (hid' _ (by rw [hf]; exact List.mem_map_of_mem hrun)).trans (hid run hrun)

theorem parents (h : Evolves db db') : db'.parents = db.parents := Db.parents_congr h.edges

/-- Every row comes from one. -/
theorem row_before (h : Evolves db db') {r' : TaskRun} (hr' : r' ∈ db'.task_runs.rows) :
    ∃ r ∈ db.task_runs.rows, RowSteps r r' := by
  obtain ⟨g, hg, hsteps⟩ := h.rows
  rw [hg] at hr'
  obtain ⟨r, hr, rfl⟩ := List.mem_map.mp hr'
  exact ⟨r, hr, hsteps r hr⟩

/-- No row gets lost. -/
theorem row_after (h : Evolves db db') {r : TaskRun} (hr : r ∈ db.task_runs.rows) :
    ∃ r' ∈ db'.task_runs.rows, RowSteps r r' := by
  obtain ⟨g, hg, hsteps⟩ := h.rows
  exact ⟨g r, by rw [hg]; exact List.mem_map_of_mem hr, hsteps r hr⟩

theorem run_before (h : Evolves db db') {run' : WorkflowRun}
    (hrun' : run' ∈ db'.workflow_runs.rows) : ∃ run ∈ db.workflow_runs.rows, run.id = run'.id := by
  obtain ⟨f, hf, hid⟩ := h.runs
  rw [hf] at hrun'
  obtain ⟨run, hrun, rfl⟩ := List.mem_map.mp hrun'
  exact ⟨run, hrun, (hid run hrun).symm⟩

theorem run_after (h : Evolves db db') {run : WorkflowRun} (hrun : run ∈ db.workflow_runs.rows) :
    ∃ run' ∈ db'.workflow_runs.rows, run'.id = run.id := by
  obtain ⟨f, hf, hid⟩ := h.runs
  exact ⟨f run, by rw [hf]; exact List.mem_map_of_mem hrun, hid run hrun⟩

/-- A terminal row is there to stay. -/
theorem final (h : Evolves db db') {r : TaskRun} (hr : r ∈ db.task_runs.rows) (hl : r.Lawful)
    (ht : r.state.is_terminal = true) : r ∈ db'.task_runs.rows := by
  obtain ⟨r', hr', hsteps⟩ := h.row_after hr
  rw [RowStep.eq_of_terminal hsteps hl ht] at hr'
  exact hr'

theorem lawful (h : Evolves db db') (hl : ∀ r ∈ db.task_runs.rows, r.Lawful) :
    ∀ r ∈ db'.task_runs.rows, r.Lawful := by
  intro r' hr'
  obtain ⟨r, hr, hsteps⟩ := h.row_before hr'
  exact RowStep.lawful_of_steps hsteps (hl r hr)

end Evolves

theorem Db.mem_locks_taskRun {d : Db} {r : TaskRun} (hr : r ∈ d.task_runs.rows) :
    .taskRun r.id ∈ d.locks := by
  simp only [Db.locks, List.mem_append]
  exact Or.inl (Or.inl (Or.inr (List.mem_map_of_mem hr)))

theorem Db.mem_locks_workflowRun {d : Db} {run : WorkflowRun} (hrun : run ∈ d.workflow_runs.rows) :
    .workflowRun run.id ∈ d.locks := by
  simp only [Db.locks, List.mem_append]
  exact Or.inl (Or.inl (Or.inl (Or.inr (List.mem_map_of_mem hrun))))

namespace Based

variable {db own d : Db}

theorem empty (db : Db) : Based db Db.empty :=
  ⟨rfl, fun _ h => absurd h List.not_mem_nil, fun _ h => absurd h List.not_mem_nil⟩

/-- What a queue statement writes is based on what it saw. -/
theorem of_queueWrite {P : TaskRun → Prop} (h : QueueWrite P db d) : Based db d := by
  refine ⟨h.edges, fun r' hr' => ?_, fun run hrun => ?_⟩
  · obtain ⟨-, r, hr, hstep⟩ := h.rows r' hr'
    exact ⟨r, hr, .single hstep⟩
  · rw [h.runs] at hrun
    exact absurd hrun List.not_mem_nil

/-- Laying the rows over the database is an evolution of it. -/
theorem evolves (h : Based db own) : Evolves db (own.overlay db) := by
  refine ⟨?_, ⟨fun r => (own.task_runs.get r.id).getD r, ?_, fun r hr => ?_⟩,
    ⟨fun run => (own.workflow_runs.get run.id).getD run, ?_, fun run _ => ?_⟩⟩
  · show own.task_dependencies.overlay db.task_dependencies = _
    rw [h.edges, Table.empty_overlay]
  · refine Table.rows_overlay_of_old (fun r' hr' => ?_)
    obtain ⟨r, hr, hsteps⟩ := h.rows r' hr'
    exact ⟨r, hr, (RowStep.keeps_of_steps hsteps).1.symm⟩
  · dsimp only
    cases hget : own.task_runs.get r.id with
    | none => exact .refl
    | some r' =>
        obtain ⟨hr', hid⟩ := Table.get_eq_some.mp hget
        obtain ⟨r₀, hr₀, hsteps⟩ := h.rows r' hr'
        have he : r₀ = r := db.task_runs.eq_of_key hr₀ hr
          ((RowStep.keeps_of_steps hsteps).1.symm.trans hid)
        rw [← he]
        exact hsteps
  · exact Table.rows_overlay_of_old (fun run' hrun' => h.runs run' hrun')
  · dsimp only
    cases hget : own.workflow_runs.get run.id with
    | none => rfl
    | some run' => exact (Table.get_eq_some.mp hget).2

/-- More rows, based on the view. -/
theorem overlay (h : Based db own) (hd : Based (own.overlay db) d) : Based db (d.overlay own) := by
  have hevolves := h.evolves
  refine ⟨?_, fun r' hr' => ?_, fun run' hrun' => ?_⟩
  · show d.task_dependencies.overlay own.task_dependencies = _
    rw [h.edges, hd.edges, Table.empty_overlay]
  · rcases Table.mem_overlay.mp hr' with hr' | ⟨hr', -⟩
    · obtain ⟨r, hr, hsteps⟩ := hd.rows r' hr'
      obtain ⟨r₀, hr₀, hsteps₀⟩ := hevolves.row_before hr
      exact ⟨r₀, hr₀, hsteps₀.trans hsteps⟩
    · exact h.rows r' hr'
  · rcases Table.mem_overlay.mp hrun' with hrun' | ⟨hrun', -⟩
    · obtain ⟨run, hrun, hid⟩ := hd.runs run' hrun'
      obtain ⟨run₀, hrun₀, hid₀⟩ := hevolves.run_before hrun
      exact ⟨run₀, hrun₀, hid₀.trans hid⟩
    · exact h.runs run' hrun'

/-- The rows of a session are based on the database that another session has
committed to: neither holds a row of the other. -/
theorem commit {own' : Db} (h : Based db own)
    (hdisjoint : ∀ l ∈ own.locks, l ∉ own'.locks) : Based (own'.overlay db) own := by
  refine ⟨h.edges, fun r' hr' => ?_, fun run' hrun' => ?_⟩
  · obtain ⟨r, hr, hsteps⟩ := h.rows r' hr'
    have hid := (RowStep.keeps_of_steps hsteps).1
    refine ⟨r, Table.mem_overlay.mpr (Or.inr ⟨hr, Table.get_eq_none.mpr (fun x hx hk => ?_)⟩), hsteps⟩
    refine hdisjoint (.taskRun r'.id) (Db.mem_locks_taskRun hr') ?_
    rw [hid, ← hk]
    exact Db.mem_locks_taskRun hx
  · obtain ⟨run, hrun, hid⟩ := h.runs run' hrun'
    refine ⟨run, Table.mem_overlay.mpr (Or.inr ⟨hrun, Table.get_eq_none.mpr (fun x hx hk => ?_)⟩), hid⟩
    refine hdisjoint (.workflowRun run'.id) (Db.mem_locks_workflowRun hrun') ?_
    rw [← hid, ← hk]
    exact Db.mem_locks_workflowRun hx

end Based

/-! ## What holds of an open session -/

/-- The session's rows are based on the committed database, and what it last read
has evolved from the database the system started on and into what it sees. -/
structure Anchored (db₀ db own : Db) (trace : List (Event Db)) : Prop where
  based : Based db own
  seen : ∀ v, lastSeen trace = some v → Evolves db₀ v ∧ Evolves v (own.overlay db)

namespace Anchored

variable {db₀ db own own' rows : Db} {trace trace' : List (Event Db)}

theorem start (db₀ db : Db) : Anchored db₀ db Db.empty [] :=
  ⟨.empty db, fun _ h => by cases h⟩

/-- A view of the session has evolved from the database the system started on. -/
theorem view (h : Anchored db₀ db own trace) (hdb : Evolves db₀ db) :
    Evolves db₀ (own.overlay db) :=
  hdb.trans h.based.evolves

theorem read (h : Anchored db₀ db own trace) (hdb : Evolves db₀ db) :
    Anchored db₀ db own (.saw (own.overlay db) :: trace) := by
  refine ⟨h.based, fun v hv => ?_⟩
  rw [← Option.some.inj hv]
  exact ⟨h.view hdb, .refl _⟩

theorem write (h : Anchored db₀ db own trace) (hrows : Based (own.overlay db) rows) :
    Anchored db₀ db (rows.overlay own) (.wrote rows :: trace) := by
  refine ⟨h.based.overlay hrows, fun v hv => ?_⟩
  have hassoc : rows.overlay (own.overlay db) = (rows.overlay own).overlay db :=
    (store false).overlay_overlay rows own db
  rw [← hassoc]
  exact ⟨(h.seen v hv).1, (h.seen v hv).2.trans hrows.evolves⟩

/-- The commit of another session is an evolution of what this one sees. -/
theorem evolves_commit (h : Based db own) (h' : Based db own')
    (hdisjoint : ∀ l ∈ own.locks, l ∉ own'.locks) :
    Evolves (own.overlay db) (own.overlay (own'.overlay db)) := by
  have hother : Based (own.overlay db) own' := h'.commit (fun l hl hl' => hdisjoint l hl' hl)
  have hevolves := hother.evolves
  -- The two sets of rows are different, so it does not matter which is laid first.
  have hrows : own.task_runs.overlay (own'.task_runs.overlay db.task_runs)
      = own'.task_runs.overlay (own.task_runs.overlay db.task_runs) := by
    refine Table.overlay_comm (fun r' hr' => ?_) (fun r' hr' => ?_) (fun r hr s hs hk => ?_)
    · obtain ⟨r, hr, hsteps⟩ := h.rows r' hr'
      exact ⟨r, hr, (RowStep.keeps_of_steps hsteps).1.symm⟩
    · obtain ⟨r, hr, hsteps⟩ := h'.rows r' hr'
      exact ⟨r, hr, (RowStep.keeps_of_steps hsteps).1.symm⟩
    · exact hdisjoint (.taskRun r.id) (Db.mem_locks_taskRun hr) (hk ▸ Db.mem_locks_taskRun hs)
  have hruns : own.workflow_runs.overlay (own'.workflow_runs.overlay db.workflow_runs)
      = own'.workflow_runs.overlay (own.workflow_runs.overlay db.workflow_runs) := by
    refine Table.overlay_comm h.runs h'.runs (fun r hr s hs hk => ?_)
    exact hdisjoint (.workflowRun r.id) (Db.mem_locks_workflowRun hr)
      (hk ▸ Db.mem_locks_workflowRun hs)
  have hedges : own.task_dependencies.overlay (own'.task_dependencies.overlay db.task_dependencies)
      = own.task_dependencies.overlay db.task_dependencies := by
    rw [h'.edges, Table.empty_overlay]
  refine ⟨hedges, ?_, ?_⟩
  · show ∃ g, (own.task_runs.overlay (own'.task_runs.overlay db.task_runs)).rows = _ ∧ _
    rw [hrows]
    exact hevolves.rows
  · show ∃ f, (own.workflow_runs.overlay (own'.workflow_runs.overlay db.workflow_runs)).rows = _ ∧ _
    rw [hruns]
    exact hevolves.runs

theorem commit (h : Anchored db₀ db own trace) (h' : Anchored db₀ db own' trace')
    (hdisjoint : ∀ l ∈ own.locks, l ∉ own'.locks) : Anchored db₀ (own'.overlay db) own trace := by
  refine ⟨h.based.commit hdisjoint, fun v hv => ⟨(h.seen v hv).1, ?_⟩⟩
  exact (h.seen v hv).2.trans (evolves_commit h.based h'.based hdisjoint)

end Anchored

/-! ## What queue statements add to a session -/

theorem restrict_empty {κ ρ : Type} {key : ρ → κ} (p : ρ → Bool) :
    (Table.empty : Table κ ρ key).restrict p = Table.empty :=
  Table.ext_rows rfl

/-- A queue statement stays one when it leaves rows out. -/
theorem written_queueWrite {P : TaskRun → Prop} {kind : Kind} {stmt : Db → Db}
    (h : ∀ v, QueueWrite P v (stmt v)) (v₀ v : Db) (free : Lock → Bool) :
    QueueWrite P v (written (store checks) kind stmt v₀ v free) := by
  cases kind with
  | update =>
      have hv := h v
      refine ⟨?_, ?_, ?_, ?_, ?_, fun r' hr' => hv.rows r' (List.mem_filter.mp hr').1⟩
      · exact (congrArg (Table.restrict · _) hv.workflows).trans (restrict_empty _)
      · exact (congrArg (Table.restrict · _) hv.tasks).trans (restrict_empty _)
      · exact (congrArg (Table.restrict · _) hv.edges).trans (restrict_empty _)
      · exact (congrArg (Table.restrict · _) hv.runs).trans (restrict_empty _)
      · exact (congrArg (Table.restrict · _) hv.keys).trans (restrict_empty _)
  | skipLocked =>
      have hv := h ((store checks).keep free v)
      refine ⟨hv.workflows, hv.tasks, hv.edges, hv.runs, hv.keys, fun r' hr' => ?_⟩
      obtain ⟨hP, r, hr, hstep⟩ := hv.rows r' hr'
      exact ⟨hP, r, (List.mem_filter.mp hr).1, hstep⟩
  | insert => exact h v

/-- A row that comes from a row of `db₀`. -/
def Known (db₀ : Db) (r : TaskRun) : Prop := ∃ r₀ ∈ db₀.task_runs.rows, RowSteps r₀ r

/-- The session's rows after more statements: new rows are `P`, a terminal row
stays, the run rows are left alone. -/
structure Grows (P : TaskRun → Prop) (own own' : Db) : Prop where
  rows : ∀ r ∈ own'.task_runs.rows, r ∈ own.task_runs.rows ∨ P r
  final : ∀ r ∈ own.task_runs.rows, r.state.is_terminal = true → r ∈ own'.task_runs.rows
  runs : own'.workflow_runs = own.workflow_runs

namespace Grows

variable {P : TaskRun → Prop} {own own' own'' : Db}

theorem refl (own : Db) : Grows P own own := ⟨fun _ => Or.inl, fun _ hr _ => hr, rfl⟩

theorem trans (h : Grows P own own') (h' : Grows P own' own'') : Grows P own own'' := by
  refine ⟨fun r hr => ?_, fun r hr ht => h'.final r (h.final r hr ht) ht, h'.runs.trans h.runs⟩
  rcases h'.rows r hr with hr | hr
  · exact h.rows r hr
  · exact Or.inr hr

end Grows

section Outlines

variable {db₀ : Db}

/-- One queue statement. -/
theorem Anchored.grows (hlawful : ∀ r ∈ db₀.task_runs.rows, r.Lawful) {P : TaskRun → Prop}
    {db own rows : Db} {trace : List (Event Db)} (h : Anchored db₀ db own trace)
    (hdb : Evolves db₀ db) (hrows : QueueWrite P (own.overlay db) rows) :
    Grows (fun r => P r ∧ Known db₀ r) own (rows.overlay own) := by
  refine ⟨fun r' hr' => ?_, fun r hr hterminal => ?_, ?_⟩
  · rcases Table.mem_overlay.mp hr' with hr' | ⟨hr', -⟩
    · obtain ⟨hP, r, hr, hstep⟩ := hrows.rows r' hr'
      obtain ⟨r₀, hr₀, hsteps⟩ := (h.view hdb).row_before hr
      exact Or.inr ⟨hP, r₀, hr₀, hsteps.tail hstep⟩
    · exact Or.inl hr'
  · -- A statement that wrote the row again would have rewritten it as the session sees it.
    have hview : r ∈ (own.overlay db).task_runs.rows := Table.mem_overlay.mpr (Or.inl hr)
    refine Table.mem_overlay.mpr (Or.inr ⟨hr, Table.get_eq_none.mpr (fun x hx hk => ?_)⟩)
    obtain ⟨-, y, hy, hstep⟩ := hrows.rows x hx
    have hyr : y = r :=
      (own.overlay db).task_runs.eq_of_key hy hview (hstep.keeps.1.symm.trans hk)
    rw [hyr] at hstep
    rw [hstep.not_terminal ((h.view hdb).lawful hlawful r hview)] at hterminal
    cases hterminal
  · show rows.workflow_runs.overlay own.workflow_runs = _
    rw [hrows.runs, Table.empty_overlay]

variable {I : Db → Prop} {M : List (Event Db) → Db → Db → Prop}

/-- **A program of queue statements**, annotated: from any rows of its own, it adds
rows that its statements write and that come from rows of the database. -/
theorem outline_of_writes (hlawful : ∀ r ∈ db₀.task_runs.rows, r.Lawful)
    (hI : ∀ db, I db → Evolves db₀ db) {α : Type} {P : TaskRun → Prop} {p : Tx α}
    (hp : p.Writes (QueueWrite P)) (own : Db) (trace : List (Event Db)) :
    Outline (store checks) I (Anchored db₀) M (fun _ own' trace' =>
      Grows (fun r => P r ∧ Known db₀ r) own own' ∧ trace <:+ trace') p own trace := by
  -- Over the statements, with what has been added since the start carried along.
  suffices h : ∀ own₁ trace₁, Grows (fun r => P r ∧ Known db₀ r) own own₁ → trace <:+ trace₁ →
      Outline (store checks) I (Anchored db₀) M (fun _ own' trace' =>
        Grows (fun r => P r ∧ Known db₀ r) own own' ∧ trace <:+ trace') p own₁ trace₁ from
    h own trace (.refl own) List.suffix_rfl
  induction hp with
  | ret a => exact fun own₁ trace₁ hgrows htrace => ⟨hgrows, htrace⟩
  | raise e => exact fun _ _ _ _ => trivial
  | read _ ih =>
      intro own₁ trace₁ hgrows htrace db hdb hJ
      exact ⟨hJ.read (hI db hdb), ih _ own₁ _ hgrows (htrace.trans (List.suffix_cons _ _))⟩
  | write hstmt _ ih =>
      intro own₁ trace₁ hgrows htrace db₁ db free rows _ _ hdb hJ _ hrows _
      have hrows' : QueueWrite P (own₁.overlay db) rows := by
        rw [hrows]
        exact written_queueWrite hstmt _ _ free
      exact ⟨hJ.write (.of_queueWrite hrows'), ih _ _ _
        (hgrows.trans (hJ.grows hlawful (hI db hdb) hrows'))
        (htrace.trans (List.suffix_cons _ _))⟩

/-- The run row of a session that has refreshed the run `run_id` from what it saw
in `seen`. -/
structure Refreshed (db₀ : Db) (run_id : UUID) (own seen : Db) : Prop where
  entry : ∀ run ∈ own.workflow_runs.rows, run.id = run_id ∧
    run.state = derive_run_state (seen.taskStates run_id) ∧
    (run.state.is_terminal = true → run.finished_at.isSome = true)
  exists_entry : ∀ run ∈ db₀.workflow_runs.rows, run.id = run_id →
    ∃ run' ∈ own.workflow_runs.rows, run'.id = run_id

theorem refreshed_finished (now : Time) (derived : RunState) (run : WorkflowRun)
    (h : (refreshed now derived run).state.is_terminal = true) :
    (refreshed now derived run).finished_at.isSome = true := by
  have hderived : derived.is_terminal = true := h
  simp only [refreshed, hderived, if_true]
  cases run.finished_at <;> rfl

/-- The refresh of a session that has written no run row: two statements, of which
the second writes what the first one saw. -/
theorem outline_refresh (hI : ∀ db, I db → Evolves db₀ db) (clock : Clock) (run_id : UUID)
    {own : Db} (hruns : own.workflow_runs = Table.empty) (trace : List (Event Db)) :
    Outline (store checks) I (Anchored db₀) M (fun _ own' trace' =>
      own'.task_runs = own.task_runs ∧ ∃ seen rows, trace' = .wrote rows :: .saw seen :: trace ∧
        Refreshed db₀ run_id own' seen) (refresh_run_state clock run_id) own trace := by
  intro db hdb hJ
  refine ⟨hJ.read (hI db hdb), ?_⟩
  intro db₁ db₂ free rows hdb₁ hJ₁ hdb₂ hJ₂ _ hrows _
  have hmem : ∀ run', run' ∈ rows.workflow_runs.rows → ∃ run ∈ (own.overlay db₂).workflow_runs.rows,
      run.id = run_id ∧ refreshed clock.now
        (derive_run_state ((own.overlay db).taskStates run_id)) run = run' := by
    intro run' hrun'
    rw [hrows] at hrun'
    obtain ⟨run, hrun, rfl⟩ := List.mem_map.mp (List.mem_filter.mp hrun').1
    obtain ⟨hrun, hid⟩ := List.mem_filter.mp hrun
    exact ⟨run, hrun, of_decide_eq_true hid, rfl⟩
  have hedges : rows.task_dependencies = Table.empty := by
    rw [hrows]
    exact restrict_empty _
  have htasks : rows.task_runs = Table.empty := by
    rw [hrows]
    exact restrict_empty _
  have hbased : Based (own.overlay db₂) rows := by
    refine ⟨hedges, fun r' hr' => ?_, fun run' hrun' => ?_⟩
    · rw [htasks] at hr'
      cases hr'
    · obtain ⟨run, hrun, -, rfl⟩ := hmem run' hrun'
      exact ⟨run, hrun, rfl⟩
  have hown : (rows.overlay own).workflow_runs.rows = rows.workflow_runs.rows := by
    show (rows.workflow_runs.overlay own.workflow_runs).rows = _
    rw [hruns]
    exact Table.rows_overlay_of_new (fun _ _ => rfl)
  refine ⟨hJ₂.write hbased, ?_, _, rows, rfl, fun run' hrun' => ?_, fun run hrun hid => ?_⟩
  · show rows.task_runs.overlay own.task_runs = _
    rw [htasks, Table.empty_overlay]
  · rw [store_overlay, hown] at hrun'
    obtain ⟨run, -, hid, rfl⟩ := hmem run' hrun'
    exact ⟨hid, rfl, refreshed_finished _ _ run⟩
  · -- The run row was there when the statement started, and it is there now.
    obtain ⟨run₁, hrun₁, hid₁⟩ := (hJ₁.view (hI db₁ hdb₁)).run_after hrun
    obtain ⟨run₂, hrun₂, hid₂⟩ := (hJ₂.view (hI db₂ hdb₂)).run_after hrun
    rw [store_overlay, hown, hrows]
    refine ⟨refreshed clock.now _ run₂, List.mem_filter.mpr ⟨List.mem_map_of_mem
      (List.mem_filter.mpr ⟨hrun₂, decide_eq_true (hid₂.trans hid)⟩), ?_⟩, hid₂.trans hid⟩
    have hlock := Db.mem_locks_workflowRun (d := { Db.empty with
      workflow_runs := (own.overlay db₁).workflow_runs.updated (fun run => run.id = run_id)
        (refreshed clock.now (derive_run_state ((own.overlay db).taskStates run_id)))
        (refreshed_id clock.now (derive_run_state ((own.overlay db).taskStates run_id))) })
      (List.mem_map_of_mem (List.mem_filter.mpr ⟨hrun₁, decide_eq_true (hid₁.trans hid)⟩))
    refine decide_eq_true ?_
    rw [refreshed_id, hid₂, ← hid₁]
    exact hlock

/-! ## Reports of a failure -/

/-- The worker still has the row. -/
def Owned (task_run_id : UUID) (worker_id : String) (db : Db) : Prop :=
  ∃ row ∈ db.task_runs.rows, ownedBy task_run_id worker_id row = true

instance (task_run_id : UUID) (worker_id : String) (db : Db) :
    Decidable (Owned task_run_id worker_id db) := by
  unfold Owned; infer_instance

variable {r₀ : TaskRun}

/-- A known row has the run and the task it had at the start. -/
theorem Known.eq (hr₀ : r₀ ∈ db₀.task_runs.rows) {r : TaskRun} (h : Known db₀ r)
    (hid : r.id = r₀.id) : r.run_id = r₀.run_id ∧ r.task_id = r₀.task_id := by
  obtain ⟨r₁, hr₁, hsteps⟩ := h
  obtain ⟨k1, k2, k3⟩ := RowStep.keeps_of_steps hsteps
  rw [k2, k3, db₀.task_runs.eq_of_key hr₁ hr₀ (k1.symm.trans hid)]
  exact ⟨rfl, rfl⟩

/-- A row that the walk from `r₀` blocks. -/
def BlockedUnder (db₀ : Db) (r₀ r : TaskRun) : Prop :=
  r.state = .BLOCKED ∧ r.run_id = r₀.run_id ∧ Precedence.Below db₀.parents r₀.task_id r.task_id

/-- The walk blocks tasks below the one it started from, whoever else is at work. -/
theorem outline_blockLoop (hlawful : ∀ r ∈ db₀.task_runs.rows, r.Lawful)
    (hI : ∀ db, I db → Evolves db₀ db) (now : Time) (rounds : ℕ) (frontier : List UUID)
    (hfrontier : ∀ t ∈ frontier, t = r₀.task_id ∨ Precedence.Below db₀.parents r₀.task_id t)
    (own : Db) (trace : List (Event Db)) :
    Outline (store checks) I (Anchored db₀) M (fun _ own' trace' =>
      Grows (fun r => BlockedUnder db₀ r₀ r ∧ Known db₀ r) own own' ∧ trace <:+ trace')
      (blockLoop now r₀.run_id rounds frontier) own trace := by
  induction rounds generalizing frontier own trace with
  | zero =>
      cases frontier with
      | nil => exact ⟨.refl own, List.suffix_rfl⟩
      | cons => trivial
  | succ rounds ih =>
      cases frontier with
      | nil => exact ⟨.refl own, List.suffix_rfl⟩
      | cons task tasks =>
          intro db hdb hJ
          refine ⟨hJ.read (hI db hdb), ?_⟩
          dsimp only
          split
          · exact ⟨.refl own, List.suffix_cons _ _⟩
          · have hbelow : ∀ c ∈ childTaskIds ((store checks).overlay own db) (task :: tasks),
                Precedence.Below db₀.parents r₀.task_id c := by
              intro c hc
              obtain ⟨p, hp, hedge⟩ := mem_childTaskIds.mp hc
              rw [store_overlay, (hJ.view (hI db hdb)).parents] at hedge
              rcases hfrontier p hp with rfl | hbelow
              · exact .single hedge
              · exact hbelow.tail hedge
            refine Outline.bind (store checks) (outline_of_writes hlawful hI
              (writes_block (P := BlockedUnder db₀ r₀) now r₀.run_id _
                (fun r hs hrun hc => ⟨hs, hrun, hbelow _ hc⟩)) own _) ?_
            rintro rows own₁ trace₁ ⟨hgrows, htrace⟩
            have htrace' := (List.suffix_cons _ _).trans htrace
            split
            · exact ⟨hgrows, htrace'⟩
            · refine (ih _ (fun c hc => Or.inr (hbelow c hc)) own₁ trace₁).mono (store checks) ?_
              rintro _ own' trace' ⟨hgrows', htrace''⟩
              exact ⟨hgrows.trans hgrows', htrace'.trans htrace''⟩

theorem outline_block_descendants (hlawful : ∀ r ∈ db₀.task_runs.rows, r.Lawful)
    (hI : ∀ db, I db → Evolves db₀ db) (hr₀ : r₀ ∈ db₀.task_runs.rows) (clock : Clock) (rounds : ℕ)
    (own : Db) (trace : List (Event Db)) :
    Outline (store checks) I (Anchored db₀) M (fun _ own' trace' =>
      Grows (fun r => BlockedUnder db₀ r₀ r ∧ Known db₀ r) own own' ∧ trace <:+ trace')
      (block_descendants clock rounds r₀.id) own trace := by
  intro db hdb hJ
  refine ⟨hJ.read (hI db hdb), ?_⟩
  dsimp only
  cases hget : ((store checks).overlay own db).task_runs.get r₀.id with
  | none => exact ⟨.refl own, List.suffix_cons _ _⟩
  | some row =>
      obtain ⟨hrow, hid⟩ := Table.get_eq_some.mp hget
      obtain ⟨hrun, htask⟩ := Known.eq hr₀ ((hJ.view (hI db hdb)).row_before hrow) hid
      dsimp only
      rw [hrun, htask]
      refine (outline_blockLoop hlawful hI clock.now rounds _ (fun t ht => ?_) own _).mono
        (store checks) (fun _ _ _ h => ⟨h.1, (List.suffix_cons _ _).trans h.2⟩)
      exact Or.inl (List.mem_singleton.mp ht)

/-- What `record_failure` for the row `r₀` has written when it returns `a`. `K` says
that its lease was not lost behind its back. -/
structure FailurePost (db₀ : Db) (r₀ : TaskRun) (K : Prop) (a : Option TaskState) (own : Db)
    (trace : List (Event Db)) : Prop where
  runs : own.workflow_runs = Table.empty
  terminal : ∀ r ∈ own.task_runs.rows, r.state.is_terminal = true → r.run_id = r₀.run_id
  blocked : K → ∀ r ∈ own.task_runs.rows, r.state = .BLOCKED → ∃ f ∈ own.task_runs.rows,
    (f.state = .DEAD_LETTER ∨ f.state = .FAILED) ∧ f.run_id = r.run_id ∧
      Precedence.Below db₀.parents f.task_id r.task_id
  /-- It answers `None` right after its first read, or it runs the guarded update next
  and does not answer `None`. -/
  answer : (∃ v, trace = [.saw v]) ∨ a.isSome = true ∧ ∃ rows seen,
    [.wrote rows, .saw seen] <:+ trace ∧ (K → rows.task_runs.rows ≠ [])

theorem FailurePost.lost (K : Prop) (v : Db) : FailurePost db₀ r₀ K none Db.empty [.saw v] :=
  ⟨rfl, fun _ h => absurd h List.not_mem_nil, fun _ _ h => absurd h List.not_mem_nil,
    Or.inl ⟨v, rfl⟩⟩

/-- The guarded update writes the row if the worker had it when the statement started
and when it ended. -/
theorem mem_written_owned {f : TaskRun → TaskRun} {hf : ∀ r, (f r).id = r.id} {task_run_id : UUID}
    {worker_id : String} {v₀ v : Db} {free : Lock → Bool} (h₀ : Owned task_run_id worker_id v₀)
    (h : Owned task_run_id worker_id v) :
    ∃ r, r ∈ (written (store checks) .update (fun db =>
      { Db.empty with
        task_runs := db.task_runs.updated (ownedBy task_run_id worker_id) f hf }) v₀ v
      free).task_runs.rows := by
  obtain ⟨r, hr, howned⟩ := h
  obtain ⟨s, hs, howned₀⟩ := h₀
  obtain ⟨hid, -⟩ := ownedBy_iff.mp howned
  obtain ⟨hid₀, -⟩ := ownedBy_iff.mp howned₀
  have hlock := Db.mem_locks_taskRun (d := { Db.empty with
      task_runs := v₀.task_runs.updated (ownedBy task_run_id worker_id) f hf })
    (List.mem_map_of_mem (List.mem_filter.mpr ⟨hs, howned₀⟩))
  have hkey : (f s).id = (f r).id := by rw [hf, hf, hid₀, hid]
  rw [hkey] at hlock
  exact ⟨f r, List.mem_filter.mpr ⟨List.mem_map_of_mem (List.mem_filter.mpr ⟨hr, howned⟩),
    decide_eq_true hlock⟩⟩

/-- An update and what follows it. -/
theorem outline_update (hlawful : ∀ r ∈ db₀.task_runs.rows, r.Lawful)
    (hI : ∀ db, I db → Evolves db₀ db) {α : Type} {P : TaskRun → Prop}
    {p : Db → TaskRun → Bool} {f : TaskRun → TaskRun} {hf : ∀ r, (f r).id = r.id}
    (hp : (updateTaskRuns p f hf).Writes (QueueWrite P)) {k : List TaskRun → Tx α}
    {Q : α → Db → List (Event Db) → Prop} {own : Db} {trace : List (Event Db)}
    (hk : ∀ v₀ v free rows, M trace v₀ v → rows = written (store checks) .update (fun db =>
        { Db.empty with task_runs := db.task_runs.updated (p db) f hf }) v₀ v free →
      Grows (fun r => P r ∧ Known db₀ r) own (rows.overlay own) →
      Outline (store checks) I (Anchored db₀) M Q (k rows.task_runs.rows) (rows.overlay own)
        (.wrote rows :: trace)) :
    Outline (store checks) I (Anchored db₀) M Q (updateTaskRuns p f hf >>= k) own trace := by
  intro db₁ db free rows _ _ hdb hJ hM hrows _
  have hqueue : QueueWrite P (own.overlay db) rows := by
    rw [hrows]
    refine written_queueWrite (fun v => ?_) _ _ free
    cases hp with
    | write hstmt => exact hstmt v
  exact ⟨hJ.write (.of_queueWrite hqueue),
    hk _ _ free rows hM hrows (hJ.grows hlawful (hI db hdb) hqueue)⟩

theorem outline_failTerminally (hlawful : ∀ r ∈ db₀.task_runs.rows, r.Lawful)
    (hI : ∀ db, I db → Evolves db₀ db) (hr₀ : r₀ ∈ db₀.task_runs.rows) (clock : Clock) (rounds : ℕ)
    {row : TaskRun} (hid : row.id = r₀.id) (worker_id error : String) {K : Prop} {seen : Db}
    (hK : K → ∀ v₀ v, M [.saw seen] v₀ v → Owned r₀.id worker_id v₀ ∧ Owned r₀.id worker_id v) :
    Outline (store checks) I (Anchored db₀) M (FailurePost db₀ r₀ K)
      (failTerminally clock rounds row worker_id error) Db.empty [.saw seen] := by
  refine outline_update hlawful hI (writes_fail clock.now row worker_id error) ?_
  intro v₀ v free rows hM hrows hgrows
  -- The row the worker failed, if it still had it.
  have hfailed : ∀ r ∈ (rows.overlay Db.empty).task_runs.rows,
      (r.state = .DEAD_LETTER ∨ r.state = .FAILED) ∧ r.run_id = r₀.run_id ∧
        r.task_id = r₀.task_id := by
    intro r hr
    rcases hgrows.rows r hr with hr | ⟨⟨hstate, hrid⟩, hknown⟩
    · cases hr
    · exact ⟨hstate, hknown.eq hr₀ (hrid.trans hid)⟩
  have hexists : K → ∃ f, f ∈ rows.task_runs.rows := by
    intro hk
    obtain ⟨h₀, h⟩ := hK hk _ _ hM
    rw [← hid] at h₀ h
    rw [hrows]
    exact mem_written_owned h₀ h
  -- Closing the attempt touches no task row; then the walk.
  refine Outline.bind _ (outline_of_writes hlawful hI
    (writes_close_attempt (P := fun _ => False) _ _ _ _ _) _ _) ?_
  rintro _ own₁ trace₁ ⟨hclosed, htrace₁⟩
  rw [hid]
  refine Outline.bind _ (outline_block_descendants hlawful hI hr₀ clock rounds own₁ trace₁) ?_
  rintro _ own₂ trace₂ ⟨hwalked, htrace₂⟩
  have hrows₂ : ∀ r ∈ own₂.task_runs.rows,
      r ∈ (rows.overlay Db.empty).task_runs.rows ∨ BlockedUnder db₀ r₀ r := by
    intro r hr
    rcases hwalked.rows r hr with hr | ⟨hr, -⟩
    · rcases hclosed.rows r hr with hr | ⟨hr, -⟩
      · exact Or.inl hr
      · exact hr.elim
    · exact Or.inr hr
  refine ⟨?_, fun r hr _ => ?_, fun hk r hr hb => ?_,
    Or.inr ⟨rfl, rows, seen, htrace₁.trans htrace₂, fun hk => ?_⟩⟩
  · rw [hwalked.runs, hclosed.runs, hgrows.runs]
    rfl
  · rcases hrows₂ r hr with hr | hr
    · exact (hfailed r hr).2.1
    · exact hr.2.1
  · obtain ⟨f, hf⟩ := hexists hk
    have hf : f ∈ (rows.overlay Db.empty).task_runs.rows := Table.mem_overlay.mpr (Or.inl hf)
    obtain ⟨hstate, hrun, htask⟩ := hfailed f hf
    have hterminal : f.state.is_terminal = true := by
      rcases hstate with h | h <;> rw [h] <;> rfl
    refine ⟨f, hwalked.final f (hclosed.final f hf hterminal) hterminal, hstate, ?_⟩
    rcases hrows₂ r hr with hr | hr
    · rcases (hfailed r hr).1 with h | h <;> rw [h] at hb <;> cases hb
    · rw [hrun, htask, hr.2.1]
      exact ⟨rfl, hr.2.2⟩
  · obtain ⟨f, hf⟩ := hexists hk
    exact List.ne_nil_of_mem hf

theorem outline_failForRetry (hlawful : ∀ r ∈ db₀.task_runs.rows, r.Lawful)
    (hI : ∀ db, I db → Evolves db₀ db) (clock : Clock) {row : TaskRun} (hid : row.id = r₀.id)
    (worker_id error : String) (delay : ℚ) {K : Prop} {seen : Db}
    (hK : K → ∀ v₀ v, M [.saw seen] v₀ v → Owned r₀.id worker_id v₀ ∧ Owned r₀.id worker_id v) :
    Outline (store checks) I (Anchored db₀) M (FailurePost db₀ r₀ K)
      (failForRetry clock row worker_id error delay) Db.empty [.saw seen] := by
  refine outline_update hlawful hI (writes_retry _ row worker_id error) ?_
  intro v₀ v free rows hM hrows hretried
  refine Outline.bind _ (outline_of_writes hlawful hI
    (writes_close_attempt (P := fun r => r.state = .READY) _ _ _ _ _) _ _) ?_
  rintro _ own₂ trace₂ ⟨hclosed, htrace₂⟩
  have hgrows := hretried.trans hclosed
  have hready : ∀ r ∈ own₂.task_runs.rows, r.state = .READY := by
    intro r hr
    rcases hgrows.rows r hr with hr | ⟨hr, -⟩
    · cases hr
    · exact hr
  refine ⟨hgrows.runs, fun r hr ht => ?_, fun _ r hr hb => ?_,
    Or.inr ⟨rfl, rows, seen, htrace₂, fun hk => ?_⟩⟩
  · rw [hready r hr] at ht
    cases ht
  · rw [hready r hr] at hb
    cases hb
  · obtain ⟨h₀, h⟩ := hK hk _ _ hM
    rw [← hid] at h₀ h
    obtain ⟨r, hr⟩ := @mem_written_owned checks _ _ _ _ _ _ free h₀ h
    rw [hrows]
    exact List.ne_nil_of_mem hr

/-- **`record_failure` for the row `r₀`**, from its first statement on. -/
theorem outline_record_failure (hlawful : ∀ r ∈ db₀.task_runs.rows, r.Lawful)
    (hI : ∀ db, I db → Evolves db₀ db) (hr₀ : r₀ ∈ db₀.task_runs.rows) (clock : Clock)
    (uniform : ℚ → ℚ) (rounds : ℕ) (worker_id error : String) {K : Prop}
    (hK : K → ∀ seen v₀ v, Owned r₀.id worker_id seen → M [.saw seen] v₀ v →
      Owned r₀.id worker_id v₀ ∧ Owned r₀.id worker_id v) :
    Outline (store checks) I (Anchored db₀) M (FailurePost db₀ r₀ K)
      (record_failure clock uniform rounds r₀.id worker_id error) Db.empty [] := by
  intro db hdb hJ
  refine ⟨hJ.read (hI db hdb), ?_⟩
  dsimp only
  cases hget : ((store checks).overlay Db.empty db).task_runs.get r₀.id with
  | none => exact .lost K _
  | some row =>
      obtain ⟨hrow, hid⟩ := Table.get_eq_some.mp hget
      dsimp only
      split
      · exact .lost K _
      · rename_i hworker
        have howned : Owned r₀.id worker_id ((store checks).overlay Db.empty db) :=
          ⟨row, hrow, ownedBy_iff.mpr ⟨hid, not_not.mp hworker⟩⟩
        split
        · trivial
        · cases build_policy (some _) with
          | error e => trivial
          | ok policy =>
              show Outline _ _ _ _ _ (Prog.lift (policy.next_delay uniform row.attempt) >>= _) _ _
              cases policy.next_delay uniform row.attempt with
              | error e => trivial
              | ok delay =>
                  have hK' := fun hk v₀ v hM => hK hk _ v₀ v howned hM
                  cases delay with
                  | none => exact outline_failTerminally hlawful hI hr₀ clock rounds hid _ error hK'
                  | some delay => exact outline_failForRetry hlawful hI clock hid _ error _ hK'

/-! ## Whole transactions -/

/-- What the guarded update of a failure report wrote: the second statement, if the
first one saw the row in the worker's hands. -/
def guarded (report : Report) (trace : List (Event Db)) : Option Db :=
  match report.result, trace.reverse with
  | .failure _, .saw seen :: .wrote rows :: _ =>
      if Owned report.task_run_id report.worker_id seen then some rows else none
  | _, _ => none

/-- **What a session has written when it has come to its end**, whatever others did
in between. `K` says that no lease was lost behind the back of a failure report. -/
structure Post (db₀ : Db) (K : Prop) (call : Call) (a : Bool) (own : Db)
    (trace : List (Event Db)) : Prop where
  terminal : ∀ r ∈ own.task_runs.rows, r.state.is_terminal = true →
    call.refreshes = some r.run_id
  blocked : K → ∀ r ∈ own.task_runs.rows, r.state = .BLOCKED → ∃ f ∈ own.task_runs.rows,
    (f.state = .DEAD_LETTER ∨ f.state = .FAILED) ∧ f.run_id = r.run_id ∧
      Precedence.Below db₀.parents f.task_id r.task_id
  unrefreshed : call.refreshes = none → own.workflow_runs = Table.empty
  refreshed : ∀ run_id, call.refreshes = some run_id →
    ∃ seen, lastSeen trace = some seen ∧ Refreshed db₀ run_id own seen
  answer : ∀ rounds report rows, call = .complete rounds report →
    guarded report trace = some rows → a = true ∧ (K → rows.task_runs.rows ≠ [])

/-- The guarded update is the second statement of all. -/
theorem guarded_eq {report : Report} {trace : List (Event Db)} {rows rows' seen : Db}
    (h : [.wrote rows, .saw seen] <:+ trace) (hg : guarded report trace = some rows') :
    rows' = rows := by
  obtain ⟨later, rfl⟩ := h
  unfold guarded at hg
  rw [List.reverse_append] at hg
  cases hresult : report.result with
  | success output =>
      rw [hresult] at hg
      cases hg
  | failure error =>
      simp only [hresult, List.reverse_cons, List.reverse_nil, List.nil_append, List.cons_append]
        at hg
      split at hg
      · exact (Option.some.inj hg).symm
      · cases hg

/-- A call that only writes task rows, none of them terminal. -/
theorem Post.of_grows {P : TaskRun → Prop} {K : Prop} {call : Call} {a : Bool} {own : Db}
    {trace : List (Event Db)} (hcall : call.refreshes = none)
    (hP : ∀ r, P r → r.state.is_terminal = false) (h : Grows P Db.empty own) :
    Post db₀ K call a own trace := by
  have hlive : ∀ r ∈ own.task_runs.rows, r.state.is_terminal = false := by
    intro r hr
    rcases h.rows r hr with hr | hr
    · cases hr
    · exact hP r hr
  refine ⟨fun r hr ht => ?_, fun _ r hr hb => ?_, fun _ => h.runs, fun run_id he => ?_,
    fun rounds report rows he => ?_⟩
  · rw [hlive r hr] at ht
    cases ht
  · have := hlive r hr
    rw [hb] at this
    cases this
  · rw [hcall] at he
    cases he
  · rw [he] at hcall
    cases hcall

/-- What a report has written before the run is refreshed. -/
structure Reported (db₀ : Db) (K : Prop) (report : Report) (a : Bool) (own : Db)
    (trace : List (Event Db)) : Prop where
  runs : own.workflow_runs = Table.empty
  terminal : ∀ r ∈ own.task_runs.rows, r.state.is_terminal = true → r.run_id = report.run_id
  blocked : K → ∀ r ∈ own.task_runs.rows, r.state = .BLOCKED → ∃ f ∈ own.task_runs.rows,
    (f.state = .DEAD_LETTER ∨ f.state = .FAILED) ∧ f.run_id = r.run_id ∧
      Precedence.Below db₀.parents f.task_id r.task_id
  answer : ∀ error, report.result = .failure error → (∃ v, trace = [.saw v]) ∨
    a = true ∧ ∃ rows seen, [.wrote rows, .saw seen] <:+ trace ∧ (K → rows.task_runs.rows ≠ [])

theorem outline_recordResult (hlawful : ∀ r ∈ db₀.task_runs.rows, r.Lawful)
    (hI : ∀ db, I db → Evolves db₀ db) {report : Report} (hr₀ : r₀ ∈ db₀.task_runs.rows)
    (hid : r₀.id = report.task_run_id) (hrun : r₀.run_id = report.run_id) (rounds : ℕ) {K : Prop}
    (hK : K → ∀ error, report.result = .failure error → ∀ seen v₀ v,
      Owned report.task_run_id report.worker_id seen → M [.saw seen] v₀ v →
      Owned report.task_run_id report.worker_id v₀ ∧ Owned report.task_run_id report.worker_id v) :
    Outline (store checks) I (Anchored db₀) M (Reported db₀ K report) (recordResult rounds report)
      Db.empty [] := by
  unfold recordResult recordResult_with
  rw [← hid] at hK ⊢
  cases hresult : report.result with
  | success output =>
      refine (outline_of_writes hlawful hI (writes_record_success _ _ _ _) Db.empty []).mono _ ?_
      rintro a own trace ⟨hgrows, -⟩
      have hrows : ∀ r ∈ own.task_runs.rows, r.state = .SUCCEEDED ∧ r.run_id = report.run_id ∨
          r.state = .PENDING ∨ r.state = .READY := by
        intro r hr
        rcases hgrows.rows r hr with hr | ⟨⟨hstate, hrid⟩ | hstate, hknown⟩
        · cases hr
        · exact Or.inl ⟨hstate, (hknown.eq hr₀ hrid).1.trans hrun⟩
        · exact Or.inr hstate
      refine ⟨hgrows.runs, fun r hr ht => ?_, fun _ r hr hb => ?_, fun error he => ?_⟩
      · rcases hrows r hr with ⟨-, h⟩ | h | h
        · exact h
        · rw [h] at ht
          cases ht
        · rw [h] at ht
          cases ht
      · rcases hrows r hr with ⟨h, -⟩ | h | h <;> rw [h] at hb <;> cases hb
      · rw [hresult] at he
        cases he
  | failure error =>
      refine Outline.bind _ (outline_record_failure hlawful hI hr₀ _ _ rounds _ error
        (fun hk => hK hk error hresult)) ?_
      intro a own trace hpost
      refine ⟨hpost.runs, fun r hr ht => (hpost.terminal r hr ht).trans hrun, hpost.blocked, ?_⟩
      exact fun _ _ => hpost.answer

/-- **The statements of every call.** -/
theorem outline_body (hlawful : ∀ r ∈ db₀.task_runs.rows, r.Lawful)
    (hI : ∀ db, I db → Evolves db₀ db) {call : Call} (hsound : call.Sound db₀) {K : Prop}
    (hK : K → ∀ rounds report error, call = .complete rounds report →
      report.result = .failure error → ∀ seen v₀ v,
      Owned report.task_run_id report.worker_id seen → M [.saw seen] v₀ v →
      Owned report.task_run_id report.worker_id v₀ ∧ Owned report.task_run_id report.worker_id v) :
    Outline (store checks) I (Anchored db₀) M (Post db₀ K call) call.body Db.empty [] := by
  cases call with
  | claim lease_seconds clock tie worker_id limit =>
      refine Outline.bind _ (outline_of_writes hlawful hI (writes_claim_batch _ _ _ _ _) _ _) ?_
      rintro _ own trace ⟨hgrows, -⟩
      exact .of_grows rfl (fun r hr => by rw [hr.1]; rfl) hgrows
  | renew lease_seconds clock task_run_id worker_id =>
      refine (outline_of_writes hlawful hI (writes_renew_lease _ _ _ _) Db.empty []).mono _ ?_
      rintro _ own trace ⟨hgrows, -⟩
      exact .of_grows rfl (fun r hr => by rw [hr.1]; rfl) hgrows
  | reap clock =>
      refine Outline.bind _ (outline_of_writes hlawful hI (writes_reap_expired_leases _) _ _) ?_
      rintro _ own trace ⟨hgrows, -⟩
      exact .of_grows rfl (fun r hr => by rw [hr.1]; rfl) hgrows
  | cancel clock run_id =>
      refine Outline.bind (Q := fun _ => Post db₀ K (.cancel clock run_id) true) _ ?_
        (fun _ _ _ h => h)
      refine Outline.bind _ (outline_of_writes hlawful hI (writes_cancel _ _) _ _) ?_
      rintro _ own trace ⟨hgrows, -⟩
      refine Outline.bind _ (outline_refresh hI clock run_id hgrows.runs trace) ?_
      rintro _ own' trace' ⟨hsame, seen, rows, rfl, hrefreshed⟩
      have hrows : ∀ r ∈ own'.task_runs.rows, r.state = .CANCELLED ∧ r.run_id = run_id := by
        intro r hr
        rw [hsame] at hr
        rcases hgrows.rows r hr with hr | ⟨hr, -⟩
        · cases hr
        · exact hr
      refine ⟨fun r hr _ => congrArg some (hrows r hr).2.symm, fun _ r hr hb => ?_,
        (fun he => by cases he), fun run_id' he => ?_, (fun _ _ _ he => by cases he)⟩
      · rw [(hrows r hr).1] at hb
        cases hb
      · cases he
        exact ⟨seen, rfl, hrefreshed⟩
  | complete rounds report =>
      obtain ⟨r₀, hr₀, hid, hrun⟩ := hsound
      refine Outline.bind _ (outline_recordResult hlawful hI hr₀ hid hrun rounds
        (fun hk error he => hK hk rounds report error rfl he)) ?_
      intro a own trace hreported
      refine Outline.bind _ (outline_refresh hI report.clock report.run_id hreported.runs trace) ?_
      rintro _ own' trace' ⟨hsame, seen, rows, rfl, hrefreshed⟩
      refine ⟨?_, ?_, (fun he => by cases he), fun run_id he => ?_,
        fun rounds' report' rows' he hg => ?_⟩
      · rw [hsame]
        exact fun r hr ht => congrArg some (hreported.terminal r hr ht).symm
      · rw [hsame]
        exact hreported.blocked
      · cases he
        exact ⟨seen, rfl, hrefreshed⟩
      · cases he
        cases hresult : report.result with
        | success output =>
            simp only [guarded, hresult] at hg
            cases hg
        | failure error =>
            rcases hreported.answer error hresult with ⟨v, rfl⟩ | ⟨ha, rows₁, seen₁, htrace, hmatched⟩
            · -- Without the row in hand the first two statements are reads.
              simp only [guarded, hresult] at hg
              cases hg
            · have htrace' := htrace.trans ((List.suffix_cons (.saw seen) trace).trans
                (List.suffix_cons (.wrote rows) _))
              rw [guarded_eq htrace' hg]
              exact ⟨ha, hmatched⟩

/-- A proof about all interleavings that start from `db₀`: what is left to show is
that a commit keeps `I`. -/
def discipline (hlawful : ∀ r ∈ db₀.task_runs.rows, r.Lawful) (hI : ∀ db, I db → Evolves db₀ db)
    {M : Call → List (Event Db) → Db → Db → Prop} {N : Call → Db → Db → List (Event Db) → Prop}
    (K : Prop)
    (hK : K → ∀ rounds report error, report.result = .failure error → ∀ seen v₀ v,
      Owned report.task_run_id report.worker_id seen →
      M (.complete rounds report) [.saw seen] v₀ v →
      Owned report.task_run_id report.worker_id v₀ ∧ Owned report.task_run_id report.worker_id v)
    (hcommit : ∀ db call a own trace, I db → Anchored db₀ db own trace → Post db₀ K call a own trace →
      N call db own trace → I (own.overlay db)) :
    Discipline (store checks) Call.body (fun db call => call.Sound db) M N where
  I := I
  J := Anchored db₀
  Q := Post db₀ K
  begins := by
    intro db call hdb hsound
    refine ⟨.start db₀ db, outline_body hlawful hI ?_ (fun hk rounds report error he => ?_)⟩
    · cases call with
      | complete rounds report =>
          obtain ⟨r, hr, hid, hrun⟩ := hsound
          obtain ⟨r₀, hr₀, hsteps⟩ := (hI db hdb).row_before hr
          obtain ⟨k1, k2, -⟩ := RowStep.keeps_of_steps hsteps
          exact ⟨r₀, hr₀, k1.symm.trans hid, k2.symm.trans hrun⟩
      | _ => trivial
    · subst he
      exact hK hk rounds report error
  commits := hcommit
  stable := fun _ _ _ _ _ _ h h' hdisjoint => h.commit h' hdisjoint

end Outlines

/-- **All interleavings.** What holds of every database the service starts from and is
kept by every commit holds in every state reached, and a session that has come to
its end has written what `Post` says. -/
theorem Interleaved.rule {M : Call → List (Event Db) → Db → Db → Prop}
    {N : Call → Db → Db → List (Event Db) → Prop} {s : Queue} (h : Interleaved checks M N s)
    {K : Prop} {P : Db → Prop}
    (hK : K → ∀ rounds report error, report.result = .failure error → ∀ seen v₀ v,
      Owned report.task_run_id report.worker_id seen →
      M (.complete rounds report) [.saw seen] v₀ v →
      Owned report.task_run_id report.worker_id v₀ ∧ Owned report.task_run_id report.worker_id v)
    (hinit : ∀ db₀, Requested checks (fun _ _ => True) db₀ → P db₀)
    (hcommit : ∀ db₀ db call a own trace, Requested checks (fun _ _ => True) db₀ →
      Evolves db₀ db → P db → Anchored db₀ db own trace → Post db₀ K call a own trace →
      N call db own trace → P (own.overlay db)) :
    P s.committed ∧ ∃ db₀, Requested checks (fun _ _ => True) db₀ ∧ Evolves db₀ s.committed ∧
      ∀ i t a, s.session i = some t → t.result = some a →
        Anchored db₀ s.committed t.own t.trace ∧ Post db₀ K t.call a t.own t.trace := by
  obtain ⟨s₀, ⟨hrequested, hsessions⟩, hreach⟩ := h.exists_start
  have hsafe := (discipline (I := fun db => Evolves s₀.committed db ∧ P db)
    hrequested.inv.good.lawful (fun _ h => h.1) K hK
    (fun db call a own trace hdb hanchored hpost hN =>
      ⟨hdb.1.trans hanchored.based.evolves,
        hcommit _ db call a own trace hrequested hdb.1 hdb.2 hanchored hpost hN⟩)).safe
    store_lawful (fun s hs => by rw [hs]; exact ⟨⟨.refl _, hinit _ hrequested⟩, hsessions⟩) hreach
  exact ⟨hsafe.committed.2, s₀.committed, hrequested, hsafe.committed.1,
    fun i t a ht hresult => ⟨(hsafe.session i t ht).own, hsafe.post ht hresult⟩⟩

/-! ## Schedules -/

/-- The queue after the steps of a schedule, from a database with nothing open. -/
def Queue.after (checks : Bool) (db : Db) (schedule : List (Label Call Lock)) : Queue :=
  schedule.foldl (Sys.step (store checks) Call.body) ⟨db, []⟩

theorem interleaved_after {M : Call → List (Event Db) → Db → Db → Prop}
    {N : Call → Db → Db → List (Event Db) → Prop} {db : Db}
    (hdb : Requested checks (fun _ _ => True) db) {schedule : List (Label Call Lock)}
    (h : Lts.Meets (Sys.step (store checks) Call.body)
      (StepMeets (store checks) (fun db call => call.Sound db) M N) ⟨db, []⟩ schedule) :
    Interleaved checks M N (Queue.after checks db schedule) :=
  Lts.ReachVia.foldl (.start ⟨hdb, rfl⟩) h

end Conductor
