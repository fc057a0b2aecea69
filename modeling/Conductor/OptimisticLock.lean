/-
The `version` columns as change counters.

`task_runs` and `workflow_runs` both have a `version` that no statement of the service
ever compares: the schema calls it an optimistic lock, and every `UPDATE` adds one to
it. What such a column promises is that a row read with version `v` is still the same
row as long as its version is `v`. Here that is shown of every interleaving of the
queue's transactions, from any moment of a run to any later one.

Task rows are rewritten by `RowStep`s, each of which counts one. For run rows a second
contract says that `_refresh` is all that ever happens to them.
-/
import Conductor.ExactlyOnce

set_option autoImplicit false

open Relational Txn

namespace Conductor

open RunRepository TaskQueueRepository

variable {checks : Bool}

/-! ## Counting changes -/

/-- A counter that every step raises tells whether anything happened. -/
theorem eq_of_counter {α : Type} {R : α → α → Prop} (count : α → ℤ)
    (hstep : ∀ a b, R a b → count a < count b) {a b : α} (h : Relation.ReflTransGen R a b) :
    count a ≤ count b ∧ (count b = count a → b = a) := by
  induction h with
  | refl => exact ⟨le_refl _, fun _ => rfl⟩
  | tail _ hlast ih =>
      have hlt := hstep _ _ hlast
      exact ⟨ih.1.trans hlt.le, fun he => by omega⟩

/-- One refresh of a run row. -/
def RunStep (run run' : WorkflowRun) : Prop := ∃ now derived, run' = refreshed now derived run

/-- Every update of a task row counts one up. -/
theorem RowStep.version {r r' : TaskRun} (h : RowStep r r') : r'.version = r.version + 1 := by
  cases h <;> rfl

theorem RunStep.version {run run' : WorkflowRun} (h : RunStep run run') :
    run'.version = run.version + 1 := by
  obtain ⟨now, derived, rfl⟩ := h
  rfl

/-- Refreshes of a run row, one after the other. -/
abbrev RunSteps := Relation.ReflTransGen RunStep

theorem RunStep.id_of_steps {run run' : WorkflowRun} (h : RunSteps run run') :
    run'.id = run.id := by
  induction h with
  | refl => rfl
  | tail _ hstep ih =>
      obtain ⟨now, derived, rfl⟩ := hstep
      exact ih

/-! ## What the calls do to run rows -/

/-- The run rows `d` are refreshed rows of `v`. -/
def RunsFrom (R : WorkflowRun → WorkflowRun → Prop) (v d : Db) : Prop :=
  ∀ run' ∈ d.workflow_runs.rows, ∃ run ∈ v.workflow_runs.rows, R run run'

theorem RunsFrom.written {R : WorkflowRun → WorkflowRun → Prop} {kind : Kind} {stmt : Db → Db}
    (h : ∀ v, RunsFrom R v (stmt v)) (v₀ v : Db) (free : Lock → Bool) :
    RunsFrom R v (written (store checks) kind stmt v₀ v free) := by
  cases kind with
  | update => exact fun run' hrun' => h v run' (List.mem_filter.mp hrun').1
  | skipLocked =>
      intro run' hrun'
      obtain ⟨run, hrun, hR⟩ := h _ run' hrun'
      exact ⟨run, (List.mem_filter.mp hrun).1, hR⟩
  | insert => exact h v

/-- The statements of the queue leave them alone. -/
theorem leaves_runs {P : TaskRun → Prop} {α : Type} {tx : Tx α}
    (h : tx.Writes (QueueWrite P)) : tx.Writes (RunsFrom RunStep) := by
  refine h.mono (fun v d hd run' hrun' => ?_)
  rw [hd.runs] at hrun'
  cases hrun'

theorem refresh_runsFrom (clock : Clock) (run_id : UUID) :
    (refresh_run_state clock run_id).Writes (RunsFrom RunStep) := by
  refine .read (fun _ => .write (fun v run' hrun' => ?_) (fun _ => .ret _))
  obtain ⟨run, hrun, rfl⟩ := List.mem_map.mp hrun'
  exact ⟨run, (List.mem_filter.mp hrun).1, clock.now, _, rfl⟩

theorem Call.refreshes_runs (call : Call) : call.reply.Writes (RunsFrom RunStep) := by
  cases call with
  | claim lease_seconds clock tie worker_id limit =>
      exact (leaves_runs (writes_claim_batch _ _ _ _ _)).bind (fun _ => .ret _)
  | renew lease_seconds clock task_run_id worker_id =>
      exact (leaves_runs (writes_renew_lease _ _ _ _)).bind (fun _ => .ret _)
  | reap clock =>
      exact ((leaves_runs (writes_reap_expired_leases clock)).bind (fun _ => .ret _)).bind
        (fun _ => .ret _)
  | cancel clock run_id =>
      refine Prog.Writes.bind (Prog.Writes.bind (Prog.Writes.bind ?_ (fun _ =>
        (refresh_runsFrom clock run_id).bind (fun _ => .ret _))) (fun _ => .ret _))
        (fun _ => .ret _)
      exact leaves_runs (writes_cancel clock.now run_id)
  | complete rounds report =>
      refine Prog.Writes.bind (Prog.Writes.bind ?_ (fun _ =>
        (refresh_runsFrom report.clock report.run_id).bind (fun _ => .ret _))) (fun _ => .ret _)
      unfold recordResult_with
      cases report.result with
      | success output => exact leaves_runs (writes_record_success _ _ _ _)
      | failure error =>
          exact (leaves_runs (writes_record_failure _ _ _ _ _ _)).bind (fun _ => .ret _)

/-- The run rows of a session are refreshed rows of the committed database. -/
def RunsTied (_ : Call) (db own : Db) : Prop := RunsFrom RunSteps db own

theorem RunsTied.write {call : Call} {db own rows : Db} (h : RunsTied call db own)
    (hrows : RunsFrom RunStep (own.overlay db) rows) : RunsTied call db (rows.overlay own) := by
  intro run' hrun'
  rcases Table.mem_overlay.mp hrun' with hrun' | ⟨hrun', -⟩
  · obtain ⟨run, hrun, hR⟩ := hrows run' hrun'
    rcases Table.mem_overlay.mp hrun with hrun | ⟨hrun, -⟩
    · obtain ⟨run₀, hrun₀, hR₀⟩ := h run hrun
      exact ⟨run₀, hrun₀, hR₀.tail hR⟩
    · exact ⟨run, hrun, .single hR⟩
  · exact h run' hrun'

theorem RunsTied.stable {call : Call} {db own own' : Db} (h : RunsTied call db own)
    (hdisjoint : ∀ l ∈ own.locks, l ∉ own'.locks) : RunsTied call (own'.overlay db) own := by
  intro run' hrun'
  obtain ⟨run, hrun, hR⟩ := h run' hrun'
  refine ⟨run, Table.mem_overlay.mpr (Or.inr ⟨hrun, Table.get_eq_none.mpr (fun x hx hk => ?_)⟩), hR⟩
  refine hdisjoint (.workflowRun run'.id) (Db.mem_locks_workflowRun hrun') ?_
  rw [RunStep.id_of_steps hR, ← hk]
  exact Db.mem_locks_workflowRun hx

/-- What each call does to run rows. -/
def refreshing (checks : Bool) {db₀ : Db} (hlawful : ∀ r ∈ db₀.task_runs.rows, r.Lawful) :
    Contract (answering checks hlawful) where
  P := fun _ => RunsFrom RunStep
  K := RunsTied
  writes := Call.refreshes_runs
  empty := fun _ _ _ h => absurd h List.not_mem_nil
  write := fun _ _ _ _ _ _ _ _ _ _ hstmt hK => hK.write (RunsFrom.written hstmt _ _ _)
  stable := fun _ _ _ _ _ _ _ _ _ hdisjoint hK => hK.stable hdisjoint

/-! ## From one moment to a later one -/

/-- One committed database came from the other by writes that its rows survived. -/
structure Later (db db' : Db) : Prop where
  tasks : ∀ r ∈ db.task_runs.rows, ∃ r' ∈ db'.task_runs.rows, RowSteps r r'
  runs : ∀ run ∈ db.workflow_runs.rows, ∃ run' ∈ db'.workflow_runs.rows, RunSteps run run'

theorem Later.refl (db : Db) : Later db db :=
  ⟨fun r hr => ⟨r, hr, .refl⟩, fun run hrun => ⟨run, hrun, .refl⟩⟩

theorem Later.trans {db db' db'' : Db} (h : Later db db') (h' : Later db' db'') :
    Later db db'' := by
  refine ⟨fun r hr => ?_, fun run hrun => ?_⟩
  · obtain ⟨r', hr', hsteps⟩ := h.tasks r hr
    obtain ⟨r'', hr'', hsteps'⟩ := h'.tasks r' hr'
    exact ⟨r'', hr'', hsteps.trans hsteps'⟩
  · obtain ⟨run', hrun', hsteps⟩ := h.runs run hrun
    obtain ⟨run'', hrun'', hsteps'⟩ := h'.runs run' hrun'
    exact ⟨run'', hrun'', hsteps.trans hsteps'⟩

/-- A commit is such a step. -/
theorem Later.commit {db own : Db} (hbased : Based db own) (htied : RunsFrom RunSteps db own) :
    Later db (own.overlay db) := by
  refine ⟨fun r hr => hbased.evolves.row_after hr, fun run hrun => ?_⟩
  cases hget : own.workflow_runs.get run.id with
  | none => exact ⟨run, Table.mem_overlay.mpr (Or.inr ⟨hrun, hget⟩), .refl⟩
  | some run' =>
      obtain ⟨hrun', hid⟩ := Table.get_eq_some.mp hget
      obtain ⟨run₀, hrun₀, hR⟩ := htied run' hrun'
      have he : run₀ = run := db.workflow_runs.eq_of_key hrun₀ hrun
        ((RunStep.id_of_steps hR).symm.trans hid)
      rw [he] at hR
      exact ⟨run', Table.mem_overlay.mpr (Or.inl hrun'), hR⟩

/-- Two moments of one run of the system. -/
def Witnessed.Leads (checks : Bool) (s s' : Logged Db Exn Answer Call) : Prop :=
  Lts.ReachVia (· = s) (fun s l s' => s.step (store checks) Call.reply l = s')
    (fun s l => StepMeets (store checks) (fun db call => call.Sound db) anyWrite anyCommit s.sys l)
    s'

/-- Between two moments of an interleaving nothing is lost and versions only grow. -/
theorem Witnessed.later {s s' : Logged Db Exn Answer Call} (h : Witnessed checks s)
    (hleads : Witnessed.Leads checks s s') : Later s.sys.committed s'.sys.committed := by
  obtain ⟨s₀, ⟨hrequested, hsessions⟩, hs⟩ := Recorded.exists_start h
  have hlawful := hrequested.inv.good.lawful
  have hinit : ∀ t : Sys Db Exn Answer Call, t = s₀ →
      Evolves s₀.committed t.committed ∧ t.sessions = [] :=
    fun t ht => by rw [ht]; exact ⟨.refl _, hsessions⟩
  -- Along the way the state stays one of the run from the start.
  suffices hboth : Recorded (store checks) Call.reply (· = s₀) (StepMeets (store checks)
      (fun db call => call.Sound db) anyWrite anyCommit) s' ∧
        Later s.sys.committed s'.sys.committed from hboth.2
  induction hleads with
  | start hi =>
      rw [hi]
      exact ⟨hs, .refl _⟩
  | @next s₁ s₂ l _ hl hstep ih =>
      obtain ⟨hreach, hlater⟩ := ih
      refine ⟨.next hreach hl hstep, hlater.trans ?_⟩
      rw [← hstep]
      simp only [Logged.step, Sys.committed_step]
      cases hended : s₁.sys.ended (store checks) l with
      | none => exact .refl _
      | some r =>
          obtain ⟨i, call, ending⟩ := r
          cases ending with
          | committed answer rows =>
              obtain ⟨t, -, ht, rfl, -, rfl⟩ := Sys.ended_committed hended rfl
              have hsys := Recorded.reach hreach
              have hsafe := (answering checks hlawful).safe store_lawful hinit hsys
              have hkept := (refreshing checks hlawful).kept store_lawful hinit hsys ht
              exact .commit (hsafe.session i t ht).own.based hkept.own
          | failed e => exact .refl _
          | lost => exact .refl _

/-- **Versions count changes.** Between any two moments of any interleaving, no task row and
no run row is lost, its version does not go down, and a row whose version is the same is the
same row. -/
theorem versions_count_changes {s s' : Logged Db Exn Answer Call} (h : Witnessed checks s)
    (hleads : Witnessed.Leads checks s s') :
    (∀ r ∈ s.sys.committed.task_runs.rows, ∃ r' ∈ s'.sys.committed.task_runs.rows,
      r'.id = r.id ∧ r.version ≤ r'.version ∧ (r'.version = r.version → r' = r)) ∧
    ∀ run ∈ s.sys.committed.workflow_runs.rows, ∃ run' ∈ s'.sys.committed.workflow_runs.rows,
      run'.id = run.id ∧ run.version ≤ run'.version ∧
        (run'.version = run.version → run' = run) := by
  have hlater := h.later hleads
  refine ⟨fun r hr => ?_, fun run hrun => ?_⟩
  · obtain ⟨r', hr', hsteps⟩ := hlater.tasks r hr
    have hcount := eq_of_counter TaskRun.version
      (fun a b (hab : RowStep a b) => by rw [hab.version]; omega) hsteps
    exact ⟨r', hr', (RowStep.keeps_of_steps hsteps).1, hcount⟩
  · obtain ⟨run', hrun', hsteps⟩ := hlater.runs run hrun
    have hcount := eq_of_counter WorkflowRun.version
      (fun a b (hab : RunStep a b) => by rw [hab.version]; omega) hsteps
    exact ⟨run', hrun', RunStep.id_of_steps hsteps, hcount⟩

theorem reclaimed_leads :
    Witnessed.Leads true ⟨⟨readySolo, []⟩, []⟩ (witnessed true readySolo reclaimed) :=
  Lts.ReachVia.foldl (.start rfl) (by decide +kernel)

/-- From the start of `reclaimed` to its end the task row changes four times, by two claims,
a reap and a success, and the run row once for each report. -/
theorem versions_count_changes_reclaimed :
    (∀ r ∈ readySolo.task_runs.rows,
      ∃ r' ∈ (witnessed true readySolo reclaimed).sys.committed.task_runs.rows,
        r'.id = r.id ∧ r.version ≤ r'.version ∧ (r'.version = r.version → r' = r)) ∧
    (witnessed true readySolo reclaimed).sys.committed.task_runs.rows.map TaskRun.version = [4] ∧
    (witnessed true readySolo reclaimed).sys.committed.workflow_runs.rows.map WorkflowRun.version
      = [2] := by
  have hstart : Witnessed true ⟨⟨readySolo, []⟩, []⟩ := .start ⟨⟨requested_readySolo, rfl⟩, rfl⟩
  exact ⟨(versions_count_changes hstart reclaimed_leads).1, by decide +kernel, by decide +kernel⟩

end Conductor
