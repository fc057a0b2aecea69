/-
What a run comes to, whoever executes it.

Between the start of a run and its end there are claims by any number of workers, retries,
leases that expire and attempts that are given up, in an order nobody decides. None of it
shows in the end. If a run was not cancelled, then the final state of each of its tasks
follows from the graph and from which tasks fail for good when they are tried: a task below
one of them is `BLOCKED`, and any other is `DEAD_LETTER` or `SUCCEEDED` as it fails or not.

The statement is about two runs of one workflow in one database, however their operations
were mixed, with the same verdict on the tasks that were tried in either of them.
-/
import Conductor.Lib.Verdicts
import Conductor.RetryBudget

set_option autoImplicit false

open Relational

namespace Conductor

open RunRepository TaskQueueRepository WorkflowRepository

variable {checks : Bool} {db : Db} {run_id : UUID} {fails : UUID → Prop}

/-- The run is over and was not cancelled, and the tasks that were tried failed for good as
the verdict says. -/
def Db.EndsBy (db : Db) (run_id : UUID) (fails : UUID → Prop) : Prop :=
  ∀ r ∈ db.runTasks run_id, r.state.is_terminal = true ∧ r.state ≠ .CANCELLED ∧
    (r.state = .SUCCEEDED → ¬ fails r.task_id) ∧ (r.state = .DEAD_LETTER → fails r.task_id)

/-- Below a task of the graph that fails. -/
def Db.Doomed (db : Db) (fails : UUID → Prop) (task_id : UUID) : Prop :=
  ∃ a, Precedence.Below db.parents a task_id ∧ fails a

/-- The run as an execution has ended by the verdict. -/
theorem endsBy_status (hinv : Inv checks db) (hnever : db.NeverFailed)
    (h : db.EndsBy run_id fails) : Precedence.EndsBy (db.status run_id) fails := by
  -- Whatever has a status has a row with it.
  have hrow : ∀ t s, db.status run_id t = s → s ≠ .absent →
      ∃ r ∈ db.runTasks run_id, r.task_id = t ∧ r.state.status = s := by
    intro t s hs hne
    obtain ⟨r, hr, hrun, htask, hstatus⟩ := Db.exists_row_of_status hinv.unique hs hne
    exact ⟨r, Db.mem_runTasks.mpr ⟨hr, hrun⟩, htask, hstatus⟩
  refine ⟨fun t => ?_, fun t ht => ?_, fun t ht => ?_, fun t ht => ?_⟩
  · cases hs : db.status run_id t with
    | waiting =>
        obtain ⟨r, hr, -, hstatus⟩ := hrow t _ hs (by decide)
        have hterminal := (h r hr).1
        rw [TaskState.status_eq_waiting.mp hstatus] at hterminal
        cases hterminal
    | enabled =>
        obtain ⟨r, hr, -, hstatus⟩ := hrow t _ hs (by decide)
        have hterminal := (h r hr).1
        rcases TaskState.status_eq_enabled.mp hstatus with he | he | he <;>
          · rw [he] at hterminal
            cases hterminal
    | absent | done | failed | blocked | cancelled => rfl
  · obtain ⟨r, hr, -, hstatus⟩ := hrow t _ ht (by decide)
    refine (h r hr).2.1 ?_
    cases hstate : r.state <;> rw [hstate] at hstatus <;> first | rfl | cases hstatus
  · obtain ⟨r, hr, rfl, hstatus⟩ := hrow t _ ht (by decide)
    exact (h r hr).2.2.1 (TaskState.status_eq_done.mp hstatus)
  · obtain ⟨r, hr, rfl, hstatus⟩ := hrow t _ ht (by decide)
    rcases TaskState.status_eq_failed.mp hstatus with he | he
    · exact absurd he (hnever r (Db.mem_runTasks.mp hr).1)
    · exact (h r hr).2.2.2 he

/-- The final state of a task, as the graph and the verdict foretell it. -/
structure Foretold (db : Db) (fails : UUID → Prop) (r : TaskRun) : Prop where
  blocked : r.state = .BLOCKED ↔ db.Doomed fails r.task_id
  dead : r.state = .DEAD_LETTER ↔ ¬ db.Doomed fails r.task_id ∧ fails r.task_id
  succeeded : r.state = .SUCCEEDED ↔ ¬ db.Doomed fails r.task_id ∧ ¬ fails r.task_id

/-- It is foretold for the task, in whatever run. -/
theorem Foretold.state_eq {r r' : TaskRun} (h : Foretold db fails r) (h' : Foretold db fails r')
    (htask : r'.task_id = r.task_id) : r'.state = r.state := by
  obtain ⟨hblocked, hdead, hsucceeded⟩ := h
  obtain ⟨hblocked', hdead', hsucceeded'⟩ := h'
  rw [htask] at hblocked' hdead' hsucceeded'
  by_cases hdoomed : db.Doomed fails r.task_id
  · rw [hblocked.mpr hdoomed, hblocked'.mpr hdoomed]
  · by_cases hfails : fails r.task_id
    · rw [hdead.mpr ⟨hdoomed, hfails⟩, hdead'.mpr ⟨hdoomed, hfails⟩]
    · rw [hsucceeded.mpr ⟨hdoomed, hfails⟩, hsucceeded'.mpr ⟨hdoomed, hfails⟩]

theorem foretold_of_endsBy (hinv : Inv checks db) (hnever : db.NeverFailed)
    (h : db.EndsBy run_id fails) {r : TaskRun} (hr : r ∈ db.runTasks run_id) :
    Foretold db fails r := by
  obtain ⟨hmem, rfl⟩ := Db.mem_runTasks.mp hr
  have hend := congrFun ((hinv.coherent r.run_id).eq_outcome (endsBy_status hinv hnever h))
    r.task_id
  rw [Db.status_of_mem hinv.unique hmem] at hend
  have hpart : ¬ ¬ db.status r.run_id r.task_id ≠ .absent := by
    rw [not_not, Db.status_of_mem hinv.unique hmem]
    exact r.state.status_ne_absent
  rw [Precedence.outcome, if_neg hpart] at hend
  by_cases hdoomed : db.Doomed fails r.task_id
  · rw [if_pos (show ∃ a, Precedence.Below db.parents a r.task_id ∧ fails a from hdoomed)] at hend
    have hstate := TaskState.status_eq_blocked.mp hend
    constructor <;> simp [hstate, hdoomed]
  · rw [if_neg (show ¬ ∃ a, Precedence.Below db.parents a r.task_id ∧ fails a from hdoomed)] at hend
    by_cases hfails : fails r.task_id
    · rw [if_pos hfails] at hend
      have hstate := (TaskState.status_eq_failed.mp hend).resolve_left (hnever r hmem)
      constructor <;> simp [hstate, hdoomed, hfails]
    · rw [if_neg hfails] at hend
      have hstate := TaskState.status_eq_done.mp hend
      constructor <;> simp [hstate, hdoomed, hfails]

/-- The rows of a run are for the tasks of its workflow. -/
theorem exists_sibling_row (hinv : Inv checks db) {run run' : WorkflowRun}
    (hrun : run ∈ db.workflow_runs.rows) (hrun' : run' ∈ db.workflow_runs.rows)
    (hworkflow : run.workflow_id = run'.workflow_id) {r : TaskRun} (hr : r ∈ db.runTasks run.id) :
    ∃ r' ∈ db.runTasks run'.id, r'.task_id = r.task_id := by
  obtain ⟨hmem, hid⟩ := Db.mem_runTasks.mp hr
  obtain ⟨run₀, hrun₀, task, htask, -, hid₀, htask_id, hw, -⟩ := hinv.defined r hmem
  have he : run₀ = run := db.workflow_runs.eq_of_key hrun₀ hrun (hid₀.trans hid)
  rw [he, hworkflow] at hw
  obtain ⟨r', hr', hrun_id, htask'⟩ := (hinv.materialised run' hrun').1 task htask hw
  exact ⟨r', Db.mem_runTasks.mpr ⟨hr', hrun_id⟩, htask'.trans htask_id⟩

/-- The state of a run that is over and was not cancelled. -/
theorem derive_of_ended {l : List TaskState} (hne : l ≠ [])
    (hall : ∀ s ∈ l, s.is_terminal = true ∧ s ≠ .CANCELLED) :
    derive_run_state l = if ∀ s ∈ l, s = .SUCCEEDED then .SUCCEEDED else .FAILED := by
  have hempty : l.isEmpty = false := by simpa using hne
  have hactive : l.any (·.is_active) = false := by
    rw [List.any_eq_false]
    intro s hs
    rw [TaskState.is_active_eq, (hall s hs).1]
    decide
  have hcancelled : l.any (· = .CANCELLED) = false := by
    rw [List.any_eq_false]
    intro s hs
    simpa using (hall s hs).2
  have hstarted : l.all (·.not_yet_started) = false := by
    obtain ⟨s, hs⟩ := List.exists_mem_of_ne_nil l hne
    refine List.all_eq_false.mpr ⟨s, hs, fun hidle => ?_⟩
    have hact := TaskState.active_of_not_yet_started hidle
    rw [TaskState.is_active_eq, (hall s hs).1] at hact
    cases hact
  unfold derive_run_state
  rw [hempty, hstarted, hactive, hcancelled]
  by_cases hsucc : ∀ s ∈ l, s = .SUCCEEDED
  · rw [if_pos hsucc, List.all_eq_true.mpr (fun s hs => decide_eq_true (hsucc s hs))]
    rfl
  · have hnot : l.all (· = .SUCCEEDED) = false := by
      rw [Bool.eq_false_iff, ne_eq, List.all_eq_true]
      exact fun hh => hsucc (fun s hs => of_decide_eq_true (hh s hs))
    rw [if_neg hsucc, hnot]
    rfl

/-- A task of the run is doomed by a task of the run. -/
theorem exists_row_of_doomed (hinv : Inv checks db) {r : TaskRun} (hr : r ∈ db.runTasks run_id)
    (hdoomed : db.Doomed fails r.task_id) : ∃ a ∈ db.runTasks run_id, fails a.task_id := by
  obtain ⟨hmem, rfl⟩ := Db.mem_runTasks.mp hr
  obtain ⟨a, hbelow, hfails⟩ := hdoomed
  have hpresent : db.status r.run_id a ≠ .absent := by
    rw [ne_eq, (hinv.coherent r.run_id).absent_below hbelow, Db.status_of_mem hinv.unique hmem]
    exact r.state.status_ne_absent
  obtain ⟨row, hrow, hrun, rfl, -⟩ := Db.exists_row_of_status hinv.unique rfl hpresent
  exact ⟨row, Db.mem_runTasks.mpr ⟨hrow, hrun⟩, hfails⟩

/-- The run succeeds if no task of it fails. -/
theorem derive_of_endsBy (hinv : Inv checks db) (hnever : db.NeverFailed) {run : WorkflowRun}
    (hrun : run ∈ db.workflow_runs.rows) (h : db.EndsBy run.id fails) :
    (derive_run_state (db.taskStates run.id) = .SUCCEEDED ↔
      ∀ r ∈ db.runTasks run.id, ¬ fails r.task_id) ∧
    (derive_run_state (db.taskStates run.id) = .FAILED ↔
      ∃ r ∈ db.runTasks run.id, fails r.task_id) := by
  have hne : db.taskStates run.id ≠ [] := by
    obtain ⟨r, hr, hid⟩ := (hinv.materialised run hrun).2
    exact List.ne_nil_of_mem (List.mem_map_of_mem (Db.mem_runTasks.mpr ⟨hr, hid⟩))
  have hderive := derive_of_ended hne (fun s hs => by
    obtain ⟨r, hr, rfl⟩ := List.mem_map.mp hs
    exact ⟨(h r hr).1, (h r hr).2.1⟩)
  have hsucceeded : (∀ s ∈ db.taskStates run.id, s = .SUCCEEDED) ↔
      ∀ r ∈ db.runTasks run.id, ¬ fails r.task_id := by
    refine ⟨fun hall r hr => ?_, fun hnone s hs => ?_⟩
    · exact (h r hr).2.2.1 (hall r.state (List.mem_map_of_mem hr))
    · obtain ⟨r, hr, rfl⟩ := List.mem_map.mp hs
      refine (foretold_of_endsBy hinv hnever h hr).succeeded.mpr ⟨fun hdoomed => ?_, hnone r hr⟩
      obtain ⟨a, ha, hfails⟩ := exists_row_of_doomed hinv hr hdoomed
      exact hnone a ha hfails
  rw [hderive, ← hsucceeded]
  by_cases hall : ∀ s ∈ db.taskStates run.id, s = .SUCCEEDED
  · rw [if_pos hall]
    refine ⟨⟨fun _ => hall, fun _ => rfl⟩, ⟨(fun he => by cases he), ?_⟩⟩
    rintro ⟨r, hr, hfails⟩
    exact absurd hfails (hsucceeded.mp hall r hr)
  · rw [if_neg hall]
    refine ⟨⟨(fun he => by cases he), fun he => absurd he hall⟩, ⟨fun _ => ?_, fun _ => rfl⟩⟩
    by_contra hnone
    push Not at hnone
    exact hall (hsucceeded.mpr hnone)

/-- **The outcome of a run does not depend on who executes it, and when.** Two runs of one
workflow are over, neither was cancelled, and the tasks that were tried in them failed for
good as one verdict says. Then each of their tasks ended as the graph and the verdict
foretell it, the same task in the same state in both, and the runs are in the same state:
`SUCCEEDED` if no task of the workflow fails, `FAILED` otherwise. -/
theorem runs_end_alike (h : Reachable checks db) {run run' : WorkflowRun}
    (hrun : run ∈ db.workflow_runs.rows) (hrun' : run' ∈ db.workflow_runs.rows)
    (hworkflow : run.workflow_id = run'.workflow_id) (hends : db.EndsBy run.id fails)
    (hends' : db.EndsBy run'.id fails) :
    (∀ r ∈ db.runTasks run.id, Foretold db fails r ∧
      ∀ r' ∈ db.runTasks run'.id, r'.task_id = r.task_id → r'.state = r.state) ∧
    derive_run_state (db.taskStates run'.id) = derive_run_state (db.taskStates run.id) ∧
    (derive_run_state (db.taskStates run.id) = .SUCCEEDED ↔
      ∀ r ∈ db.runTasks run.id, ¬ fails r.task_id) ∧
    (derive_run_state (db.taskStates run.id) = .FAILED ↔
      ∃ r ∈ db.runTasks run.id, fails r.task_id) := by
  have hinv := h.inv
  have hnever := h.neverFailed
  obtain ⟨hsucceeded, hfailed⟩ := derive_of_endsBy hinv hnever hrun hends
  obtain ⟨hsucceeded', hfailed'⟩ := derive_of_endsBy hinv hnever hrun' hends'
  refine ⟨fun r hr => ?_, ?_, hsucceeded, hfailed⟩
  · have hforetold := foretold_of_endsBy hinv hnever hends hr
    refine ⟨hforetold, fun r' hr' htask => ?_⟩
    exact hforetold.state_eq (foretold_of_endsBy hinv hnever hends' hr') htask
  · -- A task that fails is a task of both runs.
    by_cases hfails : ∃ r ∈ db.runTasks run.id, fails r.task_id
    · obtain ⟨r, hr, hr_fails⟩ := hfails
      obtain ⟨r', hr', htask⟩ := exists_sibling_row hinv hrun hrun' hworkflow hr
      rw [hfailed.mpr ⟨r, hr, hr_fails⟩, hfailed'.mpr ⟨r', hr', htask ▸ hr_fails⟩]
    · push Not at hfails
      rw [hsucceeded.mpr hfails]
      refine hsucceeded'.mpr (fun r' hr' hr_fails => ?_)
      obtain ⟨r, hr, htask⟩ := exists_sibling_row hinv hrun' hrun hworkflow.symm hr'
      exact hfails r hr (htask ▸ hr_fails)

/-- Two runs of a chain. The first task fails twice in each: in run 10 it is retried in
between, in run 20 the worker of its first attempt vanishes. -/
def twiceFailed : List Op :=
  chainStart retryOnce ++ [.submit ⟨20, fun task => 20 + task⟩ (clockAt 0) 1 none,
    claimAt 0 "w1", .failure (clockAt 1) (fun x => x) 12 "w1" "boom", claimAt 2 "w2",
    .reap (clockAt 100), claimAt 200 "w1", claimAt 200 "w3",
    .failure (clockAt 201) (fun x => x) 22 "w1" "boom",
    .failure (clockAt 202) (fun x => x) 12 "w3" "boom"]

theorem runs_end_alike_twice_failed :
    (served true twiceFailed).task_runs.rows.map (fun r => (r.id, r.state)) =
      [(12, .DEAD_LETTER), (13, .BLOCKED), (22, .DEAD_LETTER), (23, .BLOCKED)] ∧
    ∀ r ∈ (served true twiceFailed).runTasks 10, ∀ r' ∈ (served true twiceFailed).runTasks 20,
      r'.task_id = r.task_id → r'.state = r.state := by
  have hruns : (∃ run ∈ (served true twiceFailed).workflow_runs.rows, run.id = 10 ∧
      run.workflow_id = 1) ∧ ∃ run ∈ (served true twiceFailed).workflow_runs.rows,
      run.id = 20 ∧ run.workflow_id = 1 := by decide +kernel
  have hends : ∀ run_id ∈ [10, 20], ∀ r ∈ (served true twiceFailed).runTasks run_id,
      r.state.is_terminal = true ∧ r.state ≠ .CANCELLED ∧ (r.state = .SUCCEEDED → ¬ r.task_id = 2) ∧
        (r.state = .DEAD_LETTER → r.task_id = 2) := by decide +kernel
  obtain ⟨⟨run, hrun, hid, hworkflow⟩, run', hrun', hid', hworkflow'⟩ := hruns
  have hends₁ : (served true twiceFailed).EndsBy run.id (· = 2) := by
    rw [hid]
    exact hends 10 (by decide)
  have hends₂ : (served true twiceFailed).EndsBy run'.id (· = 2) := by
    rw [hid']
    exact hends 20 (by decide)
  have halike := (runs_end_alike (reachable_served true twiceFailed) hrun hrun'
    (hworkflow.trans hworkflow'.symm) hends₁ hends₂).1
  rw [hid, hid'] at halike
  exact ⟨by decide +kernel, fun r hr => (halike r hr).2⟩

end Conductor
