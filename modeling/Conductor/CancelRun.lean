/-
`POST /runs/{run_id}/cancel`.

The handler looks at the recorded state of the run, refuses if it is a finished one, and
otherwise cancels and renders the run once more. A client that gets its reply wants to know
that this was the end of it. A worker may still be executing a task of the run then, and the
workers that come after it are not told either; all of them find that the row is not theirs
any more, in whatever order their statements go on.

The recorded state may be behind the tasks: where the last two completions have raced
(`FinishedRuns`), all tasks are terminal and the run is recorded as `RUNNING`. The handler
does not refuse then. It finds no task to cancel, but it refreshes the run, and so repairs
the record.
-/
import Conductor.Traffic

set_option autoImplicit false

open Relational Txn

namespace Conductor

open RunRepository TaskQueueRepository WorkflowRepository

variable {checks : Bool} {db db' : Db} {run_id : UUID} {lib : Stdlib} {clock : Clock}

/-! ## What a cancellation does -/

/-- A cancellation takes the tasks of its run that are not terminal. -/
theorem cancelled_row (clock : Clock) {r : TaskRun} (hrun : r.run_id = run_id) :
    (if cancellable run_id r = true then cancelled clock.now r else r) =
      if r.state.is_terminal = true then r else cancelled clock.now r := by
  by_cases hterminal : r.state.is_terminal = true
  · rw [if_pos hterminal, if_neg]
    intro hc
    have hmem := (cancellable_iff.mp hc).2
    revert hterminal hmem
    cases r.state <;> decide
  · rw [if_neg hterminal, if_pos (cancellable_iff.mpr ⟨hrun, ?_⟩)]
    revert hterminal
    cases r.state <;> decide

section Cancelling

variable (hs : db.Sturdy checks) (clock : Clock) (run_id : UUID)
include hs

/-- It always goes through, -/
theorem exec_cancel_sturdy : exec (store checks) (RunRepository.cancel clock run_id) db =
    .ok (serve checks db (.cancel clock run_id),
      (db.task_runs.rows.filter (cancellable run_id)).length) := by
  have hexec := exec_cancel_stored hs.lawful hs.stored (fun run hrun => (hs.valid run hrun).1)
    clock run_id
  rw [show serve checks db (.cancel clock run_id) = _ from commit_ok hexec]
  exact hexec

/-- and is a run of the service. -/
theorem leads_cancelled (s : Service) (hcommitted : s.committed = db) :
    ∃ s', Service.Leads checks s s' ∧ s'.committed = serve checks db (.cancel clock run_id) := by
  refine Service.Leads.alone s (.queue (.cancel clock run_id)) (a := ()) ?_
  unfold Deed.body Call.body
  rw [hcommitted, exec_bind, exec_bind, exec_cancel_sturdy hs]
  rfl

theorem task_runs_cancelled : (serve checks db (.cancel clock run_id)).task_runs.rows =
    db.task_runs.rows.map (fun r => if cancellable run_id r then cancelled clock.now r else r) := by
  rw [show serve checks db (.cancel clock run_id) = _ from commit_ok (exec_cancel_stored
    hs.lawful hs.stored (fun run hrun => (hs.valid run hrun).1) clock run_id)]
  rfl

/-- The tasks of the run. -/
theorem runTasks_cancelled : (serve checks db (.cancel clock run_id)).runTasks run_id =
    (db.runTasks run_id).map
      (fun r => if r.state.is_terminal then r else cancelled clock.now r) := by
  rw [Db.runTasks, task_runs_cancelled hs, List.filter_map]
  have hkeeps : (fun r : TaskRun => decide (r.run_id = run_id)) ∘
      (fun r => if cancellable run_id r then cancelled clock.now r else r)
        = fun r => decide (r.run_id = run_id) := by
    funext r
    rw [Function.comp_apply]
    split <;> rfl
  rw [hkeeps]
  exact List.map_congr_left (fun r hr => cancelled_row clock (of_decide_eq_true
    (List.mem_filter.mp hr).2))

theorem terminal_of_cancelled :
    ∀ r ∈ (serve checks db (.cancel clock run_id)).runTasks run_id, r.state.is_terminal = true := by
  intro r' hr'
  rw [runTasks_cancelled hs] at hr'
  obtain ⟨r, -, rfl⟩ := List.mem_map.mp hr'
  split
  · assumption
  · rfl

/-- The run itself is refreshed, whether a task was left or not. -/
theorem run_of_cancelled {run : WorkflowRun} (hrun : run ∈ db.workflow_runs.rows)
    (hid : run.id = run_id) :
    ∃ run' ∈ (serve checks db (.cancel clock run_id)).workflow_runs.rows, run'.id = run_id ∧
      run'.state =
        derive_run_state ((serve checks db (.cancel clock run_id)).taskStates run_id) := by
  have hserve : serve checks db (.cancel clock run_id) = _ := commit_ok (exec_cancel_stored
    hs.lawful hs.stored (fun run hrun => (hs.valid run hrun).1) clock run_id)
  refine ⟨refreshed clock.now _ run, ?_, hid, rfl⟩
  rw [hserve]
  refine List.mem_map.mpr ⟨run, hrun, ?_⟩
  rw [if_pos (decide_eq_true hid)]
  rfl

/-- It is cancelled if a task was. -/
theorem derive_cancelled {r : TaskRun} (hr : r ∈ db.runTasks run_id)
    (hopen : r.state.is_terminal = false) :
    derive_run_state ((serve checks db (.cancel clock run_id)).taskStates run_id) = .CANCELLED := by
  refine derive_eq_cancelled (fun st hst => ?_) ?_
  · obtain ⟨r', hr', rfl⟩ := List.mem_map.mp hst
    exact terminal_of_cancelled hs clock run_id r' hr'
  · refine List.mem_map.mpr ⟨cancelled clock.now r, ?_, rfl⟩
    rw [runTasks_cancelled hs]
    exact List.mem_map.mpr ⟨r, hr, by rw [hopen]; rfl⟩

end Cancelling

/-! ## The three answers -/

theorem exec_get_with_tasks (db : Db) (run_id : UUID) :
    exec (store checks) (get_with_tasks run_id) db = .ok (db, (db.workflow_runs.get run_id).map
      (fun run => ⟨run, (db.runTasks run_id).map (fun r => (r, db.tasks.get r.task_id))⟩)) := by
  unfold get_with_tasks
  rw [exec_read]
  cases db.workflow_runs.get run_id with
  | none => rfl
  | some run => rfl

/-- What the handler comes to, by what its first load finds. -/
theorem exec_cancel_run (lib : Stdlib) (clock : Clock) (run_id : UUID) (hs : db.Sturdy checks) :
    exec (store checks) (Api.cancel_run lib clock run_id) db =
      match db.workflow_runs.get run_id with
      | none => .error (.NotFoundError ("run " ++ lib.str run_id ++ " not found"))
      | some run =>
          if run.state.is_terminal then
            .error (.ProblemDetail 409 "Run already finished"
              ("run is " ++ run.state.value ++ " and cannot be cancelled") "run-not-cancellable")
          else
            let db' := serve checks db (.cancel clock run_id)
            match (db'.workflow_runs.get run_id).map (fun run => (⟨run, (db'.runTasks run_id).map
                (fun r => (r, db'.tasks.get r.task_id))⟩ : LoadedRun)) with
            | none => .error (.AssertionError "")
            | some loaded => (Api.to_response loaded).map (fun reply => (db', reply)) := by
  unfold Api.cancel_run
  rw [exec_bind, exec_get_with_tasks]
  cases db.workflow_runs.get run_id with
  | none => rfl
  | some run =>
      show exec (store checks) (if run.state.is_terminal = true then _ else _) db = _
      dsimp only
      by_cases hterminal : run.state.is_terminal = true
      · rw [if_pos hterminal, if_pos hterminal]
        rfl
      · rw [if_neg hterminal, if_neg hterminal, exec_bind, exec_cancel_sturdy hs]
        show exec (store checks) (get_with_tasks run_id >>= _) _ = _
        rw [exec_bind, exec_get_with_tasks]
        cases (serve checks db (.cancel clock run_id)).workflow_runs.get run_id with
        | none => rfl
        | some run' =>
            show exec (store checks) (Prog.lift (Api.to_response _)) _ = Except.map _ _
            cases Api.to_response _ with
            | error e => rfl
            | ok reply => rfl

/-- **Cancelled for good.** Whatever has gone on before, the handler comes to one of three
things. The run does not exist, and the reply is a 404; it is recorded as finished, as are
all its tasks, and it is a 409; or it is not, and then exactly the tasks that were left are
cancelled, no row of another run is touched, and the reply shows the whole run with all its
tasks terminal and the state that follows from them, which is `CANCELLED` if any was left.
This is a run of the service, and whatever goes on from there, no task of the run changes
any more. -/
theorem cancelled_for_good {s : Service} (h : Running checks s) (lib : Stdlib) (clock : Clock)
    (run_id : UUID) :
    ((∀ run ∈ s.committed.workflow_runs.rows, run.id ≠ run_id) ∧
      exec (store checks) (Api.cancel_run lib clock run_id) s.committed =
        .error (.NotFoundError ("run " ++ lib.str run_id ++ " not found"))) ∨
    (∃ run ∈ s.committed.workflow_runs.rows, run.id = run_id ∧ run.state.is_terminal = true ∧
      (∀ r ∈ s.committed.runTasks run_id, r.state.is_terminal = true) ∧
      exec (store checks) (Api.cancel_run lib clock run_id) s.committed =
        .error (.ProblemDetail 409 "Run already finished"
          ("run is " ++ run.state.value ++ " and cannot be cancelled") "run-not-cancellable")) ∨
    ∃ run ∈ s.committed.workflow_runs.rows, run.id = run_id ∧ run.state.is_terminal = false ∧
      ∃ db' reply,
        exec (store checks) (Api.cancel_run lib clock run_id) s.committed = .ok (db', reply) ∧
        Shown db' run_id reply ∧ (∀ t ∈ reply.tasks, t.state.is_terminal = true) ∧
        reply.state = derive_run_state (db'.taskStates run_id) ∧
        ((∃ r ∈ s.committed.runTasks run_id, r.state.is_terminal = false) →
          reply.state = .CANCELLED) ∧
        db'.runTasks run_id = (s.committed.runTasks run_id).map
          (fun r => if r.state.is_terminal then r else cancelled clock.now r) ∧
        (∀ r ∈ s.committed.task_runs.rows, r.run_id ≠ run_id → r ∈ db'.task_runs.rows) ∧
        (∃ s', Service.Leads checks s s' ∧ s'.committed = db') ∧
        ∀ s', Running checks s' → s'.committed = db' → ∀ s'', Service.Leads checks s' s'' →
          ∀ r ∈ db'.runTasks run_id, r ∈ s''.committed.runTasks run_id := by
  have hs := h.sturdy
  rw [exec_cancel_run lib clock run_id hs]
  cases hget : s.committed.workflow_runs.get run_id with
  | none => exact Or.inl ⟨Table.get_eq_none.mp hget, rfl⟩
  | some run =>
      obtain ⟨hrun, hid⟩ := Table.get_eq_some.mp hget
      dsimp only
      by_cases hterminal : run.state.is_terminal = true
      -- The record of a finished run is true.
      · rw [if_pos hterminal]
        obtain ⟨-, hall, -⟩ := hs.truthful run hrun hterminal
        rw [hid] at hall
        exact Or.inr (Or.inl ⟨run, hrun, hid, hterminal,
          fun r hr => hall r.state (List.mem_map_of_mem hr), rfl⟩)
      · obtain ⟨s₁, hleads, hcommitted⟩ := leads_cancelled hs clock run_id s rfl
        have hs₁ := (h.leads hleads).sturdy
        rw [hcommitted] at hs₁
        obtain ⟨run', hrun', hid', hstate⟩ := run_of_cancelled hs clock run_id hrun hid
        obtain ⟨reply, hreply, hreply_state, hshown⟩ :=
          shown_of_loaded hs₁.toMaterialised hrun' rfl rfl (hs₁.truthful run' hrun')
        have hlast := terminal_of_cancelled hs clock run_id
        rw [hid'] at hreply hshown
        rw [if_neg hterminal, Table.get_eq_some.mpr ⟨hrun', hid'⟩]
        refine Or.inr (Or.inr ⟨run, hrun, hid, Bool.eq_false_of_not_eq_true hterminal, _, reply, ?_,
          hshown, fun t ht => ?_, hreply_state.trans hstate, fun ⟨r, hr, hopen⟩ => ?_,
          runTasks_cancelled hs clock run_id, fun r hr hne => ?_, ⟨s₁, hleads, hcommitted⟩,
          fun s' hs' he s'' hleads' r hr => ?_⟩)
        · simp only [Option.map_some, hreply]
          rfl
        · obtain ⟨r, hr, task, -, -, -, ht⟩ := hshown.rows t ht
          cases ht
          exact hlast r hr
        · rw [hreply_state, hstate]
          exact derive_cancelled hs clock run_id hr hopen
        · rw [task_runs_cancelled hs]
          refine List.mem_map.mpr ⟨r, hr, ?_⟩
          rw [if_neg (fun hc => hne (cancellable_iff.mp hc).1)]
        · obtain ⟨hmem, hrun_id⟩ := Db.mem_runTasks.mp hr
          have hkeeps := hs'.keeps hleads'
          rw [he] at hkeeps
          exact Db.mem_runTasks.mpr ⟨hkeeps.final hmem (hs₁.lawful r hmem) (hlast r hr), hrun_id⟩

/-! ## A run whose end was missed -/

/-- Workflow 1 with the independent tasks 2 and 3, its run 10, and its rows 12 and 13
claimed by `w1` and `w2`. -/
def pairAtWork : Service :=
  Service.after true .unused
    (Deed.wholly (.publish ⟨⟨1, fun key => if key = "a" then 2 else 3⟩, 0, "pair",
        [sampleTask "a" [] noRetry, sampleTask "b" [] noRetry], none⟩) 4 0 ++
      Deed.wholly (.submit ⟨10, fun task => 10 + task⟩ (clockAt 0) 1 none) 4 1 ++
      Deed.wholly (.queue (.claim 30 (clockAt 0) (fun _ => 0) "w1" 1)) 4 2 ++
      Deed.wholly (.queue (.claim 30 (clockAt 0) (fun _ => 0) "w2" 1)) 4 3)

/-- The two successes, each up to its last statement before either commits. -/
def racedPair : Service :=
  Service.after true pairAtWork
    ([.begin (.queue (.complete 0 ⟨12, 10, "w1", .success none, clockAt 1, fun x => x⟩)),
      .begin (.queue (.complete 0 ⟨13, 10, "w2", .success none, clockAt 1, fun x => x⟩))] ++
      (List.replicate 6 (writeAt 4)).flatten ++ (List.replicate 6 (writeAt 5)).flatten ++
      writeAt 4 ++ [.commit 4] ++ writeAt 5 ++ [.commit 5])

/-- All tasks have succeeded, the run is recorded as `RUNNING`, and a cancellation shows it
as `SUCCEEDED`. -/
theorem cancelled_for_good_raced :
    racedPair.committed.taskStates 10 = [.SUCCEEDED, .SUCCEEDED] ∧
    racedPair.committed.workflow_runs.rows.map WorkflowRun.state = [.RUNNING] ∧
    ∃ db' reply, exec (store true) (Api.cancel_run sampleLib (clockAt 2) 10) racedPair.committed
        = .ok (db', reply) ∧
      reply.state = .SUCCEEDED ∧ Shown db' 10 reply ∧
      ∀ s', Running true s' → s'.committed = db' → ∀ s'', Service.Leads true s' s'' →
        ∀ r ∈ db'.runTasks 10, r ∈ s''.committed.runTasks 10 := by
  have hraced : Running true racedPair := by
    have hatWork : Running true pairAtWork := running_unused.leads (Service.leads_after _ _)
    exact hatWork.leads (Service.leads_after _ _)
  have hstates : racedPair.committed.taskStates 10 = [.SUCCEEDED, .SUCCEEDED] := by decide +kernel
  have hruns : racedPair.committed.workflow_runs.rows.map WorkflowRun.state = [.RUNNING] := by
    decide +kernel
  have hthere : ∃ run ∈ racedPair.committed.workflow_runs.rows, run.id = 10 := by decide +kernel
  have hreply : (exec (store true) (Api.cancel_run sampleLib (clockAt 2) 10)
      racedPair.committed).toOption.map (fun out => out.2.state) = some .SUCCEEDED := by
    decide +kernel
  refine ⟨hstates, hruns, ?_⟩
  rcases cancelled_for_good hraced sampleLib (clockAt 2) 10 with
    ⟨hnone, -⟩ | ⟨run, hrun, -, hterminal, -⟩ | ⟨-, -, -, -, db', reply, hexec, hshown, -, -, -, -,
      -, -, hlast⟩
  · obtain ⟨run, hrun, hid⟩ := hthere
    exact absurd hid (hnone run hrun)
  · have hmem : run.state ∈ racedPair.committed.workflow_runs.rows.map WorkflowRun.state :=
      List.mem_map_of_mem hrun
    rw [hruns, List.mem_singleton] at hmem
    rw [hmem] at hterminal
    cases hterminal
  · rw [hexec] at hreply
    exact ⟨db', reply, hexec, Option.some.inj hreply, hshown, hlast⟩

end Conductor
