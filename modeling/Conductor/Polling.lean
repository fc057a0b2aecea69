/-
A client that polls a run.

It asks for the run again and again and shows what it gets. What it may rely on is that an
answer only adds to the one before: the same tasks in the same places, no attempt taken
back, a start or an end that stays what it was, and a task that was finished once for good.

The recorded state of the run is not among it. A refresh that lost a race may set it back
(`FinishedRuns`); whoever wants to know whether a run is over looks at its tasks.
-/
import Conductor.CancelRun

set_option autoImplicit false

open Relational Txn

namespace Conductor

open RunRepository TaskQueueRepository WorkflowRepository

variable {checks : Bool} {db db' db'' own : Db} {trace : List (Event Db)} {run_id : UUID}

/-! ## Rows -/

/-- A later version of a task row. -/
structure TaskRun.Advances (r r' : TaskRun) : Prop where
  id : r'.id = r.id
  task_id : r'.task_id = r.task_id
  max_attempts : r'.max_attempts = r.max_attempts
  attempt : r.attempt ≤ r'.attempt
  started_at : ∀ t, r.started_at = some t → r'.started_at = some t
  terminal : r.state.is_terminal = true → r' = r

namespace TaskRun.Advances

variable {r r' r'' : TaskRun}

theorem refl (r : TaskRun) : r.Advances r :=
  ⟨rfl, rfl, rfl, le_refl _, fun _ h => h, fun _ => rfl⟩

theorem trans (h : r.Advances r') (h' : r'.Advances r'') : r.Advances r'' where
  id := h'.id.trans h.id
  task_id := h'.task_id.trans h.task_id
  max_attempts := h'.max_attempts.trans h.max_attempts
  attempt := h.attempt.trans h'.attempt
  started_at t ht := h'.started_at t (h.started_at t ht)
  terminal ht := by
    obtain rfl := h.terminal ht
    exact h'.terminal ht

/-- Only a claim counts an attempt or sets the start, and the start only once. -/
theorem of_step (h : RowStep r r') :
    r.attempt ≤ r'.attempt ∧ ∀ t, r.started_at = some t → r'.started_at = some t := by
  cases h with
  | claim worker_id lease_until now =>
      refine ⟨Int.le_add_one (le_refl _), fun t ht => ?_⟩
      show r.started_at.or (some now) = some t
      rw [ht]
      rfl
  | _ => exact ⟨le_refl _, fun _ ht => ht⟩

theorem of_steps (h : RowSteps r r') (hlawful : r.Lawful) : r.Advances r' := by
  have hcounts : r.attempt ≤ r'.attempt ∧ r'.max_attempts = r.max_attempts ∧
      ∀ t, r.started_at = some t → r'.started_at = some t := by
    induction h with
    | refl => exact ⟨le_refl _, rfl, fun _ ht => ht⟩
    | tail _ hstep ih =>
        obtain ⟨hattempt, hstarted⟩ := of_step hstep
        exact ⟨ih.1.trans hattempt, hstep.keeps.2.2.2.1.trans ih.2.1,
          fun t ht => hstarted t (ih.2.2 t ht)⟩
  obtain ⟨hid, -, htask⟩ := RowStep.keeps_of_steps h
  exact ⟨hid, htask, hcounts.2.1, hcounts.1, hcounts.2.2,
    fun hterminal => RowStep.eq_of_terminal h hlawful hterminal⟩

end TaskRun.Advances

/-- The tasks of a run have advanced, and nothing else has become of them. -/
def Db.Advances (db db' : Db) (run_id : UUID) : Prop :=
  ∃ g : TaskRun → TaskRun, db'.runTasks run_id = (db.runTasks run_id).map g ∧
    ∀ r ∈ db.runTasks run_id, r.Advances (g r)

namespace Db.Advances

theorem refl (db : Db) (run_id : UUID) : db.Advances db run_id :=
  ⟨id, (List.map_id _).symm, fun r _ => .refl r⟩

theorem trans (h : db.Advances db' run_id) (h' : db'.Advances db'' run_id) :
    db.Advances db'' run_id := by
  obtain ⟨g, hrows, hg⟩ := h
  obtain ⟨g', hrows', hg'⟩ := h'
  refine ⟨g' ∘ g, by rw [hrows', hrows, List.map_map], fun r hr => (hg r hr).trans (hg' _ ?_)⟩
  rw [hrows]
  exact List.mem_map_of_mem hr

/-- A commit rewrites the rows of a run in their places. What it adds is of other runs. -/
theorem of_commit (hs : db.Sturdy checks) (h : Ahead checks db own trace) {run : WorkflowRun}
    (hrun : run ∈ db.workflow_runs.rows) : db.Advances (own.overlay db) run.id := by
  have hsteps : ∀ r ∈ db.task_runs.rows, RowSteps r ((own.task_runs.get r.id).getD r) := by
    intro r hr
    cases hget : own.task_runs.get r.id with
    | none => exact .refl
    | some r' =>
        obtain ⟨hr', hid⟩ := Table.get_eq_some.mp hget
        rcases h.worked.rows r' hr' with ⟨r₀, hr₀, hsteps⟩ | henters
        · have he : r₀ = r := db.task_runs.eq_of_key hr₀ hr
            ((RowStep.keeps_of_steps hsteps).1.symm.trans hid)
          exact he ▸ hsteps
        · exact absurd hid.symm (Table.get_eq_none.mp henters.new r hr)
  have hadded : (own.task_runs.rows.filter (fun r => (db.task_runs.get r.id).isNone)).filter
      (fun r => r.run_id = run.id) = [] := by
    refine List.filter_eq_nil_iff.mpr (fun r hr he => ?_)
    obtain ⟨hmem, hnone⟩ := List.mem_filter.mp hr
    rcases h.worked.rows r hmem with ⟨r₀, hr₀, hsteps⟩ | henters
    · exact Table.get_eq_none.mp (Option.isNone_iff_eq_none.mp hnone) r₀ hr₀
        (RowStep.keeps_of_steps hsteps).1.symm
    · obtain ⟨run', -, hid, hnew⟩ := henters.run
      exact Table.get_eq_none.mp hnew run hrun ((of_decide_eq_true he).symm.trans hid.symm)
  have hkeeps : ∀ r ∈ db.task_runs.rows, ((fun r : TaskRun => decide (r.run_id = run.id)) ∘
      fun r => (own.task_runs.get r.id).getD r) r = decide (r.run_id = run.id) := by
    intro r hr
    rw [Function.comp_apply, (RowStep.keeps_of_steps (hsteps r hr)).2.1]
  refine ⟨fun r => (own.task_runs.get r.id).getD r, ?_, fun r hr => ?_⟩
  · show (own.task_runs.overlay db.task_runs).rows.filter _ = _
    rw [Table.overlay, List.filter_append, hadded, List.append_nil, List.filter_map,
      List.filter_congr hkeeps]
    rfl
  · obtain ⟨hmem, -⟩ := Db.mem_runTasks.mp hr
    exact .of_steps (hsteps r hmem) (hs.lawful r hmem)

end Db.Advances

/-- What becomes of the runs and their tasks between two moments. -/
theorem Running.advances {s s' : Service} (h : Running checks s)
    (hleads : Service.Leads checks s s') :
    Keeps s.committed s'.committed ∧
      ∀ run ∈ s.committed.workflow_runs.rows, s.committed.Advances s'.committed run.id := by
  refine h.between hleads (R := fun db db' => Keeps db db' ∧
    ∀ run ∈ db.workflow_runs.rows, db.Advances db' run.id) (fun db => ⟨.refl db, fun run _ =>
      .refl db run.id⟩) ?_ (fun db own trace hs hahead _ => ⟨hahead.keeps hs.rooted,
        fun run hrun => .of_commit hs hahead hrun⟩)
  rintro db₁ db₂ db₃ ⟨hkeeps, hadvances⟩ ⟨hkeeps', hadvances'⟩
  refine ⟨hkeeps.trans hkeeps', fun run hrun => (hadvances run hrun).trans ?_⟩
  obtain ⟨run', hrun', hsteps⟩ := hkeeps.runs run hrun
  rw [← (RunStep.keeps_of_steps hsteps).1]
  exact hadvances' run' hrun'

/-! ## Replies -/

/-- What may become of a task from one answer to the next. -/
structure TaskRunResponse.Advances (t t' : TaskRunResponse) : Prop where
  id : t'.id = t.id
  key : t'.key = t.key
  max_attempts : t'.max_attempts = t.max_attempts
  attempt : t.attempt ≤ t'.attempt
  started_at : ∀ start, t.started_at = some start → t'.started_at = some start
  terminal : t.state.is_terminal = true → t' = t

/-- What may become of a run. -/
structure RunResponse.Advances (reply reply' : RunResponse) : Prop where
  id : reply'.id = reply.id
  workflow_id : reply'.workflow_id = reply.workflow_id
  created_at : reply'.created_at = reply.created_at
  started_at : ∀ t, reply.started_at = some t → reply'.started_at = some t
  finished_at : ∀ t, reply.finished_at = some t → reply'.finished_at = some t
  tasks : List.Forall₂ TaskRunResponse.Advances reply.tasks reply'.tasks

/-- A run whose tasks were all finished. -/
theorem RunResponse.Advances.tasks_eq {reply reply' : RunResponse} (h : reply.Advances reply')
    (hterminal : ∀ t ∈ reply.tasks, t.state.is_terminal = true) : reply'.tasks = reply.tasks := by
  have htasks := h.tasks
  generalize reply.tasks = tasks at htasks hterminal
  generalize reply'.tasks = tasks' at htasks
  induction htasks with
  | nil => rfl
  | cons hadvances _ ih =>
      rw [hadvances.terminal (hterminal _ List.mem_cons_self),
        ih (fun t ht => hterminal t (List.mem_cons_of_mem _ ht))]

/-- A refresh sets the start and the end of a run once. -/
theorem RunStep.times_of_steps {run run' : WorkflowRun} (h : RunSteps run run') :
    (∀ t, run.started_at = some t → run'.started_at = some t) ∧
      ∀ t, run.finished_at = some t → run'.finished_at = some t := by
  induction h with
  | refl => exact ⟨fun _ ht => ht, fun _ ht => ht⟩
  | tail _ hstep ih =>
      obtain ⟨now, derived, rfl⟩ := hstep
      refine ⟨fun t ht => ?_, fun t ht => ?_⟩
      · show (if derived ≠ .PENDING then _ else _) = some t
        rw [ih.1 t ht]
        split <;> rfl
      · show (if derived.is_terminal then _ else _) = some t
        rw [ih.2 t ht]
        split <;> rfl

theorem toTaskResponse_advances {r r' : TaskRun} (h : r.Advances r') (task : Task) :
    ∃ t t', Api.toTaskResponse (r, some task) = .ok t ∧
      Api.toTaskResponse (r', some task) = .ok t' ∧ t.Advances t' := by
  refine ⟨_, _, rfl, rfl, h.id, rfl, h.max_attempts, h.attempt, h.started_at, fun hterminal => ?_⟩
  obtain rfl := h.terminal hterminal
  rfl

/-- The rows of the second answer in the order of the first. -/
theorem to_response_advances {run run' : WorkflowRun} (hrun : RunSteps run run')
    {rows : List TaskRun} {g : TaskRun → TaskRun} (hg : ∀ r ∈ rows, r.Advances (g r))
    {tasks tasks' : UUID → Option Task}
    (htasks : ∀ id task, tasks id = some task → tasks' id = some task) {reply : RunResponse}
    (h : Api.to_response ⟨run, rows.map (fun r => (r, tasks r.task_id))⟩ = .ok reply) :
    ∃ reply', Api.to_response ⟨run', (rows.map g).map (fun r => (r, tasks' r.task_id))⟩
      = .ok reply' ∧ reply.Advances reply' := by
  obtain ⟨responses, hresponses⟩ : ∃ responses, (rows.map (fun r => (r, tasks r.task_id))).mapM
      Api.toTaskResponse = .ok responses := by
    cases hmapM : (rows.map (fun r => (r, tasks r.task_id))).mapM Api.toTaskResponse with
    | error e =>
        rw [Api.to_response, hmapM] at h
        cases h
    | ok responses => exact ⟨responses, rfl⟩
  have hforall := List.forall₂_map_left_iff.mp (mapM_ok_iff.mp hresponses)
  -- Each row with its two responses.
  obtain ⟨pairs, hpairs⟩ := exists_forall₂ (l := rows)
    (R := fun r (p : TaskRunResponse × TaskRunResponse) =>
      Api.toTaskResponse (r, tasks r.task_id) = .ok p.1 ∧
        Api.toTaskResponse (g r, tasks' (g r).task_id) = .ok p.2 ∧ p.1.Advances p.2) (by
    intro r hr
    obtain ⟨t, -, ht⟩ := exists_right_of_forall₂ hforall hr
    cases htask : tasks r.task_id with
    | none =>
        rw [htask] at ht
        cases ht
    | some task =>
        obtain ⟨t, t', ht, ht', hadvances⟩ := toTaskResponse_advances (hg r hr) task
        refine ⟨(t, t'), ht, ?_, hadvances⟩
        rw [(hg r hr).task_id, htasks _ _ htask]
        exact ht')
  have hfirst : responses = pairs.map Prod.fst := by
    have hok : (rows.map (fun r => (r, tasks r.task_id))).mapM Api.toTaskResponse =
        .ok (pairs.map Prod.fst) := mapM_ok_iff.mpr (List.forall₂_map_left_iff.mpr
      (List.forall₂_map_right_iff.mpr (hpairs.imp (fun _ _ hp => hp.1))))
    exact Except.ok.inj (hresponses.symm.trans hok)
  have hsecond : ((rows.map g).map (fun r => (r, tasks' r.task_id))).mapM Api.toTaskResponse =
      .ok (pairs.map Prod.snd) := by
    rw [List.map_map]
    exact mapM_ok_iff.mpr (List.forall₂_map_left_iff.mpr
      (List.forall₂_map_right_iff.mpr (hpairs.imp (fun _ _ hp => hp.2.1))))
  have hadvances : ∀ p ∈ pairs, p.1.Advances p.2 := by
    intro p hp
    obtain ⟨_, -, -, -, hp⟩ := exists_left_of_forall₂ hpairs hp
    exact hp
  -- Both are sorted by keys that are the same.
  have hsorted : ∀ f : TaskRunResponse × TaskRunResponse → TaskRunResponse,
      (∀ p ∈ pairs, (f p).key = p.1.key) → (pairs.map f).insertionSort (fun a b => a.key ≤ b.key)
        = (pairs.insertionSort (fun p q => p.1.key ≤ q.1.key)).map f := by
    intro f hf
    refine (List.map_insertionSort (fun p q : TaskRunResponse × TaskRunResponse =>
      p.1.key ≤ q.1.key) (fun a b : TaskRunResponse => a.key ≤ b.key) f pairs
        (fun p hp q hq => ?_)).symm
    rw [hf p hp, hf q hq]
  obtain ⟨hid, hworkflow, hcreated⟩ := RunStep.keeps_of_steps hrun
  obtain ⟨hstarted, hfinished⟩ := RunStep.times_of_steps hrun
  rw [Api.to_response, hresponses] at h
  cases h
  refine ⟨_, by rw [Api.to_response, hsecond]; rfl, hid, hworkflow, hcreated, hstarted,
    hfinished, ?_⟩
  dsimp only
  rw [hfirst, hsorted Prod.fst (fun _ _ => rfl),
    hsorted Prod.snd (fun p hp => (hadvances p hp).key)]
  refine List.forall₂_map_left_iff.mpr (List.forall₂_map_right_iff.mpr
    (List.forall₂_same.mpr (fun p hp => ?_)))
  exact hadvances p ((List.mem_insertionSort _).mp hp)

/-! ## Two answers -/

/-- **Polling only advances.** Between two statements of one answer, and between the two
answers, the service may do anything. If the client was shown the run, it is shown it again:
it is the same run with the same tasks in the same order, no count of attempts has gone back,
starts and ends stay, and a task that was shown finished is shown as it was. -/
theorem polling_only_advances {s : Service} (h : Running checks s) (lib : Stdlib) (run_id : UUID) :
    Watching (Service.Leads checks) Sys.committed (Api.get_run lib run_id) s (fun s₁ first =>
      ∀ reply, first = .ok reply →
        Watching (Service.Leads checks) Sys.committed (Api.get_run lib run_id) s₁ (fun _ second =>
          ∃ reply', second = .ok reply' ∧ reply.Advances reply' ∧
            ((∀ t ∈ reply.tasks, t.state.is_terminal = true) → reply'.tasks = reply.tasks))) := by
  refine Watching.bind (watching_get_with_tasks (fun s₁ _ _ reply he => by cases he) ?_)
  intro s₁ s₂ run hs₁ hs₂ hget
  have hrunning₁ : Running checks s₁ := h.leads hs₁
  have hrunning₂ : Running checks s₂ := hrunning₁.leads hs₂
  refine Watching.lift _ (fun reply hreply => ?_)
  obtain ⟨hrun, rfl⟩ := Table.get_eq_some.mp hget
  refine Watching.bind (watching_get_with_tasks (fun s₃ hs₃ hnone => ?_) ?_)
  · -- The run is still there.
    obtain ⟨run', hrun', hsteps⟩ := (hrunning₁.keeps (hs₂.trans hs₃)).runs run hrun
    exact absurd (RunStep.keeps_of_steps hsteps).1 (Table.get_eq_none.mp hnone run' hrun')
  · intro s₃ s₄ run₃ hs₃ hs₄ hget₃
    obtain ⟨hrun₃, hid₃⟩ := Table.get_eq_some.mp hget₃
    obtain ⟨run', hrun', hsteps⟩ := (hrunning₁.keeps (hs₂.trans hs₃)).runs run hrun
    obtain rfl : run' = run₃ :=
      Table.eq_of_key _ hrun' hrun₃ ((RunStep.keeps_of_steps hsteps).1.trans hid₃.symm)
    obtain ⟨run₂, hrun₂, hsteps₂⟩ := (hrunning₁.keeps hs₂).runs run hrun
    obtain ⟨hkeeps, hall⟩ := hrunning₂.advances (hs₃.trans hs₄)
    have hadvances : s₂.committed.Advances s₄.committed run.id := by
      rw [← (RunStep.keeps_of_steps hsteps₂).1]
      exact hall run₂ hrun₂
    obtain ⟨g, hrows, hg⟩ := hadvances
    have htasks : ∀ id task, s₂.committed.tasks.get id = some task →
        s₄.committed.tasks.get id = some task := by
      intro id task htask
      obtain ⟨hmem, hkey⟩ := Table.get_eq_some.mp htask
      exact Table.get_eq_some.mpr ⟨hkeeps.tasks task hmem, hkey⟩
    obtain ⟨reply', hreply', hadvances⟩ := to_response_advances hsteps hg htasks hreply
    dsimp only
    rw [hrows]
    refine Watching.lift _ ⟨reply', hreply', hadvances, fun hterminal => ?_⟩
    exact hadvances.tasks_eq hterminal

/-- A run whose two tasks are being executed, polled again when both have succeeded. -/
theorem polling_only_advances_raced :
    (exec (store true) (Api.get_run sampleLib 10) pairAtWork.committed).toOption.map
      (fun out => out.2.tasks.map (fun t => (t.key, t.state)))
        = some [("a", .RUNNING), ("b", .RUNNING)] ∧
    (exec (store true) (Api.get_run sampleLib 10) racedPair.committed).toOption.map
      (fun out => out.2.tasks.map (fun t => (t.key, t.state)))
        = some [("a", .SUCCEEDED), ("b", .SUCCEEDED)] ∧
    Service.Leads true pairAtWork racedPair ∧
    Watching (Service.Leads true) Sys.committed (Api.get_run sampleLib 10) pairAtWork
      (fun s₁ first => ∀ reply, first = .ok reply →
        Watching (Service.Leads true) Sys.committed (Api.get_run sampleLib 10) s₁
          (fun _ second => ∃ reply', second = .ok reply' ∧ reply.Advances reply')) := by
  refine ⟨by decide +kernel, by decide +kernel, Service.leads_after pairAtWork _, ?_⟩
  have hrunning : Running true pairAtWork := running_unused.leads (Service.leads_after _ _)
  refine (polling_only_advances hrunning sampleLib 10).mono (fun s₁ first hfirst reply he => ?_)
  refine (hfirst reply he).mono ?_
  rintro s₂ second ⟨reply', hreply', hadvances, -⟩
  exact ⟨reply', hreply', hadvances⟩

end Conductor
