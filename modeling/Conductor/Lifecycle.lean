/-
The two lifecycle tables against what the operations do.

`TASK_TRANSITIONS` is never consulted by the SQL, so that every change of a task's
state is an edge of it is a theorem about row filters. The filters of
`record_failure` and `_block_descendants` are wider than the table; they are safe
because only a running row names a worker, and because below a running row
nothing is `READY`.

`RUN_TRANSITIONS` is not respected. A retry and a reap write `READY` where the
table has `RETRYING`, and `READY` counts as "not yet started": a run whose started
tasks are all sent back at once falls from `RUNNING` to `PENDING`.
-/
import Conductor.Service

set_option autoImplicit false

open Relational Txn

namespace Conductor

open RunRepository TaskQueueRepository WorkflowRepository

variable {checks : Bool} {db db' : Db} {op : Op} {g : TaskRun → TaskRun}

/-! ## Tasks -/

/-- The operations that send a running task back to the queue. -/
def Op.requeues : Op → Bool
  | .failure .. | .reap .. => true
  | _ => false

/-- A change of state along the table. A retry or a reap writes the two edges
`RUNNING → RETRYING → READY` at once. -/
def LegalChange (op : Op) (s s' : TaskState) : Prop :=
  can_transition s s' = true ∨
    (op.requeues = true ∧ s = .RUNNING ∧ s' = .READY ∧
      can_transition s .RETRYING = true ∧ can_transition .RETRYING s' = true)

/-- The operation sends this row back to the queue: a reap that finds its lease
expired, or a failure report of its worker with attempts left. -/
def Requeued (op : Op) (r : TaskRun) : Prop :=
  match op with
  | .reap clock => leaseExpired clock.utcnow r = true
  | .failure _ _ task_run_id worker_id _ =>
      ownedBy task_run_id worker_id r = true ∧ r.attempt < r.max_attempts
  | _ => False

instance (op : Op) (r : TaskRun) : Decidable (Requeued op r) :=
  match op with
  | .reap clock => inferInstanceAs (Decidable (leaseExpired clock.utcnow r = true))
  | .failure _ _ task_run_id worker_id _ =>
      inferInstanceAs (Decidable
        (ownedBy task_run_id worker_id r = true ∧ r.attempt < r.max_attempts))
  | .publish .. | .submit .. | .claim .. | .renew .. | .success .. | .cancel .. | .refresh .. =>
      inferInstanceAs (Decidable False)

/-- Only a running row is sent back. -/
theorem Requeued.running (hinv : Inv checks db) {r : TaskRun} (hr : r ∈ db.task_runs.rows)
    (h : Requeued op r) : r.state = .RUNNING := by
  unfold Requeued at h
  split at h
  · exact leaseExpired_state h
  · exact (hinv.good.lawful r hr).running_of_worker (by rw [(ownedBy_iff.mp h.1).2]; rfl)
  · exact h.elim

theorem unblocked_state (r : TaskRun) (h : r.state = .PENDING) :
    (unblocked r).state = .PENDING ∨ (unblocked r).state = .READY := by
  unfold unblocked
  dsimp only
  split <;> split <;> simp [released, decremented, h]

/-- A row below a running one is not `READY`. -/
theorem Inv.not_ready_below (hinv : Inv checks db) {row r : TaskRun}
    (hrow : row ∈ db.task_runs.rows) (hrunning : row.state = .RUNNING)
    (hr : r ∈ db.task_runs.rows) (hrun : r.run_id = row.run_id)
    (hbelow : Precedence.Below db.parents row.task_id r.task_id) : r.state ≠ .READY := by
  intro hs
  have hlive : (db.status row.run_id row.task_id).live = true := by
    rw [Db.status_of_mem hinv.unique hrow, hrunning]
    rfl
  have hstatus := Db.status_of_mem hinv.unique hr
  rw [hs, hrun] at hstatus
  rcases (hinv.coherent row.run_id).waiting_or_blocked_below hbelow hlive with h | h <;>
    rw [hstatus] at h <;> cases h

/-- **What an operation may do to the state of a row:** nothing, an edge of the
table, or sending it back. -/
theorem Outcome.state_cases (hinv : Inv checks db) (hout : Outcome checks db op g) {r : TaskRun}
    (hr : r ∈ db.task_runs.rows) :
    (g r).state = r.state ∨ can_transition r.state (g r).state = true ∨
      (Requeued op r ∧ (g r).state = .READY) := by
  have hworker : ∀ r ∈ db.task_runs.rows, ∀ w, r.worker_id = some w → r.state = .RUNNING :=
    fun r hr w hw => (hinv.good.lawful r hr).running_of_worker (by rw [hw]; rfl)
  cases hout with
  | refused => exact Or.inl rfl
  | lateSuccess => exact Or.inl rfl
  | lateFailure => exact Or.inl rfl
  | refreshed => exact Or.inl rfl
  | claimed =>
      dsimp only
      split
      · rename_i hp
        rw [picked_state hr hp]
        exact Or.inr (Or.inl rfl)
      · exact Or.inl rfl
  | renewed =>
      dsimp only
      split <;> exact Or.inl rfl
  -- The row itself succeeds, a waiting child is released or stays.
  | succeeded clock task_run_id worker_id output hrow hheld =>
      obtain ⟨hmem, -⟩ := Table.get_eq_some.mp hrow
      unfold afterSuccess
      split
      · rename_i hid
        rw [db.task_runs.eq_of_key hr hmem hid, (heldBy_iff.mp hheld).2.2]
        exact Or.inr (Or.inl rfl)
      · unfold afterUnblock
        split
        · rename_i hw
          have hpending := waitingChild_state hw
          rcases unblocked_state r hpending with h | h <;> rw [h, hpending]
          · exact Or.inl rfl
          · exact Or.inr (Or.inl rfl)
        · exact Or.inl rfl
  -- Back to `READY` for another attempt: no edge of the table.
  | retried clock uniform task_run_id worker_id error delay hrow hw hlt =>
      obtain ⟨hmem, hkey⟩ := Table.get_eq_some.mp hrow
      dsimp only
      split
      · rename_i howned
        refine Or.inr (Or.inr ⟨⟨howned, ?_⟩, rfl⟩)
        rw [db.task_runs.eq_of_key hr hmem ((ownedBy_iff.mp howned).1.trans hkey.symm)]
        exact hlt
      · exact Or.inl rfl
  | failed clock uniform task_run_id worker_id error tasks hrow hw hge hsound =>
      obtain ⟨hmem, -⟩ := Table.get_eq_some.mp hrow
      have hrunning := hworker _ hmem _ hw
      unfold afterFailure
      split
      · rename_i hid
        rw [db.task_runs.eq_of_key hr hmem hid, hrunning]
        exact Or.inr (Or.inl rfl)
      · split
        · rename_i hb
          obtain ⟨hrun, hin, hs⟩ := blockable_iff.mp hb
          -- Below a running row nothing is ready, so what is blocked was pending.
          have hnot := hinv.not_ready_below hmem hrunning hr hrun (hsound _ hin)
          rw [hs.resolve_right hnot]
          exact Or.inr (Or.inl rfl)
        · exact Or.inl rfl
  | reaped =>
      dsimp only
      split
      · exact Or.inr (Or.inr ⟨‹_›, rfl⟩)
      · exact Or.inl rfl
  | cancelled =>
      dsimp only
      split
      · rename_i hp
        have hs := (cancellable_iff.mp hp).2
        simp only [List.mem_cons, List.not_mem_nil, or_false] at hs
        rcases hs with hs | hs | hs | hs <;> rw [hs] <;> exact Or.inr (Or.inl rfl)
      · exact Or.inl rfl

theorem Outcome.legal (hinv : Inv checks db) (hout : Outcome checks db op g) {r : TaskRun}
    (hr : r ∈ db.task_runs.rows) :
    (g r).state = r.state ∨ LegalChange op r.state (g r).state := by
  rcases hout.state_cases hinv hr with h | h | ⟨hback, hready⟩
  · exact Or.inl h
  · exact Or.inr (Or.inl h)
  · have hop : op.requeues = true := by cases op <;> first | rfl | exact hback.elim
    rw [hback.running hinv hr, hready]
    exact Or.inr (Or.inr ⟨hop, rfl, rfl, rfl, rfl⟩)

/-- A terminal row is not touched. -/
theorem Rewritten.eq_of_terminal (hinv : Inv checks db) (h : Rewritten checks db db' g)
    {r : TaskRun} (hr : r ∈ db.task_runs.rows) (hterminal : r.state.is_terminal = true) :
    g r = r :=
  RowStep.eq_of_terminal (h.change r hr).steps (hinv.good.lawful r hr) hterminal

/-- A queue operation rewrites rows: after it a row is what it made of the row
with the same id. -/
theorem Rewritten.eq_of_id (h : Rewritten checks db db' g) {r r' : TaskRun}
    (hr : r ∈ db.task_runs.rows) (hr' : r' ∈ db'.task_runs.rows) (hid : r'.id = r.id) :
    r' = g r := by
  obtain ⟨s, hs, rfl⟩ := h.mem_rows.mp hr'
  rw [(h.change s hs).keeps.1] at hid
  rw [db.task_runs.eq_of_key hs hr hid]

/-- **Task lifecycle conformance.** From every reachable database every queue
operation keeps the rows it finds, and changes the state of a row only along an
edge of the table; a terminal row stays as it is, and a `READY` row is never
blocked. -/
theorem task_lifecycle_conforms (h : Reachable checks db) (hop : op.isQueue = true) :
    (serve checks db op).task_runs.rows.map TaskRun.id = db.task_runs.rows.map TaskRun.id ∧
    ∀ r ∈ db.task_runs.rows, ∀ r' ∈ (serve checks db op).task_runs.rows, r'.id = r.id →
      (r'.state = r.state ∨ LegalChange op r.state r'.state) ∧
      (r.state.is_terminal = true → r' = r) ∧
      (r.state = .READY → r'.state ≠ .BLOCKED) := by
  have hinv := h.inv
  obtain ⟨g, hout, hstep⟩ := serve_outcome hinv hop
  constructor
  · rw [hstep.rewritten.rows, List.map_map]
    exact List.map_congr_left (fun r hr => (hstep.rewritten.change r hr).keeps.1)
  · intro r hr r' hr' hid
    rw [hstep.rewritten.eq_of_id hr hr' hid]
    have hlegal := hout.legal hinv hr
    refine ⟨hlegal, fun ht => hstep.rewritten.eq_of_terminal hinv hr ht, fun hready hblocked => ?_⟩
    rw [hready, hblocked] at hlegal
    rcases hlegal with h | h | ⟨-, h, -⟩ <;> cases h

/-- The failure of a chain's first task: `RUNNING` to `DEAD_LETTER`, and `PENDING`
to `BLOCKED`. -/
theorem task_lifecycle_conforms_chain :
    let db := served true (chainStart noRetry ++ [claimAt 0 "w1"])
    let op := Op.failure (clockAt 1) (fun x => x) 12 "w1" "boom"
    (∀ r ∈ db.task_runs.rows, ∀ r' ∈ (serve true db op).task_runs.rows, r'.id = r.id →
      r'.state = r.state ∨ LegalChange op r.state r'.state) ∧
    db.task_runs.rows.map TaskRun.state = [.RUNNING, .PENDING] ∧
    (serve true db op).task_runs.rows.map TaskRun.state = [.DEAD_LETTER, .BLOCKED] :=
  ⟨fun r hr r' hr' hid =>
    ((task_lifecycle_conforms (reachable_served true _) rfl).2 r hr r' hr' hid).1,
    by decide +kernel, by decide +kernel⟩

/-! ## Runs -/

/-- Equal, or joined by an edge of `RUN_TRANSITIONS`. -/
def RunConforms (s s' : RunState) : Prop := s' = s ∨ s' ∈ RUN_TRANSITIONS s

instance (s s' : RunState) : Decidable (RunConforms s s') := by
  unfold RunConforms; infer_instance

/-- A run that has started keeps a started task that the operation does not send
back. -/
def KeepsStart (db : Db) (run_id : UUID) (op : Op) : Prop :=
  (∃ r ∈ db.runTasks run_id, r.state.not_yet_started = false) →
    ∃ r ∈ db.runTasks run_id, r.state.not_yet_started = false ∧ ¬ Requeued op r

theorem Rewritten.runTasks (h : Rewritten checks db db' g) (run_id : UUID) :
    db'.runTasks run_id = (db.runTasks run_id).map g := by
  unfold Db.runTasks
  rw [h.rows, List.filter_map]
  congr 1
  refine List.filter_congr (fun r hr => ?_)
  simp only [Function.comp_apply, (h.change r hr).keeps.2.1]

theorem Rewritten.mem_taskStates (h : Rewritten checks db db' g) {run_id : UUID} {s : TaskState} :
    s ∈ db'.taskStates run_id ↔ ∃ r ∈ db.runTasks run_id, (g r).state = s := by
  unfold Db.taskStates
  rw [h.runTasks, List.map_map, List.mem_map]
  rfl

/-- An operation that sends a row back does nothing to the rows it does not send
back. -/
theorem Outcome.requeued (hout : Outcome checks db op g) {r : TaskRun}
    (hr : r ∈ db.task_runs.rows) (hback : Requeued op r) {s : TaskRun}
    (hs : s ∈ db.task_runs.rows) :
    (Requeued op s ∧ (g s).state = .READY) ∨ (¬ Requeued op s ∧ g s = s) := by
  cases hout with
  | reaped clock =>
      by_cases hexpired : leaseExpired clock.utcnow s = true
      · refine Or.inl ⟨hexpired, ?_⟩
        dsimp only
        rw [if_pos hexpired]
        rfl
      · exact Or.inr ⟨hexpired, if_neg hexpired⟩
  | retried clock uniform task_run_id worker_id error delay hrow hworker hlt =>
      obtain ⟨hmem, hkey⟩ := Table.get_eq_some.mp hrow
      by_cases howned : ownedBy task_run_id worker_id s = true
      · refine Or.inl ⟨⟨howned, ?_⟩, ?_⟩
        · rw [db.task_runs.eq_of_key hs hmem ((ownedBy_iff.mp howned).1.trans hkey.symm)]
          exact hlt
        · dsimp only
          rw [if_pos howned]
          rfl
      · exact Or.inr ⟨fun h => howned h.1, if_neg howned⟩
  | failed clock uniform task_run_id worker_id error tasks hrow hworker hge =>
      obtain ⟨hmem, hkey⟩ := Table.get_eq_some.mp hrow
      obtain ⟨howned, hlt⟩ := hback
      rw [db.task_runs.eq_of_key hr hmem ((ownedBy_iff.mp howned).1.trans hkey.symm)] at hlt
      exact absurd hlt (not_lt.mpr hge)
  | lateFailure clock uniform task_run_id worker_id error hlost =>
      obtain ⟨hid, hworker⟩ := ownedBy_iff.mp hback.1
      exact absurd hworker (hlost r (Table.get_eq_some.mpr ⟨hr, hid⟩))
  | _ => exact hback.elim

/-- A started row that is not sent back stays started. -/
theorem Outcome.stays_started (hinv : Inv checks db) (hout : Outcome checks db op g) {r : TaskRun}
    (hr : r ∈ db.task_runs.rows) (hstarted : r.state.not_yet_started = false)
    (hback : ¬ Requeued op r) : (g r).state.not_yet_started = false := by
  have hretrying := (hinv.good.lawful r hr).not_retrying
  rcases hout.state_cases hinv hr with h | h | ⟨h, -⟩
  · rw [h]
    exact hstarted
  · cases hs : r.state <;> cases hs' : (g r).state <;>
      simp_all [can_transition, TASK_TRANSITIONS, TaskState.not_yet_started]
  · exact absurd h hback

/-- A row of a run is a row of the database. -/
theorem Db.mem_runTasks {run_id : UUID} {r : TaskRun} :
    r ∈ db.runTasks run_id ↔ r ∈ db.task_runs.rows ∧ r.run_id = run_id := by
  simp [Db.runTasks]

/-- The derived state falls back to `PENDING` exactly when the operation sends
back every started task of a started run. -/
theorem Outcome.derive_pending_iff (hinv : Inv checks db) (hout : Outcome checks db op g)
    (h : Rewritten checks db db' g) {run_id : UUID}
    (hstarted : ∃ r ∈ db.runTasks run_id, r.state.not_yet_started = false) :
    derive_run_state (db'.taskStates run_id) = .PENDING ↔ ¬ KeepsStart db run_id op := by
  rw [derive_eq_pending]
  constructor
  · intro hall hkeeps
    obtain ⟨r, hr, hstart, hback⟩ := hkeeps hstarted
    have hstays := hout.stays_started hinv (Db.mem_runTasks.mp hr).1 hstart hback
    rw [hall _ (h.mem_taskStates.mpr ⟨r, hr, rfl⟩)] at hstays
    cases hstays
  · intro hkeeps
    have hback : ∀ r ∈ db.runTasks run_id, r.state.not_yet_started = false → Requeued op r := by
      intro r hr hstart
      by_contra hnot
      exact hkeeps (fun _ => ⟨r, hr, hstart, hnot⟩)
    obtain ⟨r, hr, hstart⟩ := hstarted
    intro s hs
    obtain ⟨t, ht, rfl⟩ := h.mem_taskStates.mp hs
    rcases hout.requeued (Db.mem_runTasks.mp hr).1 (hback r hr hstart) (Db.mem_runTasks.mp ht).1
      with ⟨-, hready⟩ | ⟨hnot, he⟩
    · rw [hready]
      rfl
    · rw [he]
      by_contra hne
      exact hnot (hback t ht (by simpa using hne))

/-- A run that has not started stays so, starts, or is cancelled. -/
theorem Outcome.conforms_of_pending (hinv : Inv checks db) (hout : Outcome checks db op g)
    (h : QueueStep checks db db' g) {run_id : UUID}
    (hpending : derive_run_state (db.taskStates run_id) = .PENDING) :
    RunConforms .PENDING (derive_run_state (db'.taskStates run_id)) := by
  have hinv' := h.inv hinv
  have hunstarted := derive_eq_pending.mp hpending
  -- No task of the run is running, so none fails, and hence none is blocked.
  have hstates : ∀ s ∈ db'.taskStates run_id,
      s.not_yet_started = true ∨ s = .RUNNING ∨ s = .BLOCKED ∨ s = .CANCELLED := by
    intro s hs
    obtain ⟨r, hr, rfl⟩ := h.rewritten.mem_taskStates.mp hs
    have hr' := hunstarted r.state (List.mem_map_of_mem hr)
    rcases hout.state_cases hinv (Db.mem_runTasks.mp hr).1 with hc | hc | ⟨-, hc⟩
    · rw [hc]
      exact Or.inl hr'
    · cases hs : r.state <;> cases hs' : (g r).state <;>
        simp_all [can_transition, TASK_TRANSITIONS, TaskState.not_yet_started]
    · rw [hc]
      exact Or.inl rfl
  have hblocked : .BLOCKED ∉ db'.taskStates run_id := by
    intro hmem
    obtain ⟨r, hr, hs⟩ := List.mem_map.mp hmem
    obtain ⟨hr, hrun⟩ := Db.mem_runTasks.mp hr
    have hstatus := Db.status_of_mem hinv'.unique hr
    rw [hs] at hstatus
    obtain ⟨a, -, ha⟩ := (hinv'.coherent r.run_id).blocked _ hstatus
    obtain ⟨t, ht, h1, -, h3⟩ := Db.exists_row_of_status hinv'.unique ha (by decide)
    have := hstates t.state (List.mem_map_of_mem (Db.mem_runTasks.mpr ⟨ht, h1.trans hrun⟩))
    rcases TaskState.status_eq_failed.mp h3 with hf | hf <;>
      simp [hf, TaskState.not_yet_started] at this
  by_cases hrunning : ∃ s ∈ db'.taskStates run_id, s.is_active = true
  · cases hd : derive_run_state (db'.taskStates run_id) with
    | PENDING => exact Or.inl rfl
    | RUNNING => exact Or.inr (by decide)
    | CANCELLED => exact Or.inr (by decide)
    | _ =>
        obtain ⟨s, hs, hact⟩ := hrunning
        have hterminal := (derive_is_terminal.mp (by rw [hd]; rfl)).2 s hs
        rw [TaskState.is_active_eq, hterminal] at hact
        cases hact
  · push Not at hrunning
    have hcancelled : ∀ s ∈ db'.taskStates run_id, s = .CANCELLED := by
      intro s hs
      have hact := hrunning s hs
      rcases hstates s hs with hc | rfl | rfl | rfl
      · exact absurd (TaskState.active_of_not_yet_started hc) hact
      · exact absurd rfl hact
      · exact absurd hs hblocked
      · rfl
    by_cases hne : db'.taskStates run_id = []
    · rw [hne]
      exact Or.inl rfl
    · obtain ⟨s, hs⟩ := List.exists_mem_of_ne_nil _ hne
      rw [derive_eq_cancelled (fun s hs => by rw [hcancelled s hs]; rfl) (hcancelled s hs ▸ hs)]
      exact Or.inr (by decide)

/-- A run whose tasks are all terminal keeps its derived state. -/
theorem Rewritten.derive_of_terminal (hinv : Inv checks db) (h : Rewritten checks db db' g)
    {run_id : UUID} (hterminal : (derive_run_state (db.taskStates run_id)).is_terminal = true) :
    derive_run_state (db'.taskStates run_id) = derive_run_state (db.taskStates run_id) := by
  have hall := (derive_is_terminal.mp hterminal).2
  unfold Db.taskStates
  rw [h.runTasks, List.map_map]
  refine congrArg derive_run_state (List.map_congr_left (fun r hr => ?_))
  have ht := hall r.state (List.mem_map_of_mem hr)
  rw [Function.comp_apply, h.eq_of_terminal hinv (Db.mem_runTasks.mp hr).1 ht]

/-- **Run lifecycle conformance, and exactly when it fails.** From every reachable
database, what a queue operation does to the derived state of a run is nothing or
an edge of the table if and only if a run that has started keeps a started task.
A terminal run never changes. -/
theorem run_lifecycle_conforms_iff (h : Reachable checks db) (hop : op.isQueue = true)
    (run_id : UUID) :
    (RunConforms (derive_run_state (db.taskStates run_id))
        (derive_run_state ((serve checks db op).taskStates run_id)) ↔ KeepsStart db run_id op) ∧
    ((derive_run_state (db.taskStates run_id)).is_terminal = true →
      derive_run_state ((serve checks db op).taskStates run_id)
        = derive_run_state (db.taskStates run_id)) := by
  have hinv := h.inv
  obtain ⟨g, hout, hstep⟩ := serve_outcome hinv hop
  refine ⟨?_, fun ht => hstep.rewritten.derive_of_terminal hinv ht⟩
  -- What the run's state says about its started tasks.
  have hstarted : derive_run_state (db.taskStates run_id) ≠ .PENDING →
      ∃ r ∈ db.runTasks run_id, r.state.not_yet_started = false := by
    intro hne
    rw [ne_eq, derive_eq_pending] at hne
    push Not at hne
    obtain ⟨s, hs, hns⟩ := hne
    obtain ⟨r, hr, rfl⟩ := List.mem_map.mp hs
    exact ⟨r, hr, by simpa using hns⟩
  cases hd : derive_run_state (db.taskStates run_id) with
  | PENDING =>
      refine iff_of_true (hout.conforms_of_pending hinv hstep hd) ?_
      rintro ⟨r, hr, hns⟩
      rw [derive_eq_pending.mp hd r.state (List.mem_map_of_mem hr)] at hns
      cases hns
  | RUNNING =>
      have hiff := hout.derive_pending_iff hinv hstep.rewritten (hstarted (by simp [hd]))
      rw [← not_iff_not, ← hiff]
      cases derive_run_state ((serve checks db op).taskStates run_id) <;>
        simp [RunConforms, RUN_TRANSITIONS]
  | _ =>
      have hterminal : (derive_run_state (db.taskStates run_id)).is_terminal = true := by
        rw [hd]
        rfl
      refine iff_of_true (Or.inl ?_) (fun hstart => ?_)
      · rw [hstep.rewritten.derive_of_terminal hinv hterminal, hd]
      · obtain ⟨r, hr, hns⟩ := hstart
        refine ⟨r, hr, hns, fun hback => ?_⟩
        have hrunning := hback.running hinv (Db.mem_runTasks.mp hr).1
        have ht := (derive_is_terminal.mp hterminal).2 r.state (List.mem_map_of_mem hr)
        rw [hrunning] at ht
        cases ht

/-- A task that is retried takes its run from `RUNNING` back to `PENDING`. -/
theorem retry_unstarts_run :
    let db := served true (soloStart retryOnce ++ [claimAt 0 "w1"])
    let op := Op.failure (clockAt 1) (fun x => x) 12 "w1" "boom"
    Reachable true db ∧ derive_run_state (db.taskStates 10) = .RUNNING ∧
      derive_run_state ((serve true db op).taskStates 10) = .PENDING ∧
      ¬ RunConforms (derive_run_state (db.taskStates 10))
        (derive_run_state ((serve true db op).taskStates 10)) := by
  refine ⟨reachable_served true _, ?_, ?_, ?_⟩ <;> decide +kernel

/-- With the first task of a chain succeeded, a retry of the second conforms. -/
theorem run_lifecycle_conforms_chain :
    let db := served true (chainStart retryOnce ++ [claimAt 0 "w1",
      .success (clockAt 1) 12 "w1" none, claimAt 2 "w1"])
    let op := Op.failure (clockAt 3) (fun x => x) 13 "w1" "boom"
    RunConforms (derive_run_state (db.taskStates 10))
        (derive_run_state ((serve true db op).taskStates 10)) ∧ KeepsStart db 10 op := by
  have hkeeps : KeepsStart (served true (chainStart retryOnce ++ [claimAt 0 "w1",
      .success (clockAt 1) 12 "w1" none, claimAt 2 "w1"])) 10
      (.failure (clockAt 3) (fun x => x) 13 "w1" "boom") := by
    unfold KeepsStart
    decide +kernel
  exact ⟨(run_lifecycle_conforms_iff (reachable_served true _) rfl 10).1.mpr hkeeps, hkeeps⟩

end Conductor
