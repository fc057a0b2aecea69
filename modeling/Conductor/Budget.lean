/-
The attempt budget.

`claim_batch` counts an attempt on every row it takes, and the schema refuses a
row with `attempt > max_attempts`. So a `READY` row must have an attempt left. Of
the four ways into `READY` three see to it: a new row and a released one have not
been attempted, and a retry is granted only below the budget. Reaping does not
look at the budget. A reap that meets an expired lease on a last attempt puts the
row back without an attempt left, and from then on every claim that picks the row
fails as a whole.
-/
import Conductor.Service

set_option autoImplicit false

open Relational Txn

namespace Conductor

open RunRepository TaskQueueRepository WorkflowRepository

/-- Every `READY` row has an attempt left. -/
def Db.Budgeted (db : Db) : Prop :=
  ∀ r ∈ db.task_runs.rows, r.state = .READY → r.attempt < r.max_attempts

instance (db : Db) : Decidable db.Budgeted := by
  unfold Db.Budgeted; infer_instance

/-- No lease that the operation reaps has expired on a last attempt. -/
def SparesLastAttempts (db : Db) : Op → Prop
  | .reap clock => ∀ r ∈ db.task_runs.rows, leaseExpired clock.utcnow r = true →
      r.attempt < r.max_attempts
  | _ => True

instance (db : Db) : DecidablePred (SparesLastAttempts db) := fun op => by
  cases op <;> unfold SparesLastAttempts <;> infer_instance

variable {checks : Bool} {db db' : Db}

/-! ## The ways into `READY` -/

theorem Inv.one_le_max_attempts (hinv : Inv checks db) {r : TaskRun}
    (hr : r ∈ db.task_runs.rows) : 1 ≤ r.max_attempts := by
  obtain ⟨-, policy, -, -, hmax⟩ := hinv.policy hr
  rw [hmax]
  exact policy.one_le_max_attempts

/-- A waiting row has its whole budget left. -/
theorem Inv.pending_lt (hinv : Inv checks db) {r : TaskRun} (hr : r ∈ db.task_runs.rows)
    (hs : r.state = .PENDING) : r.attempt < r.max_attempts := by
  rw [(hinv.good.lawful r hr).unattempted hs]
  exact hinv.one_le_max_attempts hr

/-- Rewriting rows keeps the budget when every row it makes `READY` has an attempt
left. -/
theorem Rewritten.budgeted {g : TaskRun → TaskRun} (h : Rewritten checks db db' g)
    (hb : db.Budgeted)
    (hready : ∀ r ∈ db.task_runs.rows, (g r).state = .READY →
      g r = r ∨ (g r).attempt < (g r).max_attempts) : db'.Budgeted := by
  intro r' hr' hs
  obtain ⟨r, hr, rfl⟩ := h.mem_rows.mp hr'
  rcases hready r hr hs with he | hlt
  · rw [he] at hs ⊢
    exact hb r hr hs
  · exact hlt

theorem afterSuccess_budgeted (hinv : Inv checks db) {row : TaskRun} (now : Time)
    (output : Option Dict) {r : TaskRun} (hr : r ∈ db.task_runs.rows)
    (hs : (afterSuccess db row now output r).state = .READY) :
    afterSuccess db row now output r = r ∨
      (afterSuccess db row now output r).attempt
        < (afterSuccess db row now output r).max_attempts := by
  unfold afterSuccess at hs ⊢
  split at hs
  · cases hs
  · rename_i hid
    rw [if_neg hid]
    unfold afterUnblock
    split
    · rename_i hw
      obtain ⟨-, -, hmax, hattempt⟩ := unblocked_cases r
      rw [hmax, hattempt]
      exact Or.inr (hinv.pending_lt hr (waitingChild_state hw))
    · exact Or.inl rfl

theorem afterFailure_budgeted {row : TaskRun} (now : Time) (error : String) (tasks : List UUID)
    {r : TaskRun} (hs : (afterFailure row now .DEAD_LETTER error tasks r).state = .READY) :
    afterFailure row now .DEAD_LETTER error tasks r = r := by
  unfold afterFailure at hs ⊢
  split at hs
  · cases hs
  · rename_i hid
    rw [if_neg hid]
    split at hs
    · cases hs
    · rename_i hb
      rw [if_neg hb]

/-- **A reap keeps the budget exactly when it spares last attempts.** -/
theorem budgeted_reap_iff (hb : db.Budgeted) {clock : Clock}
    (h : Rewritten checks db db'
      (fun r => if leaseExpired clock.utcnow r then reaped r else r)) :
    db'.Budgeted ↔ SparesLastAttempts db (.reap clock) := by
  constructor
  · intro hb' r hr hexpired
    have hmem := h.mem_rows.mpr ⟨r, hr, rfl⟩
    rw [if_pos hexpired] at hmem
    exact hb' (reaped r) hmem rfl
  · intro hspares
    refine h.budgeted hb (fun r hr _ => ?_)
    split
    · exact Or.inr (hspares r hr ‹_›)
    · exact Or.inl rfl

/-- A queue operation keeps the budget exactly when it spares last attempts. -/
theorem budgeted_queue_iff (hinv : Inv checks db) (hb : db.Budgeted) {op : Op}
    {g : TaskRun → TaskRun} (hout : Outcome checks db op g) (h : Rewritten checks db db' g) :
    db'.Budgeted ↔ SparesLastAttempts db op := by
  cases hout with
  | reaped clock => exact budgeted_reap_iff hb h
  | refused => exact iff_of_true (h.budgeted hb (fun r _ _ => Or.inl rfl)) trivial
  | lateSuccess => exact iff_of_true (h.budgeted hb (fun r _ _ => Or.inl rfl)) trivial
  | lateFailure => exact iff_of_true (h.budgeted hb (fun r _ _ => Or.inl rfl)) trivial
  | refreshed => exact iff_of_true (h.budgeted hb (fun r _ _ => Or.inl rfl)) trivial
  | claimed =>
      refine iff_of_true (h.budgeted hb (fun r _ hs => ?_)) trivial
      split at hs
      · cases hs
      · exact Or.inl (if_neg ‹_›)
  | renewed =>
      refine iff_of_true (h.budgeted hb (fun r hr hs => ?_)) trivial
      split at hs
      · rename_i hheld
        rw [show (renewed _ r).state = r.state from rfl, (heldBy_iff.mp hheld).2.2] at hs
        cases hs
      · exact Or.inl (if_neg ‹_›)
  | succeeded clock task_run_id worker_id output =>
      exact iff_of_true (h.budgeted hb (fun r hr hs =>
        afterSuccess_budgeted hinv clock.now output hr hs)) trivial
  -- A retry is granted within the budget only.
  | retried clock uniform task_run_id worker_id error delay hrow hworker hlt =>
      obtain ⟨hmem, hid⟩ := Table.get_eq_some.mp hrow
      refine iff_of_true (h.budgeted hb (fun r hr _ => ?_)) trivial
      split
      · rename_i howned
        rw [db.task_runs.eq_of_key hr hmem ((ownedBy_iff.mp howned).1.trans hid.symm)]
        exact Or.inr hlt
      · exact Or.inl rfl
  | failed clock uniform task_run_id worker_id error tasks =>
      exact iff_of_true (h.budgeted hb (fun r _ hs =>
        Or.inl (afterFailure_budgeted clock.now error tasks hs))) trivial
  | cancelled =>
      refine iff_of_true (h.budgeted hb (fun r _ hs => ?_)) trivial
      split at hs
      · cases hs
      · exact Or.inl (if_neg ‹_›)

/-- A new run keeps the budget: its rows have not been attempted. -/
theorem budgeted_submit (hinv : Inv checks db) (hb : db.Budgeted) (ids : RunIds) (clock : Clock)
    (workflow_id : UUID) (trigger_payload : Option Dict) :
    (serve checks db (.submit ids clock workflow_id trigger_payload)).Budgeted := by
  intro r hr hs
  rcases mem_task_runs_submit hinv hr with hr | ⟨unmet, policy, task, rfl⟩
  · exact hb r hr hs
  · have hpositive := policy.one_le_max_attempts
    simp only [newTaskRun]
    omega

theorem budgeted_publish (hb : db.Budgeted) (ids : WorkflowIds) (now : Time) (name : String)
    (specs : List TaskSpec) (description : Option String) :
    (serve checks db (.publish ids now name specs description)).Budgeted := by
  obtain ⟨_, _, _, hserve⟩ := serve_publish_frame checks db ids now name specs description
  rw [hserve]
  exact hb

/-- **One operation keeps the budget exactly when it spares last attempts.** -/
theorem budgeted_serve_iff (hinv : Inv checks db) (hb : db.Budgeted) (op : Op) :
    (serve checks db op).Budgeted ↔ SparesLastAttempts db op := by
  cases hop : op.isQueue with
  | true =>
      obtain ⟨g, hout, hstep⟩ := serve_outcome hinv hop
      exact budgeted_queue_iff hinv hb hout hstep.rewritten
  | false =>
      cases op with
      | publish ids now name specs description =>
          exact iff_of_true (budgeted_publish hb ids now name specs description) trivial
      | submit ids clock workflow_id trigger_payload =>
          exact iff_of_true (budgeted_submit hinv hb ids clock workflow_id trigger_payload) trivial
      | _ => cases hop

/-- With every `READY` row within its budget no claim is refused. -/
theorem Db.Budgeted.withinBudget (hb : db.Budgeted) (tie : UUID → ℕ) (now : Time) (limit : ℕ) :
    db.WithinBudget tie now limit :=
  fun r hr hpicked => hb r hr (picked_state hr hpicked)

/-! ## Whole runs -/

/-- **The attempt budget.** Along every run whose reaps spare last attempts, every
`READY` row has an attempt left and every claim returns; and the condition is
exact: from a state within the budget, an operation leaves it exactly when it
reaps a lease that expired on a last attempt. -/
theorem ready_within_budget (db : Db) :
    (Lts.ReachVia Initial (fun db op db' => serve true db op = db') SparesLastAttempts db →
      db.Budgeted ∧ ∀ lease_seconds clock tie worker_id limit, ∃ db' results,
        exec (store true) (claim_batch lease_seconds clock tie worker_id limit) db
          = .ok (db', results)) ∧
    (∀ op, Reachable true db → db.Budgeted →
      ((serve true db op).Budgeted ↔ SparesLastAttempts db op)) := by
  constructor
  · intro h
    have hb : db.Budgeted := by
      refine Lts.ReachVia.invariant (fun db hi r hr => ?_) (fun db op db' hr hb hc hstep => ?_) h
      · rw [hi.no_task_runs] at hr
        exact absurd hr List.not_mem_nil
      · rw [← hstep]
        have hinv : Inv true db := Reachable.inv hr
        exact (budgeted_serve_iff hinv hb op).mpr hc
    refine ⟨hb, fun lease_seconds clock tie worker_id limit => ?_⟩
    have hinv : Inv true db := Reachable.inv h.reach
    obtain ⟨results, hexec, -⟩ := serve_claim hinv lease_seconds clock tie worker_id limit
      (fun _ => hb.withinBudget tie clock.utcnow limit)
    exact ⟨_, results, hexec⟩
  · intro op hr hb
    exact budgeted_serve_iff hr.inv hb op

/-- One attempt, which outlives its lease. -/
def crashOnLastAttempt : List Op :=
  soloStart noRetry ++ [claimAt 0 "w1", .reap (clockAt 100)]

/-- The reaped row is `READY` with its budget spent, and the next claim raises. -/
theorem crash_on_last_attempt_poisons_queue :
    Reachable true (served true crashOnLastAttempt) ∧
    ¬ (served true crashOnLastAttempt).Budgeted ∧
    (exec (store true) (claim_batch 30 (clockAt 101) (fun _ => 0) "w2" 1)
        (served true crashOnLastAttempt)).map (fun _ => ())
      = .error (.IntegrityError "ck_task_runs_attempt_within_budget") := by
  refine ⟨reachable_served true _, ?_, ?_⟩ <;> decide +kernel

/-- With a second attempt left the same crash is harmless; without one, it is the
reap that leaves the budget. -/
theorem ready_within_budget_after_crash :
    (served true (soloStart retryOnce ++ [claimAt 0 "w1", .reap (clockAt 100)])).Budgeted ∧
    ((serve true (served true (soloStart noRetry ++ [claimAt 0 "w1"])) (.reap (clockAt 100))).Budgeted
      ↔ SparesLastAttempts (served true (soloStart noRetry ++ [claimAt 0 "w1"]))
          (.reap (clockAt 100))) :=
  ⟨((ready_within_budget _).1 (Lts.ReachVia.foldl (.start initial_empty) (by decide +kernel))).1,
    (ready_within_budget _).2 _ (reachable_served true _) (by decide +kernel)⟩

end Conductor
