/-
What one write does to one row of the queue.

No operation of the queue does anything to a task row but one of the rewrites of
`RowStep`, each under the condition that the `WHERE` clause of its statement
guarantees. What holds of single rows (the lease columns go with `RUNNING`, a
terminal state is final, the lifecycle table) is derived from this list once, for
transactions that run alone and for interleaved ones alike.
-/
import Mathlib.Logic.Relation
import Conductor.Runs

set_option autoImplicit false

open Relational

namespace Conductor

open RunRepository TaskQueueRepository

/-! ## The rewrites -/

/-- The rewrites of a task row, each with what its statement's filter knows. -/
inductive RowStep : TaskRun → TaskRun → Prop where
  | claim {r : TaskRun} (worker_id : String) (lease_until now : Time) (h : r.state = .READY) :
      RowStep r (claimed worker_id lease_until now r)
  | renew {r : TaskRun} (lease_until : Time) (h : r.state = .RUNNING) :
      RowStep r (renewed lease_until r)
  | succeed {r : TaskRun} (now : Time) (output : Option Dict) (h : r.state = .RUNNING) :
      RowStep r (succeeded now output r)
  | decrement {r : TaskRun} (h : r.state = .PENDING) (hpos : 0 < r.pending_deps) :
      RowStep r (decremented r)
  | release {r : TaskRun} (h : r.state = .PENDING) (hzero : r.pending_deps = 0) :
      RowStep r (released r)
  | block {r : TaskRun} (now : Time) (h : r.state = .PENDING ∨ r.state = .READY) :
      RowStep r (blocked now r)
  | fail {r : TaskRun} (now : Time) (terminal : TaskState) (error : String)
      (hterminal : terminal = .DEAD_LETTER ∨ terminal = .FAILED) (h : r.worker_id.isSome = true) :
      RowStep r (failedTerminally now terminal error r)
  | retry {r : TaskRun} (scheduled_at : Time) (error : String) (h : r.worker_id.isSome = true) :
      RowStep r (requeuedForRetry scheduled_at error r)
  | reap {r : TaskRun} (h : r.state = .RUNNING) : RowStep r (reaped r)
  | cancel {r : TaskRun} (now : Time)
      (h : r.state ∈ [TaskState.PENDING, .READY, .RUNNING, .RETRYING]) :
      RowStep r (cancelled now r)

/-! ## Lawful rows -/

/-- What holds of every row of the queue by itself. -/
structure TaskRun.Lawful (r : TaskRun) : Prop where
  attempt_nonneg : 0 ≤ r.attempt
  pending_deps_nonneg : 0 ≤ r.pending_deps
  held : r.state = .RUNNING → r.lease_expires_at.isSome = true ∧ r.worker_id.isSome = true ∧
    1 ≤ r.attempt
  free : r.state ≠ .RUNNING → r.lease_expires_at = none ∧ r.worker_id = none
  finished : r.finished_at.isSome = r.state.is_terminal
  not_retrying : r.state ≠ .RETRYING
  unattempted : r.state = .PENDING → r.attempt = 0

/-- Only a running row names a worker. -/
theorem TaskRun.Lawful.running_of_worker {r : TaskRun} (h : r.Lawful)
    (hw : r.worker_id.isSome = true) : r.state = .RUNNING := by
  by_contra hne
  rw [(h.free hne).2] at hw
  cases hw

/-- The budget is the one `CHECK` a lawful row can violate. -/
theorem TaskRun.Lawful.violates_eq_none {r : TaskRun} (h : r.Lawful) :
    r.violates = none ↔ r.attempt ≤ r.max_attempts := by
  have hlease : decide (r.state = .RUNNING)
      = (r.lease_expires_at.isSome && r.worker_id.isSome) := by
    by_cases hs : r.state = .RUNNING
    · obtain ⟨hl, hw, -⟩ := h.held hs
      simp [hs, hl, hw]
    · obtain ⟨hl, hw⟩ := h.free hs
      simp [hs, hl, hw]
  unfold TaskRun.violates
  rw [if_neg (not_lt.mpr h.attempt_nonneg)]
  by_cases hbudget : r.attempt ≤ r.max_attempts
  · rw [if_neg (not_lt.mpr hbudget), if_neg (by simpa using hlease),
      if_neg (not_lt.mpr h.pending_deps_nonneg)]
    exact iff_of_true rfl hbudget
  · rw [if_pos (not_le.mp hbudget)]
    exact iff_of_false (by simp) hbudget

namespace RowStep

variable {r r' : TaskRun}

/-- A rewrite keeps the row's identity and its budget. -/
theorem keeps (h : RowStep r r') :
    r'.id = r.id ∧ r'.run_id = r.run_id ∧ r'.task_id = r.task_id ∧
      r'.max_attempts = r.max_attempts ∧ r'.priority = r.priority := by
  cases h <;> exact ⟨rfl, rfl, rfl, rfl, rfl⟩

theorem run_id (h : RowStep r r') : r'.run_id = r.run_id := h.keeps.2.1

theorem task_id (h : RowStep r r') : r'.task_id = r.task_id := h.keeps.2.2.1

/-- Attempts are counted by claims only. -/
theorem attempt_le (h : RowStep r r') : r.attempt ≤ r'.attempt := by
  cases h with
  | claim => exact Int.le.intro 1 rfl
  | _ => exact le_refl _

/-- **Every rewrite keeps a row lawful.** -/
theorem lawful (h : RowStep r r') (hr : r.Lawful) : r'.Lawful := by
  have hfinished := hr.finished
  cases h with
  | claim worker_id lease_until now h =>
      refine ⟨?_, hr.pending_deps_nonneg, fun _ => ⟨rfl, rfl, ?_⟩, fun hne => absurd rfl hne, ?_,
        by simp [claimed], by simp [claimed]⟩
      · have := hr.attempt_nonneg
        simp only [claimed]
        omega
      · have := hr.attempt_nonneg
        simp only [claimed]
        omega
      · rw [h] at hfinished
        exact hfinished
  -- The lease columns are set with `RUNNING` and cleared with every other state.
  | renew lease_until h =>
      obtain ⟨-, hw, ha⟩ := hr.held h
      exact ⟨hr.attempt_nonneg, hr.pending_deps_nonneg, fun _ => ⟨rfl, hw, ha⟩,
        fun hne => absurd h hne, hfinished, hr.not_retrying, hr.unattempted⟩
  | succeed now output h =>
      exact ⟨hr.attempt_nonneg, hr.pending_deps_nonneg, by simp [succeeded], fun _ => ⟨rfl, rfl⟩,
        rfl, by simp [succeeded], by simp [succeeded]⟩
  | decrement h hpos =>
      refine ⟨hr.attempt_nonneg, ?_, fun he => ?_, hr.free, hfinished, hr.not_retrying,
        hr.unattempted⟩
      · simp only [decremented]
        omega
      · exact hr.held he
  | release h hzero =>
      rw [h] at hfinished
      exact ⟨hr.attempt_nonneg, hr.pending_deps_nonneg, by simp [released],
        fun _ => hr.free (by rw [h]; decide), hfinished, by simp [released], by simp [released]⟩
  | block now h =>
      exact ⟨hr.attempt_nonneg, hr.pending_deps_nonneg, by simp [blocked],
        fun _ => hr.free (by rcases h with h | h <;> rw [h] <;> decide), rfl, by simp [blocked],
        by simp [blocked]⟩
  | fail now terminal error hterminal h =>
      rcases hterminal with rfl | rfl <;>
        exact ⟨hr.attempt_nonneg, hr.pending_deps_nonneg, by simp [failedTerminally],
          fun _ => ⟨rfl, rfl⟩, rfl, by simp [failedTerminally], by simp [failedTerminally]⟩
  | retry scheduled_at error h =>
      rw [hr.running_of_worker h] at hfinished
      exact ⟨hr.attempt_nonneg, hr.pending_deps_nonneg, by simp [requeuedForRetry],
        fun _ => ⟨rfl, rfl⟩, hfinished, by simp [requeuedForRetry], by simp [requeuedForRetry]⟩
  | reap h =>
      rw [h] at hfinished
      exact ⟨hr.attempt_nonneg, hr.pending_deps_nonneg, by simp [reaped],
        fun _ => ⟨rfl, rfl⟩, hfinished, by simp [reaped], by simp [reaped]⟩
  | cancel now h =>
      exact ⟨hr.attempt_nonneg, hr.pending_deps_nonneg, by simp [cancelled], fun _ => ⟨rfl, rfl⟩,
        rfl, by simp [cancelled], by simp [cancelled]⟩

/-- No rewrite applies to a lawful terminal row. -/
theorem not_terminal (h : RowStep r r') (hr : r.Lawful) : r.state.is_terminal = false := by
  cases h with
  | claim _ _ _ h => rw [h]; rfl
  | renew _ h => rw [h]; rfl
  | succeed _ _ h => rw [h]; rfl
  | decrement h => rw [h]; rfl
  | release h => rw [h]; rfl
  | block _ h => rcases h with h | h <;> rw [h] <;> rfl
  | fail _ _ _ _ h => rw [hr.running_of_worker h]; rfl
  | retry _ _ h => rw [hr.running_of_worker h]; rfl
  | reap h => rw [h]; rfl
  | cancel _ h =>
      simp only [List.mem_cons, List.not_mem_nil, or_false] at h
      rcases h with h | h | h | h <;> rw [h] <;> rfl

/-- The same for rewrites one after the other. -/
theorem lawful_of_steps (h : Relation.ReflTransGen RowStep r r') (hr : r.Lawful) : r'.Lawful := by
  induction h with
  | refl => exact hr
  | tail _ hstep ih => exact hstep.lawful ih

/-- A terminal row is final. -/
theorem eq_of_terminal (h : Relation.ReflTransGen RowStep r r') (hr : r.Lawful)
    (hterminal : r.state.is_terminal = true) : r' = r := by
  rcases h.cases_head with rfl | ⟨m, hstep, -⟩
  · rfl
  · rw [hstep.not_terminal hr] at hterminal
    cases hterminal

end RowStep

end Conductor
