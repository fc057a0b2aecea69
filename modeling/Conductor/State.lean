/-
`core/state.py`: the two lifecycle tables, and how a run's state follows from the
states of its tasks.
-/
import Mathlib.Tactic.Push
import Conductor.Values

set_option autoImplicit false

namespace Conductor

/-- The lifecycle of one task within one run. -/
inductive TaskState where
  | PENDING
  | READY
  | RUNNING
  | SUCCEEDED
  | RETRYING
  | FAILED
  | DEAD_LETTER
  | BLOCKED
  | CANCELLED
deriving DecidableEq, Repr

/-- The lifecycle of a whole run, derived from its tasks. -/
inductive RunState where
  | PENDING
  | RUNNING
  | SUCCEEDED
  | FAILED
  | CANCELLED
deriving DecidableEq, Repr

def TaskState.is_terminal : TaskState → Bool
  | .SUCCEEDED | .FAILED | .DEAD_LETTER | .BLOCKED | .CANCELLED => true
  | .PENDING | .READY | .RUNNING | .RETRYING => false

/-- True while the task still occupies scheduler or worker attention. -/
def TaskState.is_active : TaskState → Bool
  | .PENDING | .READY | .RUNNING | .RETRYING => true
  | .SUCCEEDED | .FAILED | .DEAD_LETTER | .BLOCKED | .CANCELLED => false

def RunState.is_terminal : RunState → Bool
  | .SUCCEEDED | .FAILED | .CANCELLED => true
  | .PENDING | .RUNNING => false

/-- `_NOT_YET_STARTED`: "this run has not begun executing yet". -/
def TaskState.not_yet_started : TaskState → Bool
  | .PENDING | .READY => true
  | _ => false

/-- `TASK_TRANSITIONS`. -/
def TASK_TRANSITIONS : TaskState → List TaskState
  | .PENDING => [.READY, .BLOCKED, .CANCELLED]
  | .READY => [.RUNNING, .CANCELLED]
  | .RUNNING => [.SUCCEEDED, .RETRYING, .FAILED, .DEAD_LETTER, .CANCELLED]
  | .RETRYING => [.READY, .FAILED, .DEAD_LETTER, .CANCELLED]
  | .SUCCEEDED | .FAILED | .DEAD_LETTER | .BLOCKED | .CANCELLED => []

/-- `RUN_TRANSITIONS`. -/
def RUN_TRANSITIONS : RunState → List RunState
  | .PENDING => [.RUNNING, .CANCELLED]
  | .RUNNING => [.SUCCEEDED, .FAILED, .CANCELLED]
  | .SUCCEEDED | .FAILED | .CANCELLED => []

def can_transition (current target : TaskState) : Bool := target ∈ TASK_TRANSITIONS current

/-- Roll individual task states up into the run's state. The order of the checks
is the specification. -/
def derive_run_state (task_states : List TaskState) : RunState :=
  if task_states.isEmpty then .PENDING
  else if task_states.all (· = .SUCCEEDED) then .SUCCEEDED
  else if task_states.all (·.not_yet_started) then .PENDING
  else
    let active := task_states.any (·.is_active)
    if !active && task_states.any (· = .CANCELLED) then .CANCELLED
    else if active then .RUNNING
    else .FAILED

/-! ## What the derived state says about the tasks -/

theorem TaskState.is_active_eq (s : TaskState) : s.is_active = !s.is_terminal := by
  cases s <;> rfl

theorem TaskState.active_of_not_yet_started {s : TaskState} (h : s.not_yet_started = true) :
    s.is_active = true := by
  cases s <;> simp_all [TaskState.not_yet_started, TaskState.is_active]

/-- A run is `PENDING` exactly while none of its tasks has started. -/
theorem derive_eq_pending {l : List TaskState} :
    derive_run_state l = .PENDING ↔ ∀ s ∈ l, s.not_yet_started = true := by
  cases l with
  | nil => simp [derive_run_state]
  | cons a l =>
      have hsucc : (a :: l).all (· = .SUCCEEDED) = true →
          ¬ ∀ s ∈ a :: l, s.not_yet_started = true := by
        intro h hall
        have ha : a = .SUCCEEDED := by simpa using List.all_eq_true.mp h a (by simp)
        have := hall a (by simp)
        rw [ha] at this
        cases this
      unfold derive_run_state
      simp only [List.isEmpty_cons, Bool.false_eq_true, if_false]
      split
      · exact iff_of_false (by simp) (hsucc ‹_›)
      · split
        · rename_i h
          exact iff_of_true rfl (List.all_eq_true.mp h)
        · rename_i h
          refine iff_of_false ?_ (fun hall => h (List.all_eq_true.mpr hall))
          split
          · simp
          · split <;> simp

/-- With something started, a run is `RUNNING` exactly while a task is active. -/
theorem derive_eq_running {l : List TaskState} :
    derive_run_state l = .RUNNING ↔
      (∃ s ∈ l, s.not_yet_started = false) ∧ ∃ s ∈ l, s.is_active = true := by
  cases l with
  | nil => simp [derive_run_state]
  | cons a l =>
      unfold derive_run_state
      simp only [List.isEmpty_cons, Bool.false_eq_true, if_false]
      -- The tests in the order of the source: all succeeded, none started, some active.
      split
      · rename_i h
        refine iff_of_false (by simp) ?_
        rintro ⟨-, s, hs, hact⟩
        have hsucc : s = .SUCCEEDED := by simpa using List.all_eq_true.mp h s hs
        rw [hsucc] at hact
        cases hact
      · split
        · rename_i h
          refine iff_of_false (by simp) ?_
          rintro ⟨⟨s, hs, hst⟩, -⟩
          have := List.all_eq_true.mp h s hs
          rw [hst] at this
          cases this
        · rename_i h
          have hstarted : ∃ s ∈ a :: l, s.not_yet_started = false := by
            by_contra hno
            push Not at hno
            exact h (List.all_eq_true.mpr (fun s hs => by simpa using hno s hs))
          cases hact : (a :: l).any (·.is_active) with
          | true =>
              have hex : ∃ s ∈ a :: l, s.is_active = true := List.any_eq_true.mp hact
              simp only [Bool.not_true, Bool.false_and, Bool.false_eq_true, if_false, if_true,
                true_iff]
              exact ⟨hstarted, hex⟩
          | false =>
              have hno : ¬ ∃ s ∈ a :: l, s.is_active = true := by
                intro hex
                rw [List.any_eq_true.mpr hex] at hact
                cases hact
              refine iff_of_false ?_ (fun h => hno h.2)
              split <;> simp

/-- The derived state is terminal exactly when there is a task and every task is
terminal. -/
theorem derive_is_terminal {l : List TaskState} :
    (derive_run_state l).is_terminal = true ↔ l ≠ [] ∧ ∀ s ∈ l, s.is_terminal = true := by
  have hsplit : (derive_run_state l).is_terminal = true ↔
      derive_run_state l ≠ .PENDING ∧ derive_run_state l ≠ .RUNNING := by
    cases derive_run_state l <;> simp [RunState.is_terminal]
  rw [hsplit, ne_eq, derive_eq_pending, ne_eq, derive_eq_running]
  constructor
  · rintro ⟨hstart, hrun⟩
    push Not at hstart
    obtain ⟨s, hs, hns⟩ := hstart
    refine ⟨List.ne_nil_of_mem hs, fun s' hs' => ?_⟩
    by_contra hterm
    refine hrun ⟨⟨s, hs, by simpa using hns⟩, s', hs', ?_⟩
    rw [TaskState.is_active_eq]
    simpa using hterm
  · rintro ⟨hne, hall⟩
    have hact : ∀ s ∈ l, s.is_active = false := fun s hs => by
      rw [TaskState.is_active_eq, hall s hs]; rfl
    refine ⟨fun hstart => ?_, ?_⟩
    · obtain ⟨s, hs⟩ := List.exists_mem_of_ne_nil l hne
      have := TaskState.active_of_not_yet_started (hstart s hs)
      rw [hact s hs] at this
      cases this
    · rintro ⟨-, s, hs, h⟩
      rw [hact s hs] at h
      cases h

/-- With every task terminal, one cancelled task makes the run `CANCELLED`. -/
theorem derive_eq_cancelled {l : List TaskState} (hterminal : ∀ s ∈ l, s.is_terminal = true)
    (hcancelled : .CANCELLED ∈ l) : derive_run_state l = .CANCELLED := by
  have hne : l.isEmpty = false := by
    cases l with
    | nil => exact absurd hcancelled List.not_mem_nil
    | cons => rfl
  have hsucc : l.all (· = .SUCCEEDED) = false :=
    List.all_eq_false.mpr ⟨_, hcancelled, by decide⟩
  have hstart : l.all (·.not_yet_started) = false :=
    List.all_eq_false.mpr ⟨_, hcancelled, by decide⟩
  have hactive : l.any (·.is_active) = false := by
    refine List.any_eq_false.mpr (fun s hs => ?_)
    rw [TaskState.is_active_eq, hterminal s hs]
    simp
  have hany : l.any (· = .CANCELLED) = true := List.any_eq_true.mpr ⟨_, hcancelled, by decide⟩
  simp [derive_run_state, hne, hsucc, hstart, hactive, hany]

end Conductor
