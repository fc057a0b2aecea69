/-
The queue drains.

That no operation does harm does not make anything happen. Here a course is an infinite
sequence of operations, by any number of workers, with the reaper and the API among them.
It is attended when the processes do their part: somebody claims again and again, with a
clock that goes on; every task that is running is reported, cancelled or reaped in the
end; and nothing is submitted any more. Reaps spare last attempts, without which the
queue can stop (see `Budget`).

Then every task comes to its end, through all retries and all dependencies. What goes
down is the potential of the rows: two for every attempt left, and one for being
`RUNNING`. No operation raises it, and every claim, report and reap that does something
lowers it.
-/
import Conductor.Lib.LeadsTo
import Conductor.Budget
import Conductor.Dependencies
import Conductor.Lifecycle
import Mathlib.Algebra.Order.Archimedean.Basic
import Mathlib.Algebra.Order.BigOperators.Group.List

set_option autoImplicit false

open Relational Txn Progress

namespace Conductor

open RunRepository TaskQueueRepository WorkflowRepository

/-! ## The potential -/

/-- How much can still be done with a row. -/
def TaskRun.potential (r : TaskRun) : ℕ :=
  if r.state.is_terminal then 0
  else 2 * (r.max_attempts - r.attempt).toNat + if r.state = .RUNNING then 1 else 0

def Db.potential (db : Db) : ℕ := (db.task_runs.rows.map TaskRun.potential).sum

/-- Every task has come to its end. -/
def Db.Drained (db : Db) : Prop :=
  ∀ r ∈ db.task_runs.rows, r.state.is_terminal = true

/-- What may become of a row as time goes on: its potential does not rise, and while it
stays what it is, a `READY` row is left alone. -/
structure TaskRun.Wanes (r r' : TaskRun) : Prop where
  id : r'.id = r.id
  le : r'.potential ≤ r.potential
  ready : r'.potential = r.potential → r.state = .READY →
    r'.state = .READY ∧ r'.scheduled_at = r.scheduled_at

variable {checks : Bool} {db db' : Db} {r r' r'' : TaskRun}

namespace TaskRun.Wanes

theorem refl (r : TaskRun) : r.Wanes r :=
  ⟨rfl, le_refl _, fun _ hready => ⟨hready, rfl⟩⟩

theorem trans (h : r.Wanes r') (h' : r'.Wanes r'') : r.Wanes r'' := by
  refine ⟨h'.id.trans h.id, h'.le.trans h.le, fun heq hready => ?_⟩
  have hfirst : r'.potential = r.potential := le_antisymm h.le (heq ▸ h'.le)
  obtain ⟨hready', hscheduled⟩ := h.ready hfirst hready
  obtain ⟨hready'', hscheduled'⟩ := h'.ready (heq.trans hfirst.symm) hready'
  exact ⟨hready'', hscheduled'.trans hscheduled⟩

/-- A row whose potential goes down wanes. -/
theorem of_lt (hid : r'.id = r.id) (hlt : r'.potential < r.potential) : r.Wanes r' :=
  ⟨hid, hlt.le, fun heq => absurd heq hlt.ne⟩

end TaskRun.Wanes

/-- A terminal row has no potential. -/
theorem potential_of_terminal (h : r.state.is_terminal = true) : r.potential = 0 :=
  if_pos h

/-- A running row is at an odd potential, and no other row is. -/
theorem potential_odd : r.potential % 2 = 1 ↔ r.state = .RUNNING := by
  unfold TaskRun.potential
  by_cases hrunning : r.state = .RUNNING
  · rw [hrunning, if_neg (by decide), if_pos rfl]
    exact iff_of_true (by omega) rfl
  · rw [if_neg hrunning]
    refine iff_of_false ?_ hrunning
    split <;> omega

theorem potential_of_running (h : r.state = .RUNNING) :
    r.potential = 2 * (r.max_attempts - r.attempt).toNat + 1 := by
  unfold TaskRun.potential
  rw [h, if_neg (by decide), if_pos rfl]

theorem potential_of_ready (h : r.state = .READY) :
    r.potential = 2 * (r.max_attempts - r.attempt).toNat := by
  unfold TaskRun.potential
  rw [h, if_neg (by decide), if_neg (by decide), Nat.add_zero]

theorem potential_of_pending (h : r.state = .PENDING) :
    r.potential = 2 * (r.max_attempts - r.attempt).toNat := by
  unfold TaskRun.potential
  rw [h, if_neg (by decide), if_neg (by decide), Nat.add_zero]

/-- A claim within the budget spends two for the attempt and gains one. -/
theorem potential_claimed (hready : r.state = .READY) (hleft : r.attempt < r.max_attempts)
    (worker_id : String) (lease_until now : Time) :
    (claimed worker_id lease_until now r).potential < r.potential := by
  rw [potential_of_ready hready, potential_of_running rfl]
  simp only [claimed]
  omega

/-- **Every rewrite of a row wanes it,** a claim as long as there is an attempt left. -/
theorem RowStep.wanes (h : RowStep r r') (hlawful : r.Lawful)
    (hleft : r.state = .READY → r.attempt < r.max_attempts) : r.Wanes r' := by
  cases h with
  | claim worker_id lease_until now hready =>
      exact .of_lt rfl (potential_claimed hready (hleft hready) worker_id lease_until now)
  | renew lease_until hrunning =>
      refine ⟨rfl, le_of_eq rfl, fun _ hready => ?_⟩
      rw [hrunning] at hready
      cases hready
  | succeed now output hrunning =>
      refine .of_lt rfl ?_
      rw [potential_of_running hrunning, potential_of_terminal rfl]
      exact Nat.succ_pos _
  | decrement hpending hpos =>
      refine ⟨rfl, le_of_eq rfl, fun _ hready => ?_⟩
      rw [hpending] at hready
      cases hready
  | release hpending hzero =>
      refine ⟨rfl, ?_, fun _ hready => ?_⟩
      · rw [potential_of_ready rfl, potential_of_pending hpending]
        exact le_of_eq rfl
      · rw [hpending] at hready
        cases hready
  | block now hwaiting =>
      refine ⟨rfl, (potential_of_terminal rfl).trans_le (Nat.zero_le _), fun heq hready => ?_⟩
      -- A `READY` row has an attempt left, so it does not keep its potential.
      rw [potential_of_terminal rfl, potential_of_ready hready] at heq
      have := hleft hready
      omega
  | fail now terminal error hterminal hworker =>
      have hend : (failedTerminally now terminal error r).state.is_terminal = true := by
        rcases hterminal with rfl | rfl <;> rfl
      refine .of_lt rfl ?_
      rw [potential_of_running (hlawful.running_of_worker hworker), potential_of_terminal hend]
      exact Nat.succ_pos _
  | retry scheduled_at error hworker =>
      refine .of_lt rfl ?_
      rw [potential_of_running (hlawful.running_of_worker hworker), potential_of_ready rfl]
      exact Nat.lt_succ_self _
  | reap hrunning =>
      refine .of_lt rfl ?_
      rw [potential_of_running hrunning, potential_of_ready rfl]
      exact Nat.lt_succ_self _
  | cancel now hactive =>
      refine ⟨rfl, (potential_of_terminal rfl).trans_le (Nat.zero_le _), fun heq hready => ?_⟩
      rw [potential_of_terminal rfl, potential_of_ready hready] at heq
      have := hleft hready
      omega

/-- What one operation does to a row wanes it. -/
theorem RowChange.wanes (h : RowChange r r') (hlawful : r.Lawful)
    (hleft : r.state = .READY → r.attempt < r.max_attempts) : r.Wanes r' := by
  cases h with
  | none => exact .refl r
  | step h => exact h.wanes hlawful hleft
  | unblock hpending =>
      refine ⟨unblocked_id r, ?_, fun _ hready => ?_⟩
      · obtain ⟨-, -, hmax, hattempt⟩ := unblocked_cases r
        rw [potential_of_pending hpending]
        rcases unblocked_state r hpending with hstate | hstate
        · rw [potential_of_pending hstate, hmax, hattempt]
        · rw [potential_of_ready hstate, hmax, hattempt]
      · rw [hpending] at hready
        cases hready

/-! ## Whole databases -/

/-- The rows of the one are the rows of the other, later. -/
def Db.Wanes (db db' : Db) : Prop :=
  ∃ g : TaskRun → TaskRun, db'.task_runs.rows = db.task_runs.rows.map g ∧
    ∀ r ∈ db.task_runs.rows, r.Wanes (g r)

theorem Db.Wanes.refl (db : Db) : db.Wanes db :=
  ⟨id, (List.map_id _).symm, fun r _ => .refl r⟩

theorem Db.Wanes.trans {db'' : Db} (h : db.Wanes db') (h' : db'.Wanes db'') : db.Wanes db'' := by
  obtain ⟨g, hrows, hwanes⟩ := h
  obtain ⟨g', hrows', hwanes'⟩ := h'
  refine ⟨g' ∘ g, by rw [hrows', hrows, List.map_map], fun r hr => ?_⟩
  exact (hwanes r hr).trans (hwanes' (g r) (hrows ▸ List.mem_map_of_mem hr))

/-- The row of the same task, later. -/
theorem Db.Wanes.row (h : db.Wanes db') {r r' : TaskRun} (hr : r ∈ db.task_runs.rows)
    (hr' : r' ∈ db'.task_runs.rows) (hid : r'.id = r.id) : r.Wanes r' := by
  obtain ⟨g, hrows, hwanes⟩ := h
  rw [hrows] at hr'
  obtain ⟨s, hs, rfl⟩ := List.mem_map.mp hr'
  obtain rfl := db.task_runs.eq_of_key hs hr ((hwanes s hs).id.symm.trans hid)
  exact hwanes s hs

theorem Db.Wanes.le (h : db.Wanes db') : db'.potential ≤ db.potential := by
  obtain ⟨g, hrows, hwanes⟩ := h
  unfold Db.potential
  rw [hrows, List.map_map]
  exact List.sum_le_sum (fun r hr => (hwanes r hr).le)

/-- One row that goes down takes the sum down. -/
theorem Db.Wanes.lt (h : db.Wanes db') {r r' : TaskRun} (hr : r ∈ db.task_runs.rows)
    (hr' : r' ∈ db'.task_runs.rows) (hid : r'.id = r.id) (hlt : r'.potential < r.potential) :
    db'.potential < db.potential := by
  have hrow := h
  obtain ⟨g, hrows, hwanes⟩ := h
  have hg : g r = r' := by
    have hmem : g r ∈ db'.task_runs.rows := hrows ▸ List.mem_map_of_mem hr
    exact db'.task_runs.eq_of_key hmem hr' ((hwanes r hr).id.trans hid.symm)
  unfold Db.potential
  rw [hrows, List.map_map]
  exact List.sum_lt_sum _ _ (fun s hs => (hwanes s hs).le) ⟨r, hr, by rwa [Function.comp, hg]⟩

/-- Every row is still there. -/
theorem Db.Wanes.exists_row (h : db.Wanes db') {r : TaskRun} (hr : r ∈ db.task_runs.rows) :
    ∃ r' ∈ db'.task_runs.rows, r'.id = r.id := by
  obtain ⟨g, hrows, hwanes⟩ := h
  exact ⟨g r, hrows ▸ List.mem_map_of_mem hr, (hwanes r hr).id⟩

/-! ## One operation -/

/-- The operation starts a run. -/
def Op.submits : Op → Bool
  | .submit .. => true
  | _ => false

/-- **No operation raises the potential,** unless it brings new tasks. -/
theorem serve_wanes (hinv : Inv checks db) (hb : db.Budgeted) {op : Op}
    (hop : op.submits = false) : db.Wanes (serve checks db op) := by
  cases hqueue : op.isQueue with
  | true =>
      obtain ⟨g, -, hstep⟩ := serve_outcome hinv hqueue
      exact ⟨g, hstep.rewritten.rows, fun r hr =>
        (hstep.rewritten.change r hr).wanes (hinv.good.lawful r hr) (hb r hr)⟩
  | false =>
      cases op with
      | publish ids now name specs description =>
          obtain ⟨_, _, _, hserve⟩ := serve_publish_frame checks db ids now name specs description
          rw [hserve]
          exact .refl db
      | submit => cases hop
      | _ => cases hqueue

/-- Terminal rows stay as they are. -/
theorem serve_drained (hinv : Inv checks db) (hdrained : db.Drained) {op : Op}
    (hop : op.submits = false) : (serve checks db op).Drained := by
  cases hqueue : op.isQueue with
  | true =>
      obtain ⟨g, -, hstep⟩ := serve_outcome hinv hqueue
      intro r' hr'
      obtain ⟨r, hr, rfl⟩ := hstep.rewritten.mem_rows.mp hr'
      rw [RowStep.eq_of_terminal (hstep.rewritten.change r hr).steps (hinv.good.lawful r hr)
        (hdrained r hr)]
      exact hdrained r hr
  | false =>
      cases op with
      | publish ids now name specs description =>
          obtain ⟨_, _, _, hserve⟩ := serve_publish_frame checks db ids now name specs description
          rw [hserve]
          exact hdrained
      | submit => cases hop
      | _ => cases hqueue

/-- A claim picks something when something is due. -/
theorem exists_picked {now : Time} {limit : ℕ} (tie : UUID → ℕ) (hr : r ∈ db.task_runs.rows)
    (hready : r.state = .READY) (hdue : r.scheduled_at ≤ now) (hlimit : 0 < limit) :
    ∃ p ∈ db.task_runs.rows, picked tie now limit db p = true := by
  have hclaimable : r ∈ (db.task_runs.rows.filter (claimable now)).insertionSort
      (claimBefore tie) := by
    rw [List.mem_insertionSort]
    exact List.mem_filter.mpr ⟨hr, by simp [claimable, hready, hdue]⟩
  -- The first candidate is among the first `limit` of them.
  obtain ⟨p, rest, hsorted⟩ := List.exists_cons_of_ne_nil (List.ne_nil_of_mem hclaimable)
  have hp : p ∈ (db.task_runs.rows.filter (claimable now)).insertionSort (claimBefore tie) := by
    rw [hsorted]
    exact List.mem_cons_self
  have hcandidate : p.id ∈ candidates tie now limit db.task_runs.rows := by
    obtain ⟨n, rfl⟩ := Nat.exists_eq_succ_of_ne_zero hlimit.ne'
    rw [candidates, hsorted, List.take_succ_cons, List.map_cons]
    exact List.mem_cons_self
  exact ⟨p, (List.mem_filter.mp ((List.mem_insertionSort _).mp hp)).1,
    decide_eq_true hcandidate⟩

/-- A claim that finds something due lowers the potential. -/
theorem potential_claim (hinv : Inv checks db) (hb : db.Budgeted) {lease_seconds : ℚ}
    {clock : Clock} {tie : UUID → ℕ} {worker_id : String} {limit : ℕ}
    (hr : r ∈ db.task_runs.rows) (hready : r.state = .READY)
    (hdue : r.scheduled_at ≤ clock.utcnow) (hlimit : 0 < limit) :
    (serve checks db (.claim lease_seconds clock tie worker_id limit)).potential
      < db.potential := by
  obtain ⟨p, hp, hpicked⟩ := exists_picked tie hr hready hdue hlimit
  obtain ⟨-, -, -, hstep⟩ := serve_claim hinv lease_seconds clock tie worker_id limit
    (fun _ => hb.withinBudget tie clock.utcnow limit)
  have hmem := hstep.rewritten.mem_rows.mpr ⟨p, hp, rfl⟩
  rw [if_pos hpicked] at hmem
  have hstate := picked_state hp hpicked
  exact (serve_wanes hinv hb rfl).lt hp hmem rfl (potential_claimed hstate (hb p hp hstate) _ _ _)

/-- The operation ends the attempt at a running row: its worker reports, the run is
cancelled, or the reaper sees the lease expired. -/
def Frees (r : TaskRun) : Op → Prop
  | .success _ task_run_id worker_id _ => r.id = task_run_id ∧ r.worker_id = some worker_id
  | .failure _ _ task_run_id worker_id _ => r.id = task_run_id ∧ r.worker_id = some worker_id
  | .reap clock => leaseExpired clock.utcnow r = true
  | .cancel _ run_id => r.run_id = run_id
  | _ => False

/-- After that the row is not running. -/
theorem freed_row (hinv : Inv checks db) {op : Op} (hr : r ∈ db.task_runs.rows)
    (hrunning : r.state = .RUNNING) (hfrees : Frees r op) :
    ∃ r' ∈ (serve checks db op).task_runs.rows, r'.id = r.id ∧ r'.state ≠ .RUNNING := by
  have hqueue : op.isQueue = true := by
    cases op <;> first | rfl | exact hfrees.elim
  obtain ⟨g, hout, hstep⟩ := serve_outcome hinv hqueue
  have hid := (hstep.rewritten.change r hr).keeps.1
  refine ⟨g r, hstep.rewritten.mem_rows.mpr ⟨r, hr, rfl⟩, hid, ?_⟩
  cases hout with
  | claimed | refused | renewed | refreshed => exact hfrees.elim
  | succeeded clock task_run_id worker_id output hrow hheld =>
      obtain ⟨hmem, hkey⟩ := Table.get_eq_some.mp hrow
      obtain rfl := db.task_runs.eq_of_key hr hmem (hfrees.1.trans hkey.symm)
      rw [afterSuccess, if_pos rfl]
      exact fun hstate => by cases hstate
  | lateSuccess clock task_run_id worker_id output hlost =>
      have hheld := heldBy_iff.mpr ⟨hfrees.1, hfrees.2, hrunning⟩
      rw [hlost r hr] at hheld
      cases hheld
  | retried clock uniform task_run_id worker_id error delay hrow hworker hlt =>
      dsimp only
      rw [if_pos (ownedBy_iff.mpr hfrees)]
      exact fun hstate => by cases hstate
  | failed clock uniform task_run_id worker_id error tasks hrow hworker hge hsound =>
      obtain ⟨hmem, hkey⟩ := Table.get_eq_some.mp hrow
      obtain rfl := db.task_runs.eq_of_key hr hmem (hfrees.1.trans hkey.symm)
      rw [afterFailure, if_pos rfl]
      exact fun hstate => by cases hstate
  | lateFailure clock uniform task_run_id worker_id error hlost =>
      exact absurd hfrees.2 (hlost r (Table.get_eq_some.mpr ⟨hr, hfrees.1⟩))
  | reaped clock =>
      have hexpired : leaseExpired clock.utcnow r = true := hfrees
      dsimp only
      rw [if_pos hexpired]
      exact fun hstate => by cases hstate
  | cancelled clock run_id =>
      have hcancellable : cancellable run_id r = true :=
        cancellable_iff.mpr ⟨hfrees, by rw [hrunning]; decide⟩
      dsimp only
      rw [if_pos hcancellable]
      exact fun hstate => by cases hstate

/-! ## Attended courses -/

/-- The databases along an infinite schedule of operations. -/
def course (checks : Bool) (db : Db) (schedule : ℕ → Op) : ℕ → Db
  | 0 => db
  | n + 1 => serve checks (course checks db schedule n) (schedule n)

theorem course_reachable (h : Reachable checks db) (schedule : ℕ → Op) (n : ℕ) :
    Reachable checks (course checks db schedule n) := by
  induction n with
  | zero => exact h
  | succ n ih => exact ih.serve _

/-- What the processes around the queue owe it. -/
structure Attended (checks : Bool) (db : Db) (schedule : ℕ → Op) : Prop where
  closed : ∀ n, (schedule n).submits = false
  spared : ∀ n, SparesLastAttempts (course checks db schedule n) (schedule n)
  /-- Somebody claims again and again, and time goes on. -/
  claims : ∀ n (t : Time), ∃ m, n ≤ m ∧ ∃ lease_seconds clock tie worker_id limit,
    schedule m = .claim lease_seconds clock tie worker_id limit ∧ 0 < limit ∧ t ≤ clock.utcnow
  /-- No task is left running for ever. -/
  freed : ∀ n, ∀ r ∈ (course checks db schedule n).task_runs.rows, r.state = .RUNNING →
    ∃ m, n ≤ m ∧ ∃ r' ∈ (course checks db schedule m).task_runs.rows, r'.id = r.id ∧
      (r'.state ≠ .RUNNING ∨ Frees r' (schedule m))

variable {schedule : ℕ → Op}

/-- What holds along an attended course. -/
structure Db.Kept (checks : Bool) (db : Db) : Prop where
  inv : Inv checks db
  budgeted : db.Budgeted

theorem course_kept (hreach : Reachable checks db) (hb : db.Budgeted)
    (h : Attended checks db schedule) (n : ℕ) : (course checks db schedule n).Kept checks := by
  have hinv := fun n => (course_reachable hreach schedule n).inv
  refine ⟨hinv n, ?_⟩
  induction n with
  | zero => exact hb
  | succ n ih => exact (budgeted_serve_iff (hinv n) ih _).mpr (h.spared n)

theorem course_wanes (hreach : Reachable checks db) (hb : db.Budgeted)
    (h : Attended checks db schedule) {n m : ℕ} (hnm : n ≤ m) :
    (course checks db schedule n).Wanes (course checks db schedule m) := by
  refine related_of_steps Db.Wanes.refl (fun _ _ _ => Db.Wanes.trans) (fun n => ?_) hnm
  have hkept := course_kept hreach hb h n
  exact serve_wanes hkept.inv hkept.budgeted (h.closed n)

/-- A task that is running lowers the potential in the end. -/
theorem potential_of_attended_running (hreach : Reachable checks db) (hb : db.Budgeted)
    (h : Attended checks db schedule) {n : ℕ}
    (hr : r ∈ (course checks db schedule n).task_runs.rows) (hrunning : r.state = .RUNNING) :
    ∃ m, n ≤ m ∧
      (course checks db schedule m).potential < (course checks db schedule n).potential := by
  obtain ⟨m, hnm, r', hr', hid, hfreed⟩ := h.freed n r hr hrunning
  -- At some moment the row does not run; then its potential is even, and it was odd.
  have hstopped : ∃ k, n ≤ k ∧ ∃ s ∈ (course checks db schedule k).task_runs.rows, s.id = r.id ∧
      s.state ≠ .RUNNING := by
    by_cases hstill : r'.state = .RUNNING
    · have hfrees := hfreed.resolve_left (fun hnot => hnot hstill)
      obtain ⟨s, hs, hsid, hstate⟩ :=
        freed_row (course_kept hreach hb h m).inv hr' hstill hfrees
      exact ⟨m + 1, hnm.trans (Nat.le_succ m), s, hs, hsid.trans hid, hstate⟩
    · exact ⟨m, hnm, r', hr', hid, hstill⟩
  obtain ⟨k, hnk, s, hs, hsid, hstate⟩ := hstopped
  have hwanes := course_wanes hreach hb h hnk
  have hle := (hwanes.row hr hs hsid).le
  have hodd := potential_odd.mpr hrunning
  have heven : ¬ s.potential % 2 = 1 := fun he => hstate (potential_odd.mp he)
  exact ⟨k, hnk, hwanes.lt hr hs hsid (by omega)⟩

/-- A task that is ready lowers the potential in the end, or another one does before. -/
theorem potential_of_attended_ready (hreach : Reachable checks db) (hb : db.Budgeted)
    (h : Attended checks db schedule) {n : ℕ}
    (hr : r ∈ (course checks db schedule n).task_runs.rows) (hready : r.state = .READY) :
    ∃ m, n ≤ m ∧
      (course checks db schedule m).potential < (course checks db schedule n).potential := by
  obtain ⟨m, hnm, lease_seconds, clock, tie, worker_id, limit, hclaim, hlimit, hdue⟩ :=
    h.claims n r.scheduled_at
  have hwanes := course_wanes hreach hb h hnm
  obtain ⟨r', hr', hid⟩ := hwanes.exists_row hr
  have hrow := hwanes.row hr hr' hid
  rcases hrow.le.lt_or_eq with hlt | heq
  · exact ⟨m, hnm, hwanes.lt hr hr' hid hlt⟩
  -- The row has been left alone, and it is due.
  · obtain ⟨hready', hscheduled⟩ := hrow.ready heq hready
    have hkept := course_kept hreach hb h m
    refine ⟨m + 1, hnm.trans (Nat.le_succ m), ?_⟩
    rw [course, hclaim]
    rw [← hscheduled] at hdue
    exact (potential_claim hkept.inv hkept.budgeted hr' hready' hdue hlimit).trans_le hwanes.le

/-- From any moment an attended course comes to one where every task has ended. -/
theorem attended_leadsTo (hreach : Reachable checks db) (hb : db.Budgeted)
    (h : Attended checks db schedule) :
    LeadsTo (course checks db schedule) (fun _ => True) Db.Drained := by
  refine LeadsTo.of_measure Db.potential (fun b n hn => ?_)
  obtain ⟨-, rfl⟩ := hn
  by_cases hdrained : (course checks db schedule n).Drained
  · exact ⟨n, le_refl n, Or.inl hdrained⟩
  -- Some task is `RUNNING` or `READY`, for a `PENDING` one has such a task above it.
  · unfold Db.Drained at hdrained
    push Not at hdrained
    obtain ⟨r, hr, hactive⟩ := hdrained
    have hinv' := (course_kept hreach hb h n).inv
    have hsome : ∃ s ∈ (course checks db schedule n).task_runs.rows,
        s.state = .READY ∨ s.state = .RUNNING := by
      rcases (hinv'.good.lawful r hr).active_cases (by simpa using hactive) with hs | hs | hs
      · obtain ⟨s, hmem, -, -, hstate⟩ := hinv'.active_above hr hs
        exact ⟨s, hmem, hstate⟩
      · exact ⟨r, hr, Or.inl hs⟩
      · exact ⟨r, hr, Or.inr hs⟩
    obtain ⟨s, hs, hstate | hstate⟩ := hsome
    · obtain ⟨m, hnm, hlt⟩ := potential_of_attended_ready hreach hb h hs hstate
      exact ⟨m, hnm, Or.inr ⟨trivial, hlt⟩⟩
    · obtain ⟨m, hnm, hlt⟩ := potential_of_attended_running hreach hb h hs hstate
      exact ⟨m, hnm, Or.inr ⟨trivial, hlt⟩⟩

/-- **The queue drains.** From a reachable database within its budget every attended
course comes to a moment from which on every task is terminal, and with them every run. -/
theorem queue_drains (hreach : Reachable checks db) (hb : db.Budgeted)
    (h : Attended checks db schedule) :
    ∃ n, ∀ m, n ≤ m →
      (∀ r ∈ (course checks db schedule m).task_runs.rows, r.state.is_terminal = true) ∧
      ∀ run ∈ (course checks db schedule m).workflow_runs.rows,
        (derive_run_state ((course checks db schedule m).taskStates run.id)).is_terminal
          = true := by
  have hstable : Stable (course checks db schedule) Db.Drained := fun n hdrained =>
    serve_drained (course_reachable hreach schedule n).inv hdrained (h.closed n)
  obtain ⟨n, hlater⟩ := (attended_leadsTo hreach hb h).finally hstable trivial
  refine ⟨n, fun m hnm => ⟨hlater m hnm, fun run hrun => ?_⟩⟩
  have hended := (no_hung_run (course_reachable hreach schedule m)).2 run hrun
  refine (hended (fun r hr => ?_)).2
  have hterminal := hlater m hnm r (Db.mem_runTasks.mp hr).1
  constructor <;> intro hstate <;> rw [hstate] at hterminal <;> cases hterminal

/-! ## A task that fails once -/

/-- Claims at all even moments. The first attempt fails, every later report is a
success. -/
def failsOnce (n : ℕ) : Op :=
  if n % 2 = 0 then claimAt n "w1"
  else if n = 1 then .failure (clockAt 1) (fun x => x) 12 "w1" "boom"
  else .success (clockAt n) 12 "w1" none

/-- Its first attempt starts at once, the second when the delay of the retry is over. -/
theorem failsOnce_running : ∀ n < 8,
    ∀ r ∈ (course true (served true (soloStart retryOnce)) failsOnce n).task_runs.rows,
      r.state = .RUNNING → (n = 1 ∨ n = 7) ∧ r.id = 12 ∧ r.worker_id = some "w1" := by
  decide +kernel

theorem failsOnce_attended :
    Attended true (served true (soloStart retryOnce)) failsOnce where
  closed n := by
    unfold failsOnce
    split
    · rfl
    · split <;> rfl
  spared n := by
    unfold failsOnce
    split
    · trivial
    · split <;> trivial
  claims n t := by
    obtain ⟨k, hk⟩ := exists_nat_ge t
    refine ⟨2 * (n + k), by omega, 30, clockAt (2 * (n + k) : ℕ), fun _ => 0, "w1", 1, ?_,
      one_pos, ?_⟩
    · unfold failsOnce
      rw [if_pos (Nat.mul_mod_right 2 _)]
      rfl
    · have hle : k ≤ 2 * (n + k) := by omega
      exact hk.trans (Nat.cast_le.mpr hle)
  freed n r hr hrunning := by
    rcases Nat.lt_or_ge n 8 with hn | hn
    · obtain ⟨rfl | rfl, hid, hworker⟩ := failsOnce_running n hn r hr hrunning
      · exact ⟨1, le_refl _, r, hr, rfl, Or.inr ⟨hid, hworker⟩⟩
      · exact ⟨7, le_refl _, r, hr, rfl, Or.inr ⟨hid, hworker⟩⟩
    -- After eight operations the task has succeeded.
    · have hdrained : (course true (served true (soloStart retryOnce)) failsOnce n).Drained := by
        refine Stable.later (P := Db.Drained) (fun n hdrained => ?_) hn ?_
        · refine serve_drained (course_reachable (reachable_served true _) _ n).inv hdrained ?_
          unfold failsOnce
          split
          · rfl
          · split <;> rfl
        · unfold Db.Drained
          decide +kernel
      have hterminal := hdrained r hr
      rw [hrunning] at hterminal
      cases hterminal

/-- The second attempt brings it to its end. -/
theorem queue_drains_after_failure : ∃ n, ∀ m, n ≤ m →
    ∀ r ∈ (course true (served true (soloStart retryOnce)) failsOnce m).task_runs.rows,
      r.state.is_terminal = true := by
  obtain ⟨n, hlater⟩ := queue_drains (reachable_served true (soloStart retryOnce))
    (by decide +kernel) failsOnce_attended
  exact ⟨n, fun m hnm => (hlater m hnm).1⟩

end Conductor
