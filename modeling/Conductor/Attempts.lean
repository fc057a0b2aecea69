/-
The audit trail: `task_attempts`.

A task row and its attempt rows form a trail. `TrailStep` says everything that one
operation can do to a trail: leave the attempt rows alone, open the next one, or
close the one that is open; and, for `cancel`, end the task row without a look at
its attempt rows. Whatever is known of attempt rows is proved for one trail along
`TrailStep` and then read off for every task row of a reachable database.
-/
import Conductor.Service

set_option autoImplicit false

open Relational Txn

namespace Conductor

open RunRepository TaskQueueRepository WorkflowRepository

/-! ## Trails -/

/-- The attempt rows of a task row. -/
def Db.attemptsOf (db : Db) (task_run_id : UUID) : List TaskAttempt :=
  db.task_attempts.rows.filter (fun a => a.task_run_id = task_run_id)

/-- An attempt row after `_close_attempt` for the current attempt of `r`. -/
def closing (now : Time) (state : TaskState) (error : Option String) (r : TaskRun)
    (a : TaskAttempt) : TaskAttempt :=
  if openAttempt r.id r.attempt a then closedAttempt now state error a else a

/-- What one operation does to a task row together with its attempt rows. -/
inductive TrailStep (op : Op) :
    TaskRun → List TaskAttempt → TaskRun → List TaskAttempt → Prop where
  -- A renewal, a decrement, a release, a block, or nothing at all.
  | quiet {r r' : TaskRun} (as : List TaskAttempt) (hid : r'.id = r.id)
      (hattempt : r'.attempt = r.attempt) (hworker : r'.worker_id = r.worker_id)
      (hstate : r'.state = r.state ∨ (r.state = .PENDING ∨ r.state = .READY) ∧
        (r'.state = .READY ∨ r'.state = .BLOCKED)) :
      TrailStep op r as r' as
  | opened {r : TaskRun} (as : List TaskAttempt) (worker_id : String) (lease_until now : Time)
      (h : r.state = .READY) :
      TrailStep op r as (claimed worker_id lease_until now r)
        (as ++ [newAttempt worker_id now (claimed worker_id lease_until now r)])
  -- A success, a failure of either kind, or a reap.
  | closed {r r' : TaskRun} (as : List TaskAttempt) (now : Time) (state : TaskState)
      (error : Option String) (h : r.state = .RUNNING) (hid : r'.id = r.id)
      (hattempt : r'.attempt = r.attempt) (hstopped : r'.state ≠ .RUNNING)
      (hsucceeded : r'.state = .SUCCEEDED ↔ state = .SUCCEEDED) :
      TrailStep op r as r' (as.map (closing now state error r))
  -- `cancel` writes no attempt row.
  | cancelled {r : TaskRun} (as : List TaskAttempt) (clock : Clock)
      (hop : op = .cancel clock r.run_id)
      (h : r.state ∈ [TaskState.PENDING, .READY, .RUNNING, .RETRYING]) :
      TrailStep op r as (RunRepository.cancelled clock.now r) as

/-- The attempt rows of a task row, as they should be. -/
structure Trail (r : TaskRun) (as : List TaskAttempt) : Prop where
  own : ∀ a ∈ as, a.task_run_id = r.id
  /-- The rows carry the numbers `1, 2, …, r.attempt`, in the order in which they
  were inserted. -/
  numbers : as.map TaskAttempt.attempt = (List.range r.attempt.toNat).map (fun n : ℕ => (n : ℤ) + 1)
  closed : ∀ a ∈ as, a.attempt < r.attempt → a.finished_at.isSome = true
  /-- The last row of a running task is open, and its worker's. -/
  running : r.state = .RUNNING → ∀ a ∈ as, a.attempt = r.attempt →
    a.finished_at = none ∧ r.worker_id = some a.worker_id
  /-- An open row is the last row of a task that runs or was cancelled. -/
  unfinished : ∀ a ∈ as, a.finished_at = none → r.state = .RUNNING ∨ r.state = .CANCELLED
  succeeded : ∀ a ∈ as, a.state = .SUCCEEDED ↔ r.state = .SUCCEEDED ∧ a.attempt = r.attempt

variable {op : Op} {r r' : TaskRun} {as as' : List TaskAttempt}

@[simp] theorem closing_task_run_id (now : Time) (state : TaskState) (error : Option String)
    (a : TaskAttempt) : (closing now state error r a).task_run_id = a.task_run_id := by
  unfold closing
  split <;> rfl

@[simp] theorem closing_attempt (now : Time) (state : TaskState) (error : Option String)
    (a : TaskAttempt) : (closing now state error r a).attempt = a.attempt := by
  unfold closing
  split <;> rfl

/-- The row that is open is closed. -/
theorem closing_open {now : Time} {state : TaskState} {error : Option String} {a : TaskAttempt}
    (hown : a.task_run_id = r.id) (hattempt : a.attempt = r.attempt)
    (hopen : a.finished_at = none) :
    closing now state error r a = closedAttempt now state error a := by
  simp [closing, openAttempt, hown, hattempt, hopen]

/-- A row of an earlier attempt is left alone. -/
theorem closing_earlier {now : Time} {state : TaskState} {error : Option String} {a : TaskAttempt}
    (hattempt : a.attempt ≠ r.attempt) : closing now state error r a = a := by
  simp [closing, openAttempt, hattempt]

/-- A closed row is left alone. -/
theorem closing_closed {now : Time} {state : TaskState} {error : Option String} {a : TaskAttempt}
    (hclosed : a.finished_at.isSome = true) : closing now state error r a = a := by
  have hopen : openAttempt r.id r.attempt a = false := by
    simp [openAttempt, hclosed]
  simp [closing, hopen]

namespace Trail

theorem mem_numbers (h : Trail r as) {n : ℤ} :
    (∃ a ∈ as, a.attempt = n) ↔ 1 ≤ n ∧ n ≤ r.attempt := by
  have hmem : (∃ a ∈ as, a.attempt = n) ↔ n ∈ as.map TaskAttempt.attempt := by
    rw [List.mem_map]
  rw [hmem, h.numbers, List.mem_map]
  constructor
  · rintro ⟨m, hm, rfl⟩
    rw [List.mem_range] at hm
    omega
  · rintro ⟨h1, hn⟩
    refine ⟨(n - 1).toNat, ?_, ?_⟩
    · rw [List.mem_range]
      omega
    · omega

theorem attempt_le (h : Trail r as) {a : TaskAttempt} (ha : a ∈ as) : a.attempt ≤ r.attempt :=
  (h.mem_numbers.mp ⟨a, ha, rfl⟩).2

/-- A task that nobody has claimed yet has no attempt rows. -/
theorem nil (h : r.attempt = 0) : Trail r [] := by
  refine ⟨?_, ?_, ?_, ?_, ?_, ?_⟩
  · simp
  · simp [h]
  all_goals simp

/-- Closing the current attempt of a running task leaves no row open. -/
theorem closing_finished (h : Trail r as) (hrunning : r.state = .RUNNING) (now : Time)
    (state : TaskState) (error : Option String) :
    ∀ b ∈ as.map (closing now state error r), b.finished_at.isSome = true := by
  intro b hb
  obtain ⟨a, ha, rfl⟩ := List.mem_map.mp hb
  by_cases hn : a.attempt = r.attempt
  · rw [closing_open (h.own a ha) hn (h.running hrunning a ha hn).1]
    rfl
  · rw [closing_earlier hn]
    exact h.closed a ha (lt_of_le_of_ne (h.attempt_le ha) hn)

/-- **Every operation keeps a trail in order.** -/
theorem step (h : Trail r as) (hr : r.Lawful) (hstep : TrailStep op r as r' as') : Trail r' as' := by
  cases hstep with
  | quiet _ hid hattempt hworker hstate =>
      have hrunning : r'.state = .RUNNING → r.state = .RUNNING := by
        intro hr'
        rcases hstate with hs | ⟨-, hs | hs⟩
        · rw [← hs, hr']
        · rw [hs] at hr'
          cases hr'
        · rw [hs] at hr'
          cases hr'
      have hunfinished : r.state = .RUNNING ∨ r.state = .CANCELLED → r'.state = r.state := by
        rcases hstate with hs | ⟨hs | hs, -⟩
        · exact fun _ => hs
        · simp [hs]
        · simp [hs]
      have hsucceeded : r'.state = .SUCCEEDED ↔ r.state = .SUCCEEDED := by
        rcases hstate with hs | ⟨hs | hs, hs' | hs'⟩
        · rw [hs]
        all_goals simp [hs, hs']
      refine ⟨fun a ha => (h.own a ha).trans hid.symm, by rw [hattempt]; exact h.numbers,
        fun a ha hlt => h.closed a ha (hattempt ▸ hlt), fun hr' a ha hn => ?_, fun a ha ho => ?_,
        fun a ha => ?_⟩
      · rw [hworker]
        exact h.running (hrunning hr') a ha (hn.trans hattempt)
      · rw [hunfinished (h.unfinished a ha ho)]
        exact h.unfinished a ha ho
      · rw [hsucceeded, hattempt]
        exact h.succeeded a ha
  | opened _ worker_id lease_until now hready =>
      -- Every row that was there is closed: an open one belongs to a task that
      -- runs or was cancelled.
      have hclosed : ∀ a ∈ as, a.finished_at.isSome = true := by
        intro a ha
        by_contra hopen
        rw [Option.not_isSome_iff_eq_none] at hopen
        rcases h.unfinished a ha hopen with hs | hs <;> simp [hready] at hs
      have hlt : ∀ a ∈ as, a.attempt ≠ r.attempt + 1 := fun a ha => by
        have := h.attempt_le ha
        omega
      refine ⟨fun a ha => ?_, ?_, fun a ha hn => ?_, fun _ a ha hn => ?_, fun _ _ _ => Or.inl rfl,
        fun a ha => ?_⟩
      · rcases List.mem_append.mp ha with ha | ha
        · exact h.own a ha
        · rw [List.mem_singleton.mp ha]
          rfl
      · have hpos := hr.attempt_nonneg
        have hnat : (r.attempt + 1).toNat = r.attempt.toNat + 1 := by omega
        have hlast : ((r.attempt.toNat : ℕ) : ℤ) + 1 = r.attempt + 1 := by omega
        rw [List.map_append, h.numbers]
        show _ = (List.range (r.attempt + 1).toNat).map _
        rw [hnat, List.range_succ, List.map_append, List.map_singleton, List.map_singleton, hlast]
        rfl
      · rcases List.mem_append.mp ha with ha | ha
        · exact hclosed a ha
        · rw [List.mem_singleton.mp ha] at hn
          exact absurd hn (lt_irrefl _)
      · rcases List.mem_append.mp ha with ha | ha
        · exact absurd hn (hlt a ha)
        · rw [List.mem_singleton.mp ha]
          exact ⟨rfl, rfl⟩
      · rcases List.mem_append.mp ha with ha | ha
        · rw [h.succeeded a ha, hready]
          simp [claimed]
        · rw [List.mem_singleton.mp ha]
          simp [newAttempt, claimed]
  | closed _ now state error hrunning hid hattempt hstopped hsucceeded =>
      have hfinished := h.closing_finished hrunning now state error
      refine ⟨fun b hb => ?_, ?_, fun b hb _ => hfinished b hb, fun hr' => absurd hr' hstopped,
        fun b hb ho => ?_, fun b hb => ?_⟩
      · obtain ⟨a, ha, rfl⟩ := List.mem_map.mp hb
        rw [closing_task_run_id, hid]
        exact h.own a ha
      · have hmap : as.map (TaskAttempt.attempt ∘ closing now state error r)
            = as.map TaskAttempt.attempt :=
          List.map_congr_left (fun a _ => closing_attempt now state error a)
        rw [List.map_map, hmap, hattempt]
        exact h.numbers
      · have hsome := hfinished b hb
        rw [ho] at hsome
        cases hsome
      · -- The row of the current attempt gets `state`, the others stay.
        obtain ⟨a, ha, rfl⟩ := List.mem_map.mp hb
        rw [closing_attempt, hattempt]
        by_cases hn : a.attempt = r.attempt
        · rw [closing_open (h.own a ha) hn (h.running hrunning a ha hn).1, hsucceeded]
          exact (and_iff_left hn).symm
        · rw [closing_earlier hn, h.succeeded a ha]
          exact iff_of_false (fun hs => hn hs.2) (fun hs => hn hs.2)
  | cancelled _ clock _ hcancel =>
      have hne : r.state ≠ .SUCCEEDED := by
        intro hs
        rw [hs] at hcancel
        exact absurd hcancel (by decide)
      refine ⟨h.own, h.numbers, h.closed, fun hr' => ?_, fun _ _ _ => Or.inr rfl, fun a ha => ?_⟩
      · exact absurd hr' (by simp [RunRepository.cancelled])
      · rw [h.succeeded a ha]
        exact iff_of_false (fun hs => hne hs.1) (fun hs => by simp [RunRepository.cancelled] at hs)

end Trail

/-- **A closed row is never touched again.** -/
theorem TrailStep.closed_kept (hstep : TrailStep op r as r' as') {a : TaskAttempt} (ha : a ∈ as)
    (hclosed : a.finished_at.isSome = true) : a ∈ as' := by
  cases hstep with
  | quiet => exact ha
  | opened => exact List.mem_append_left _ ha
  | closed _ now state error =>
      have hkept : closing now state error r a = a := closing_closed hclosed
      rw [← hkept]
      exact List.mem_map_of_mem ha
  | cancelled => exact ha

/-! ## What the operations do to a trail -/

variable {checks : Bool} {db db' : Db} {g : TaskRun → TaskRun}

theorem mem_attemptsOf {task_run_id : UUID} {a : TaskAttempt} :
    a ∈ db.attemptsOf task_run_id ↔ a ∈ db.task_attempts.rows ∧ a.task_run_id = task_run_id := by
  simp [Db.attemptsOf]

theorem attemptsOf_map {f h : TaskAttempt → TaskAttempt} {task_run_id : UUID}
    (hrows : db'.task_attempts.rows = db.task_attempts.rows.map f)
    (hkeep : ∀ a, (f a).task_run_id = a.task_run_id)
    (hagree : ∀ a, a.task_run_id = task_run_id → f a = h a) :
    db'.attemptsOf task_run_id = (db.attemptsOf task_run_id).map h := by
  unfold Db.attemptsOf
  rw [hrows, List.filter_map]
  have hfilter : (fun a : TaskAttempt => decide (a.task_run_id = task_run_id)) ∘ f
      = fun a => decide (a.task_run_id = task_run_id) := by
    funext a
    rw [Function.comp_apply, hkeep]
  rw [hfilter]
  refine List.map_congr_left (fun a ha => hagree a ?_)
  simpa using (List.mem_filter.mp ha).2

/-- Rows of other tasks are left alone. -/
theorem closing_other {now : Time} {state : TaskState} {error : Option String} {row : TaskRun}
    {a : TaskAttempt} (hne : a.task_run_id ≠ row.id) : closing now state error row a = a := by
  simp [closing, openAttempt, hne]

/-- The attempt row of `row` is closed, and nothing else happens to attempt rows. -/
theorem attemptsOf_closing {now : Time} {state : TaskState} {error : Option String} {row : TaskRun}
    (hrows : db'.task_attempts.rows = db.task_attempts.rows.map (closing now state error row)) :
    db'.attemptsOf row.id = (db.attemptsOf row.id).map (closing now state error row) ∧
      ∀ task_run_id, task_run_id ≠ row.id →
        db'.attemptsOf task_run_id = db.attemptsOf task_run_id := by
  have hkeep : ∀ a, (closing now state error row a).task_run_id = a.task_run_id :=
    closing_task_run_id now state error
  refine ⟨attemptsOf_map hrows hkeep (fun _ _ => rfl), fun task_run_id hne => ?_⟩
  have hid : ∀ a : TaskAttempt, a.task_run_id = task_run_id →
      closing now state error row a = id a := fun a ha => closing_other (ha.trans_ne hne)
  rw [attemptsOf_map hrows hkeep hid, List.map_id]

theorem TrailStep.refl (r : TaskRun) (as : List TaskAttempt) : TrailStep op r as r as :=
  .quiet as rfl rfl rfl (Or.inl rfl)

theorem TrailStep.of_unblocked (as : List TaskAttempt) (h : r.state = .PENDING) :
    TrailStep op r as (unblocked r) as := by
  have hcases : (unblocked r).attempt = r.attempt ∧ (unblocked r).worker_id = r.worker_id ∧
      ((unblocked r).state = r.state ∨ (unblocked r).state = .READY) := by
    unfold unblocked
    dsimp only
    split <;> split <;> simp [decremented, released]
  obtain ⟨hattempt, hworker, hstate⟩ := hcases
  refine .quiet as (unblocked_id r) hattempt hworker ?_
  rcases hstate with hs | hs
  · exact Or.inl hs
  · exact Or.inr ⟨Or.inl h, Or.inl hs⟩

/-- The attempt rows after a claim: one more for every row it takes. -/
theorem attemptsOf_claimedDb (hc : db.Claimable) {tie : UUID → ℕ} {clock : Clock} {limit : ℕ}
    {worker_id : String} {lease_until : Time} {r : TaskRun} (hr : r ∈ db.task_runs.rows) :
    (claimedDb tie clock limit worker_id lease_until db).attemptsOf r.id
      = db.attemptsOf r.id ++ if picked tie clock.utcnow limit db r
          then [newAttempt worker_id clock.now (claimed worker_id lease_until clock.now r)]
          else [] := by
  unfold Db.attemptsOf
  rw [claimedDb_attempts hc, List.filter_append]
  congr 1
  unfold newAttempts claimedRows
  rw [List.map_map, List.filter_map, List.filter_filter]
  have hone := db.task_runs.filter_key r.id (picked tie clock.utcnow limit db)
  rw [Table.get_of_mem hr] at hone
  have hsame : db.task_runs.rows.filter (fun s =>
      ((fun a : TaskAttempt => decide (a.task_run_id = r.id)) ∘
        newAttempt worker_id clock.now ∘ claimed worker_id lease_until clock.now) s &&
          picked tie clock.utcnow limit db s)
      = ((some r).filter (picked tie clock.utcnow limit db)).toList := hone
  rw [hsame]
  cases hpicked : picked tie clock.utcnow limit db r <;> simp [Option.filter, hpicked]

/-- The attempt rows after a reap: those of the reaped rows are closed. -/
theorem attemptsOf_reaped {clock : Clock} {row : TaskRun} (hrow : row ∈ db.task_runs.rows)
    (hrows : db'.task_attempts.rows = db.task_attempts.rows.map (fun a =>
      if openAmong (db.task_runs.rows.filter (leaseExpired clock.utcnow)) a
        then closedAttempt clock.now .FAILED (some LEASE_EXPIRED) a else a)) :
    db'.attemptsOf row.id = if leaseExpired clock.utcnow row
      then (db.attemptsOf row.id).map (closing clock.now .FAILED (some LEASE_EXPIRED) row)
      else db.attemptsOf row.id := by
  have hkeep : ∀ a : TaskAttempt, (if openAmong (db.task_runs.rows.filter
      (leaseExpired clock.utcnow)) a then closedAttempt clock.now .FAILED (some LEASE_EXPIRED) a
      else a).task_run_id = a.task_run_id := by
    intro a
    split <;> rfl
  -- Among the reaped rows only `row` itself can own the attempt row.
  have hmatch : ∀ a : TaskAttempt, a.task_run_id = row.id →
      (openAmong (db.task_runs.rows.filter (leaseExpired clock.utcnow)) a = true ↔
        leaseExpired clock.utcnow row = true ∧ openAttempt row.id row.attempt a = true) := by
    intro a ha
    simp only [openAmong, List.any_eq_true, List.mem_filter]
    constructor
    · rintro ⟨s, ⟨hs, hexpired⟩, hopen⟩
      have hid : a.task_run_id = s.id := by
        simp only [openAttempt, Bool.and_eq_true, decide_eq_true_eq] at hopen
        exact hopen.1.1
      rw [db.task_runs.eq_of_key hrow hs (ha.symm.trans hid)]
      exact ⟨hexpired, hopen⟩
    · rintro ⟨hexpired, hopen⟩
      exact ⟨row, ⟨hrow, hexpired⟩, hopen⟩
  split
  · rename_i hexpired
    refine attemptsOf_map hrows hkeep (fun a ha => ?_)
    simp only [hmatch a ha, hexpired, true_and, closing]
  · rename_i hexpired
    have hid : ∀ a : TaskAttempt, a.task_run_id = row.id →
        (if openAmong (db.task_runs.rows.filter (leaseExpired clock.utcnow)) a
          then closedAttempt clock.now .FAILED (some LEASE_EXPIRED) a else a) = id a := by
      intro a ha
      rw [if_neg (fun h => hexpired ((hmatch a ha).mp h).1)]
      rfl
    rw [attemptsOf_map hrows hkeep hid, List.map_id]

/-- A report about the running `row` closes its trail and is quiet on the others. -/
theorem trailStep_report {row row' : TaskRun} {now : Time} {state : TaskState}
    {error : Option String} (hr : r ∈ db.task_runs.rows) (hrow : row ∈ db.task_runs.rows)
    (hrunning : row.state = .RUNNING)
    (hrows : db'.task_attempts.rows = db.task_attempts.rows.map (closing now state error row))
    (hself : g row = row') (hid : row'.id = row.id) (hattempt : row'.attempt = row.attempt)
    (hstopped : row'.state ≠ .RUNNING) (hsucceeded : row'.state = .SUCCEEDED ↔ state = .SUCCEEDED)
    (hother : r.id ≠ row.id → ∀ as, TrailStep op r as (g r) as) :
    TrailStep op r (db.attemptsOf r.id) (g r) (db'.attemptsOf r.id) := by
  obtain ⟨hown, helse⟩ := attemptsOf_closing hrows
  by_cases hkey : r.id = row.id
  · rw [db.task_runs.eq_of_key hr hrow hkey, hown, hself]
    exact .closed _ now state error hrunning hid hattempt hstopped hsucceeded
  · rw [helse r.id hkey]
    exact hother hkey _

/-- **Every queue operation is a step of every trail.** -/
theorem Outcome.trailStep (hinv : Inv checks db) (hout : Outcome checks db op g) {r : TaskRun}
    (hr : r ∈ db.task_runs.rows) :
    TrailStep op r (db.attemptsOf r.id) (g r) ((serve checks db op).attemptsOf r.id) := by
  cases hout with
  -- A claim that takes the row opens an attempt, and is the only one to do so.
  | claimed lease_seconds clock tie worker_id limit hbudget =>
      obtain ⟨results, hexec, -⟩ := serve_claim hinv lease_seconds clock tie worker_id limit hbudget
      have hdb := ((exec_claim_batch hinv.good hinv.claimable lease_seconds clock tie worker_id
        limit).mp hexec).2.2
      dsimp only at hdb ⊢
      rw [hdb, attemptsOf_claimedDb hinv.claimable hr]
      split
      · rename_i hpicked
        exact .opened _ worker_id _ clock.now (picked_state hr hpicked)
      · rw [List.append_nil]
        exact .refl _ _
  | refused lease_seconds clock tie worker_id limit hbudget =>
      rw [(serve_claim_refused hinv lease_seconds clock tie worker_id limit hbudget).2]
      exact .refl _ _
  | renewed lease_seconds clock task_run_id worker_id =>
      rw [serve, commit_ok (exec_renew_lease hinv.good lease_seconds clock task_run_id worker_id)]
      dsimp only
      split
      · exact .quiet _ rfl rfl rfl (Or.inl rfl)
      · exact .refl _ _
  | @succeeded clock task_run_id worker_id output row hrow hheld =>
      obtain ⟨hmem, rfl⟩ := Table.get_eq_some.mp hrow
      rw [serve, commit_ok (exec_record_success_held hinv.good clock output hrow hheld)]
      -- The report closes the open attempt of its row; other rows are released at most.
      refine trailStep_report hr hmem (heldBy_iff.mp hheld).2.2 rfl (if_pos rfl) rfl rfl
        (fun hs => TaskState.noConfusion hs) (iff_of_true rfl rfl) (fun hne as => ?_)
      unfold afterSuccess afterUnblock
      rw [if_neg hne]
      split
      · rename_i hwaiting
        exact .of_unblocked _ (waitingChild_state hwaiting)
      · exact .refl _ _
  | lateSuccess clock task_run_id worker_id output hlost =>
      rw [(serve_success_lost hinv clock output hlost).2]
      exact .refl _ _
  | @retried clock uniform task_run_id worker_id error delay row hrow hworker hlt =>
      obtain ⟨hmem, rfl⟩ := Table.get_eq_some.mp hrow
      obtain ⟨task, policy, htask, hpolicy, hmax⟩ := hinv.policy hmem
      obtain ⟨_, hexec⟩ := exec_record_failure_retry hinv.good clock uniform (walkRounds db) error
        hrow hworker htask hpolicy (hmax ▸ hlt)
      have howned := fun {s : TaskRun} (hs : s ∈ db.task_runs.rows) => ownedBy_eq hmem hworker hs
      -- The statement filters by id and owner, which one row passes.
      have hself : (if ownedBy row.id worker_id row then
          requeuedForRetry (clock.utcnow + delay) error row else row)
          = requeuedForRetry (clock.utcnow + delay) error row :=
        if_pos (by rw [howned hmem, decide_eq_true rfl])
      rw [serve, commit_ok hexec]
      refine trailStep_report (g := fun s => if ownedBy row.id worker_id s then
          requeuedForRetry (clock.utcnow + delay) error s else s) hr hmem
        ((hinv.good.lawful _ hmem).running_of_worker (by rw [hworker]; rfl)) rfl hself rfl rfl
        (fun hs => TaskState.noConfusion hs)
        (iff_of_false (fun hs => TaskState.noConfusion hs) (fun hs => TaskState.noConfusion hs))
        (fun hne as => ?_)
      rw [howned hr, decide_eq_false hne]
      exact .refl _ _
  | @failed clock uniform task_run_id worker_id error tasks row hrow hworker hge hsound =>
      obtain ⟨hmem, rfl⟩ := Table.get_eq_some.mp hrow
      obtain ⟨task, policy, htask, hpolicy, hmax⟩ := hinv.policy hmem
      obtain ⟨_, hexec, -⟩ := exec_record_failure_terminal hinv.good clock uniform error hrow hworker
        htask hpolicy (hmax ▸ hge) (Nat.lt_succ_self _)
      have hterminal : terminalOf row ≠ .SUCCEEDED := by
        rcases terminalOf_cases row with hs | hs <;> simp [hs]
      rw [serve, walkRounds, commit_ok hexec]
      refine trailStep_report hr hmem
        ((hinv.good.lawful _ hmem).running_of_worker (by rw [hworker]; rfl)) rfl (if_pos rfl) rfl rfl
        (fun hs => TaskState.noConfusion hs)
        (iff_of_false (fun hs => TaskState.noConfusion hs) hterminal) (fun hne as => ?_)
      unfold afterFailure
      rw [if_neg hne]
      split
      · rename_i hblock
        exact .quiet _ rfl rfl rfl (Or.inr ⟨(blockable_iff.mp hblock).2.2, Or.inr rfl⟩)
      · exact .refl _ _
  | lateFailure clock uniform task_run_id worker_id error hlost =>
      rw [(serve_failure_lost clock uniform error hlost).2]
      exact .refl _ _
  | reaped clock =>
      have hserve : serve checks db (.reap clock) = _ :=
        commit_ok (exec_reap_expired_leases hinv.good clock)
      -- The attempts are closed by the rows that expired, so by the row itself.
      have hrows : (serve checks db (.reap clock)).task_attempts.rows
          = db.task_attempts.rows.map (fun a =>
            if openAmong (db.task_runs.rows.filter (leaseExpired clock.utcnow)) a
              then closedAttempt clock.now .FAILED (some LEASE_EXPIRED) a else a) := by
        rw [hserve]
        rfl
      rw [attemptsOf_reaped hr hrows]
      dsimp only
      split
      · rename_i hexpired
        exact .closed _ clock.now .FAILED _ (leaseExpired_state hexpired) rfl rfl
          (fun hs => TaskState.noConfusion hs)
          (iff_of_false (fun hs => TaskState.noConfusion hs) (fun hs => TaskState.noConfusion hs))
      · exact .refl _ _
  | cancelled clock run_id =>
      rw [serve, commit_ok (exec_cancel hinv.good clock run_id)]
      dsimp only
      split
      · rename_i hcancel
        obtain ⟨hrun, hstate⟩ := cancellable_iff.mp hcancel
        exact .cancelled _ clock (by rw [hrun]) hstate
      · exact .refl _ _
  | refreshed clock run_id =>
      rw [serve, commit_ok (hinv.good.exec_refresh_run_state clock run_id)]
      exact .refl _ _

/-! ## Every reachable database -/

/-- The trail of every task row is in order. -/
def Db.Audited (db : Db) : Prop := ∀ r ∈ db.task_runs.rows, Trail r (db.attemptsOf r.id)

theorem attemptsOf_congr (h : db'.task_attempts = db.task_attempts) (task_run_id : UUID) :
    db'.attemptsOf task_run_id = db.attemptsOf task_run_id := by
  unfold Db.attemptsOf
  rw [h]

/-- A row that is new to the table has no attempt rows. -/
theorem attemptsOf_new (hinv : Inv checks db) (hnew : ∀ s ∈ db.task_runs.rows, s.id ≠ r.id) :
    db.attemptsOf r.id = [] := by
  rw [List.eq_nil_iff_forall_not_mem]
  intro a ha
  obtain ⟨hmem, hid⟩ := mem_attemptsOf.mp ha
  obtain ⟨s, hs, hsid, -⟩ := hinv.numbered a hmem
  exact hnew s hs (hsid.trans hid)

/-- What an operation does to the trails: every trail makes a step, and a task row
that is new has no attempt rows. -/
structure TrailsStep (op : Op) (db db' : Db) : Prop where
  step : ∀ r ∈ db.task_runs.rows, ∃ r' ∈ db'.task_runs.rows, r'.id = r.id ∧
    TrailStep op r (db.attemptsOf r.id) r' (db'.attemptsOf r.id)
  fresh : ∀ r' ∈ db'.task_runs.rows, (∃ r ∈ db.task_runs.rows, r.id = r'.id) ∨
    (r'.attempt = 0 ∧ db'.attemptsOf r'.id = [])

/-- Task and attempt rows are as they were. -/
theorem TrailsStep.of_eq (hrows : db'.task_runs = db.task_runs)
    (hattempts : db'.task_attempts = db.task_attempts) : TrailsStep op db db' := by
  refine ⟨fun r hr => ⟨r, by rw [hrows]; exact hr, rfl, ?_⟩, fun r' hr' => Or.inl ⟨r', ?_, rfl⟩⟩
  · rw [attemptsOf_congr hattempts]
    exact .refl _ _
  · rw [← hrows]
    exact hr'

theorem CreatedRun.trails {ids : RunIds} {clock : Clock} {workflow : Workflow} {run : WorkflowRun}
    {rows : List TaskRun} (hinv : Inv checks db)
    (h : CreatedRun ids clock workflow (dependencies db workflow.id) db db' run rows) :
    TrailsStep op db db' := by
  have hattempts : db'.task_attempts = db.task_attempts := by rw [h.frame]
  refine ⟨fun r hr => ⟨r, ?_, rfl, ?_⟩, fun r' hr' => ?_⟩
  · rw [h.task_runs']
    exact List.mem_append_left _ hr
  · rw [attemptsOf_congr hattempts]
    exact .refl _ _
  · rw [h.task_runs', List.mem_append] at hr'
    rcases hr' with hr' | hr'
    · exact Or.inl ⟨r', hr', rfl⟩
    · obtain ⟨task, -, -, policy, -, rfl⟩ := h.mem_rows hinv.definitions hr'
      refine Or.inr ⟨rfl, ?_⟩
      rw [attemptsOf_congr hattempts]
      exact attemptsOf_new hinv (h.new_rows _ hr')

/-- **Every operation is a step of the trails.** -/
theorem serve_trails (hinv : Inv checks db) (op : Op) : TrailsStep op db (serve checks db op) := by
  cases hop : op.isQueue with
  | true =>
      obtain ⟨g, hout, hstep⟩ := serve_outcome hinv hop
      refine ⟨fun r hr => ?_, fun r' hr' => Or.inl ?_⟩
      · exact ⟨g r, hstep.rewritten.mem_rows.mpr ⟨r, hr, rfl⟩,
          (hstep.rewritten.change r hr).keeps.1, hout.trailStep hinv hr⟩
      · obtain ⟨r, hr, rfl⟩ := hstep.rewritten.mem_rows.mp hr'
        exact ⟨r, hr, (hstep.rewritten.change r hr).keeps.1.symm⟩
  | false =>
      cases op with
      | publish ids now name specs description =>
          obtain ⟨_, _, _, hserve⟩ := serve_publish_frame checks db ids now name specs description
          rw [hserve]
          exact .of_eq rfl rfl
      | submit ids clock workflow_id trigger_payload =>
          rcases serve_submit checks db ids clock workflow_id trigger_payload with
            hsame | ⟨workflow, -, run, rows, hcreated⟩
          · rw [hsame]
            exact .of_eq rfl rfl
          · exact hcreated.trails hinv
      | _ => cases hop

/-- What every trail step keeps, and what holds of a task row without attempts,
holds of every trail after the operation. -/
theorem TrailsStep.trails {P : TaskRun → List TaskAttempt → Prop} (hstep : TrailsStep op db db')
    (hP : ∀ r ∈ db.task_runs.rows, ∀ r' as', TrailStep op r (db.attemptsOf r.id) r' as' → P r' as')
    (hnil : ∀ r', r'.attempt = 0 → P r' []) :
    ∀ r' ∈ db'.task_runs.rows, P r' (db'.attemptsOf r'.id) := by
  intro r' hr'
  rcases hstep.fresh r' hr' with ⟨r, hr, hid⟩ | ⟨hzero, hnone⟩
  · obtain ⟨s, hs, hsid, htrail⟩ := hstep.step r hr
    have he : s = r' := db'.task_runs.eq_of_key hs hr' (hsid.trans hid)
    rw [← hid, ← he]
    exact hP r hr s _ htrail
  · rw [hnone]
    exact hnil r' hzero

theorem Reachable.audited (h : Reachable checks db) : db.Audited := by
  refine Lts.Reach.invariant (fun db hi r hr => ?_) (fun db op db' hr haudited hstep => ?_) h
  · rw [hi.no_task_runs] at hr
    exact absurd hr List.not_mem_nil
  · have hinv : Inv checks db := Reachable.inv hr
    rw [← hstep]
    exact (serve_trails hinv op).trails
      (fun r hr _ _ htrail => (haudited r hr).step (hinv.good.lawful r hr) htrail)
      (fun _ hzero => .nil hzero)

/-- A closed row is never modified. -/
theorem closed_kept (hinv : Inv checks db) (op : Op) {a : TaskAttempt}
    (ha : a ∈ db.task_attempts.rows) (hclosed : a.finished_at.isSome = true) :
    a ∈ (serve checks db op).task_attempts.rows := by
  obtain ⟨r, hr, hid, -⟩ := hinv.numbered a ha
  obtain ⟨r', -, -, htrail⟩ := (serve_trails hinv op).step r hr
  have hkept := htrail.closed_kept (mem_attemptsOf.mpr ⟨ha, hid.symm⟩) hclosed
  exact (mem_attemptsOf.mp hkept).1

/-- A claim that raises was refused by the schema: it is never the branch for a
duplicate attempt row. -/
theorem claim_batch_raises (hinv : Inv checks db) (lease_seconds : ℚ) (clock : Clock)
    (tie : UUID → ℕ) (worker_id : String) (limit : ℕ) {e : Exn}
    (h : exec (store checks) (claim_batch lease_seconds clock tie worker_id limit) db = .error e) :
    ∃ constraint, e = .IntegrityError constraint := by
  by_cases hbudget : checks = true → db.WithinBudget tie clock.utcnow limit
  · obtain ⟨results, hexec, -⟩ := serve_claim hinv lease_seconds clock tie worker_id limit hbudget
    rw [hexec] at h
    cases h
  · -- The `UPDATE` itself is refused: were it not, every row it takes would be
    -- within its budget.
    have hrefused : Db.validate checks .skipLocked db { Db.empty with
        task_runs := db.task_runs.updated (picked tie clock.utcnow limit db)
          (claimed worker_id (clock.utcnow + lease_seconds) clock.now)
          (claimed_id worker_id (clock.utcnow + lease_seconds) clock.now) } ≠ none := by
      rw [Ne, validate_taskRuns (by decide)]
      exact fun hvalid => hbudget (fun hck => (claimedRows_violates hinv.good).mp (hvalid hck))
    obtain ⟨e', he'⟩ := Option.ne_none_iff_exists'.mp hrefused
    have hraised : exec (store checks) (claim_batch lease_seconds clock tie worker_id limit) db
        = .error e' := by
      unfold claim_batch
      simp only [exec, store_validate]
      erw [he']
      rfl
    rw [hraised] at h
    cases h
    obtain ⟨constraint, -, rfl⟩ := Option.map_eq_some_iff.mp he'
    exact ⟨constraint, rfl⟩

/-- Along a run from a reachable database, whatever its operations. -/
theorem closed_kept_run (h : Reachable checks db) {a : TaskAttempt}
    (ha : a ∈ db.task_attempts.rows) (hclosed : a.finished_at.isSome = true)
    (hrun : Lts.Reach (· = db) (fun db op db' => serve checks db op = db') db') :
    a ∈ db'.task_attempts.rows := by
  have hboth : Reachable checks db' ∧ a ∈ db'.task_attempts.rows := by
    refine Lts.Reach.invariant (P := fun s => Reachable checks s ∧ a ∈ s.task_attempts.rows)
      (fun s hs => ?_) (fun s op s' _ hs hstep => ?_) hrun
    · rw [hs]
      exact ⟨h, ha⟩
    · rw [← hstep]
      exact ⟨hs.1.serve op, closed_kept hs.1.inv op hs.2 hclosed⟩
  exact hboth.2

/-! ## The audit trail is honest -/

/-- **The audit trail.** In every reachable database the attempt rows of a task row
are numbered `1, 2, …, attempt`, one row each; all but the last are closed; a row
says `SUCCEEDED` exactly if the task did and the row is the last one. A closed row
stays as it is, and no claim runs into a duplicate attempt. -/
theorem audit_trail_honest (h : Reachable checks db) :
    (∀ a ∈ db.task_attempts.rows, ∃ r ∈ db.task_runs.rows, r.id = a.task_run_id) ∧
    (∀ r ∈ db.task_runs.rows, 0 ≤ r.attempt ∧
      (db.attemptsOf r.id).map TaskAttempt.attempt
        = (List.range r.attempt.toNat).map (fun n : ℕ => (n : ℤ) + 1) ∧
      ∀ a ∈ db.attemptsOf r.id, (a.attempt < r.attempt → a.finished_at.isSome = true) ∧
        (a.state = .SUCCEEDED ↔ r.state = .SUCCEEDED ∧ a.attempt = r.attempt)) ∧
    (∀ db', Lts.Reach (· = db) (fun db op db' => serve checks db op = db') db' →
      ∀ a ∈ db.task_attempts.rows, a.finished_at.isSome = true → a ∈ db'.task_attempts.rows) ∧
    (∀ lease_seconds clock tie worker_id limit msg,
      exec (store checks) (claim_batch lease_seconds clock tie worker_id limit) db
        ≠ .error (.ConflictError msg)) := by
  have hinv := h.inv
  refine ⟨fun a ha => ?_, fun r hr => ?_, fun db' hrun a ha hclosed => ?_,
    fun lease_seconds clock tie worker_id limit msg hexec => ?_⟩
  · obtain ⟨r, hr, hid, -⟩ := hinv.numbered a ha
    exact ⟨r, hr, hid⟩
  · have htrail := h.audited r hr
    exact ⟨(hinv.good.lawful r hr).attempt_nonneg, htrail.numbers,
      fun a ha => ⟨htrail.closed a ha, htrail.succeeded a ha⟩⟩
  · exact closed_kept_run h ha hclosed hrun
  · obtain ⟨constraint, he⟩ :=
      claim_batch_raises hinv lease_seconds clock tie worker_id limit hexec
    cases he

/-- The first worker crashes, the second one succeeds. -/
def crashThenSuccess : List Op :=
  soloStart retryOnce ++ [claimAt 0 "w1", .reap (clockAt 100), claimAt 101 "w2",
    .success (clockAt 102) 12 "w2" none]

theorem audit_trail_honest_after_crash :
    ((served true crashThenSuccess).attemptsOf 12).map (fun a => (a.attempt, a.state))
      = [(1, .FAILED), (2, .SUCCEEDED)] ∧
    ∀ r ∈ (served true crashThenSuccess).task_runs.rows,
      ∀ a ∈ (served true crashThenSuccess).attemptsOf r.id,
        (a.state = .SUCCEEDED ↔ r.state = .SUCCEEDED ∧ a.attempt = r.attempt) :=
  ⟨by decide +kernel, fun r hr a ha =>
    (((audit_trail_honest (reachable_served true crashThenSuccess)).2.1 r hr).2.2 a ha).2⟩

/-! ## Orphans

An attempt row is orphaned when it is open and nobody works on it. Of the
operations that take a task out of `RUNNING` only `cancel` leaves the attempt row
open. -/

/-- The attempt rows that are open are those of the running attempts. -/
def Db.NoOrphans (db : Db) : Prop :=
  ∀ r ∈ db.task_runs.rows, ∀ a ∈ db.attemptsOf r.id,
    (a.finished_at = none ↔ r.state = .RUNNING ∧ a.attempt = r.attempt) ∧
    (a.finished_at = none → r.worker_id = some a.worker_id)

instance (db : Db) : Decidable db.NoOrphans := by
  unfold Db.NoOrphans
  infer_instance

/-- The operation is not a `cancel` that hits a running task. -/
def SparesRunning (db : Db) : Op → Prop
  | .cancel _ run_id => ∀ r ∈ db.task_runs.rows, r.run_id = run_id → r.state ≠ .RUNNING
  | _ => True

instance (db : Db) (op : Op) : Decidable (SparesRunning db op) :=
  match op with
  | .cancel _ run_id => inferInstanceAs (Decidable
      (∀ r ∈ db.task_runs.rows, r.run_id = run_id → r.state ≠ .RUNNING))
  | .publish .. | .submit .. | .claim .. | .renew .. | .success .. | .failure .. | .reap ..
  | .refresh .. => inferInstanceAs (Decidable True)

/-- On a trail in order only a cancelled task can have an orphan. -/
theorem Trail.noOrphan_iff (h : Trail r as) :
    (∀ a ∈ as, (a.finished_at = none ↔ r.state = .RUNNING ∧ a.attempt = r.attempt) ∧
      (a.finished_at = none → r.worker_id = some a.worker_id)) ↔
    (r.state = .CANCELLED → ∀ a ∈ as, a.finished_at.isSome = true) := by
  constructor
  · intro hnone hcancelled a ha
    by_contra hopen
    rw [Option.not_isSome_iff_eq_none] at hopen
    have hrunning := ((hnone a ha).1.mp hopen).1
    rw [hcancelled] at hrunning
    cases hrunning
  · intro hclosed a ha
    have hrunning : a.finished_at = none → r.state = .RUNNING ∧ a.attempt = r.attempt := by
      intro hopen
      refine ⟨(h.unfinished a ha hopen).resolve_right (fun hcancelled => ?_), ?_⟩
      · have hsome := hclosed hcancelled a ha
        rw [hopen] at hsome
        cases hsome
      · by_contra hn
        have hsome := h.closed a ha (lt_of_le_of_ne (h.attempt_le ha) hn)
        rw [hopen] at hsome
        cases hsome
    refine ⟨⟨hrunning, fun hs => (h.running hs.1 a ha hs.2).1⟩, fun hopen => ?_⟩
    obtain ⟨hs, hn⟩ := hrunning hopen
    exact (h.running hs a ha hn).2

/-- A step that cancels no running task closes what it has to close. -/
theorem Trail.cancelled_closed (h : Trail r as) (hstep : TrailStep op r as r' as')
    (hclosed : r.state = .CANCELLED → ∀ a ∈ as, a.finished_at.isSome = true)
    (hspares : ∀ clock, op = .cancel clock r.run_id → r.state ≠ .RUNNING)
    (hcancelled : r'.state = .CANCELLED) : ∀ a ∈ as', a.finished_at.isSome = true := by
  cases hstep with
  | quiet _ hid hattempt hworker hstate =>
      rcases hstate with hs | ⟨-, hs | hs⟩
      · exact hclosed (hs ▸ hcancelled)
      · rw [hs] at hcancelled
        cases hcancelled
      · rw [hs] at hcancelled
        cases hcancelled
  | opened => cases hcancelled
  | closed _ now state error hrunning hid hattempt hstopped hsucceeded =>
      exact fun a ha => h.closing_finished hrunning now state error a ha
  | cancelled _ clock hop hcancel =>
      -- Only running or cancelled tasks have open rows, and this one is neither.
      intro a ha
      by_contra hopen
      rw [Option.not_isSome_iff_eq_none] at hopen
      rcases h.unfinished a ha hopen with hs | hs
      · exact hspares clock hop hs
      · rw [hs] at hcancel
        exact absurd hcancel (by decide)

/-- **From a database without orphans** an operation makes none exactly if it is
not a `cancel` that hits a running task. -/
theorem noOrphans_serve_iff (h : Reachable checks db) (hnone : db.NoOrphans) (op : Op) :
    (serve checks db op).NoOrphans ↔ SparesRunning db op := by
  have hinv := h.inv
  constructor
  · intro hnone'
    cases op with
    | cancel clock run_id =>
        intro r hr hrun hrunning
        -- Its current attempt row is there, is open, and stays open.
        obtain ⟨a, ha, hn⟩ := (h.audited r hr).mem_numbers.mpr
          ⟨((hinv.good.lawful r hr).held hrunning).2.2, le_refl _⟩
        have hopen := ((h.audited r hr).running hrunning a ha hn).1
        have hcancel : cancellable run_id r = true :=
          cancellable_iff.mpr ⟨hrun, by rw [hrunning]; decide⟩
        have hcancelled : RunRepository.cancelled clock.now r
            ∈ (serve checks db (.cancel clock run_id)).task_runs.rows := by
          refine (serve_cancel hinv clock run_id).rewritten.mem_rows.mpr ⟨r, hr, ?_⟩
          rw [if_pos hcancel]
        have hkept : (serve checks db (.cancel clock run_id)).attemptsOf r.id
            = db.attemptsOf r.id := by
          rw [serve, commit_ok (exec_cancel hinv.good clock run_id)]
          rfl
        have hbad := ((hnone' _ hcancelled a (by rw [cancelled_id, hkept]; exact ha)).1.mp hopen).1
        cases hbad
    | _ => trivial
  · intro hspares
    have haudited' := (h.serve op).audited
    intro r' hr'
    rw [(haudited' r' hr').noOrphan_iff]
    refine (serve_trails hinv op).trails
      (P := fun r' as' => r'.state = .CANCELLED → ∀ a ∈ as', a.finished_at.isSome = true)
      (fun r hr r' as' htrail => ?_) (fun _ _ _ a ha => absurd ha List.not_mem_nil) r' hr'
    refine (h.audited r hr).cancelled_closed htrail
      ((h.audited r hr).noOrphan_iff.mp (hnone r hr)) (fun clock hop => ?_)
    rw [hop] at hspares
    exact hspares r hr rfl

/-- **No orphaned attempt, as long as no running task is cancelled.** Along every run
that meets this condition an attempt row is open exactly if its task is running at
that attempt, and then under the same worker; and the condition is exact. -/
theorem attempts_not_orphaned (checks : Bool) (db : Db) :
    (Lts.ReachVia Initial (fun db op db' => serve checks db op = db') SparesRunning db →
      db.NoOrphans) ∧
    (Reachable checks db → db.NoOrphans → ∀ op,
      ((serve checks db op).NoOrphans ↔ SparesRunning db op)) := by
  constructor
  · intro h
    refine Lts.ReachVia.invariant (fun db hi r hr => ?_) (fun db op db' hr hnone hc hstep => ?_) h
    · rw [hi.no_task_runs] at hr
      exact absurd hr List.not_mem_nil
    · rw [← hstep]
      exact (noOrphans_serve_iff hr hnone op).mpr hc
  · exact fun h hnone op => noOrphans_serve_iff h hnone op

/-- A run is cancelled while its task runs. -/
def cancelWhileRunning : List Op :=
  soloStart noRetry ++ [claimAt 0 "w1", .cancel (clockAt 1) 10]

/-- The attempt row of the cancelled task stays open. -/
theorem cancel_orphans_attempt :
    Reachable true (served true cancelWhileRunning) ∧
    ((served true cancelWhileRunning).attemptsOf 12).map (fun a => (a.attempt, a.finished_at))
      = [(1, none)] ∧
    (served true cancelWhileRunning).task_runs.rows.map TaskRun.state = [.CANCELLED] ∧
    ¬ (served true cancelWhileRunning).NoOrphans := by
  refine ⟨reachable_served true _, ?_, ?_, ?_⟩ <;> decide +kernel

/-- Cancelled before it was claimed, the same run leaves nothing open. -/
theorem attempts_not_orphaned_unclaimed :
    (served true (soloStart noRetry ++ [.cancel (clockAt 1) 10])).NoOrphans ∧
    ((serve true (served true (soloStart noRetry ++ [claimAt 0 "w1"]))
        (.cancel (clockAt 1) 10)).NoOrphans ↔
      SparesRunning (served true (soloStart noRetry ++ [claimAt 0 "w1"]))
        (.cancel (clockAt 1) 10)) :=
  ⟨(attempts_not_orphaned true _).1 (Lts.ReachVia.foldl (.start initial_empty) (by decide +kernel)),
    (attempts_not_orphaned true _).2 (reachable_served true _) (by decide +kernel) _⟩

end Conductor
