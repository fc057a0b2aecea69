/-
`worker/worker.py`: a batch in time.

`Worker.run_once` claims a batch with one lease and executes its tasks one after
the other; `Heartbeat` renews the lease of the task that is being executed, and of
no other. Here the clock is part of the state. A `Shift` is a worker in the middle
of its batch: the tasks it has not begun, the one it executes with the times of its
end and of the next heartbeat, and the database. The reaper may sweep at any moment
that the clock passes.

How long `execute` runs and what comes of it belong to the task (`Job`); every
renewal that the heartbeat makes is carried out. The transactions of the worker
take no time of their own.
-/
import Mathlib.Algebra.Order.Archimedean.Basic
import Mathlib.Algebra.Order.Ring.Rat
import Mathlib.Algebra.Order.BigOperators.Group.List
import Conductor.Workers

set_option autoImplicit false

open Relational Txn

namespace Conductor

open RunRepository TaskQueueRepository WorkflowRepository

/-! ## The worker -/

/-- What the worker reads of `config.Settings`, which refuses other values. -/
structure Settings where
  lease_seconds : ℚ
  heartbeat_seconds : ℚ
  lease_positive : 0 < lease_seconds
  heartbeat_positive : 0 < heartbeat_seconds
  heartbeat_must_beat_the_lease : heartbeat_seconds ≤ lease_seconds / 3

/-- The defaults. -/
def Settings.default : Settings where
  lease_seconds := 60
  heartbeat_seconds := 15
  lease_positive := by norm_num
  heartbeat_positive := by norm_num
  heartbeat_must_beat_the_lease := by norm_num

/-- A claimed task with how long its executor runs and what comes of it. -/
structure Job where
  task : ClaimedTask
  duration : ℚ
  result : Result
  uniform : ℚ → ℚ

/-- `_execute` under way. -/
structure Execution where
  job : Job
  /-- When the executor returns. -/
  finish : Time
  /-- When the heartbeat thread wakes up next. -/
  beat : Time
  /-- `heartbeat.lost`; the thread has then returned. -/
  lost : Bool

/-- A worker in the middle of its batch. -/
structure Shift where
  now : Time
  db : Db
  waiting : List Job
  executing : Option Execution

/-- What happens next: the worker reaches `_execute` for the next task, its
heartbeat wakes up, its executor returns, or the reaper sweeps. -/
inductive Tick where
  | begin
  | beat
  | finish
  | sweep (t : Time)

/-- Nothing of the worker's is due before `t`. -/
def Shift.idleUntil (s : Shift) (t : Time) : Bool :=
  match s.executing, s.waiting with
  | some e, _ => t ≤ e.finish && (e.lost || t ≤ e.beat)
  | none, [] => true
  | none, _ :: _ => t ≤ s.now

/-- One renewal: the database after it, and whether the lease is lost. An exception
is logged and the thread goes on. -/
def renewal (checks : Bool) (settings : Settings) (worker_id : String) (db : Db) (t : Time)
    (task_run_id : UUID) : Db × Bool :=
  match exec (store checks)
    (renew_lease settings.lease_seconds (clockAt t) task_run_id worker_id) db with
  | .ok (db, renewed) => (db, !renewed)
  | .error _ => (db, false)

/-- The database after the executor returned: a result is reported unless the lease
is known to be lost. -/
def Execution.settle (checks : Bool) (worker_id : String) (db : Db) (e : Execution) : Db :=
  if e.lost then db
  else transact checks db (.complete
    (e.job.task.report worker_id e.job.result (clockAt e.finish) e.job.uniform))

/-- One tick, if it can happen now. -/
def tick (checks : Bool) (settings : Settings) (worker_id : String) (s : Shift) :
    Tick → Option Shift
  | .begin =>
      match s.executing, s.waiting with
      | none, job :: rest =>
          some { s with
            waiting := rest
            executing :=
              some ⟨job, s.now + job.duration, s.now + settings.heartbeat_seconds, false⟩ }
      | _, _ => none
  | .beat =>
      match s.executing with
      | none => none
      | some e =>
          if e.lost = false ∧ e.beat ≤ e.finish then
            let (db, lost) := renewal checks settings worker_id s.db e.beat e.job.task.task_run_id
            some { s with
              now := e.beat
              db := db
              executing :=
                some { e with beat := e.beat + settings.heartbeat_seconds, lost := lost } }
          else none
  | .finish =>
      match s.executing with
      | none => none
      | some e =>
          if e.lost = true ∨ e.finish ≤ e.beat then
            some { s with now := e.finish, db := e.settle checks worker_id s.db, executing := none }
          else none
  | .sweep t =>
      if s.now ≤ t ∧ s.idleUntil t = true then
        some { s with now := t, db := serve checks s.db (.reap (clockAt t)) }
      else none

/-- The task is still the worker's, at the attempt it was claimed with. -/
def Db.Holds (db : Db) (worker_id : String) (task : ClaimedTask) : Prop :=
  ∃ r ∈ db.task_runs.rows, r.id = task.task_run_id ∧ r.state = .RUNNING ∧
    r.worker_id = some worker_id ∧ r.attempt = task.attempt

instance (db : Db) (worker_id : String) (task : ClaimedTask) :
    Decidable (db.Holds worker_id task) :=
  inferInstanceAs (Decidable (∃ r ∈ db.task_runs.rows, r.id = task.task_run_id ∧
    r.state = .RUNNING ∧ r.worker_id = some worker_id ∧ r.attempt = task.attempt))

/-- The shifts that a batch can lead to, from the moment its claim is committed. -/
def Shift.Reachable (checks : Bool) (settings : Settings) (worker_id : String) (start : Shift) :
    Shift → Prop :=
  Lts.Reach (· = start) (fun s l s' => tick checks settings worker_id s l = some s')

/-! ## The rows of the waiting tasks -/

/-- The row of a waiting task is as the claim left it. -/
def Db.Leased (db : Db) (worker_id : String) (lease : Time) (task : ClaimedTask) : Prop :=
  ∃ r ∈ db.task_runs.rows, r.id = task.task_run_id ∧ r.state = .RUNNING ∧
    r.worker_id = some worker_id ∧ r.attempt = task.attempt ∧ r.lease_expires_at = some lease

section Rows

variable {checks : Bool} {db db' : Db} {g : TaskRun → TaskRun} {worker_id : String} {lease : Time}
  {task : ClaimedTask}

theorem Db.Leased.holds (h : db.Leased worker_id lease task) : db.Holds worker_id task := by
  obtain ⟨r, hr, hid, hrunning, hworker, hattempt, -⟩ := h
  exact ⟨r, hr, hid, hrunning, hworker, hattempt⟩

/-- What a rewrite leaves alone is still leased. -/
theorem Db.Leased.rewritten (h : db.Leased worker_id lease task)
    (hrows : db'.task_runs.rows = db.task_runs.rows.map g)
    (hkept : ∀ r ∈ db.task_runs.rows, r.id = task.task_run_id → r.state = .RUNNING →
      r.lease_expires_at = some lease → g r = r) : db'.Leased worker_id lease task := by
  obtain ⟨r, hr, hid, hrunning, hworker, hattempt, hlease⟩ := h
  refine ⟨r, ?_, hid, hrunning, hworker, hattempt, hlease⟩
  rw [hrows, List.mem_map]
  exact ⟨r, hr, hkept r hr hid hrunning hlease⟩

/-- A sweep that comes no later than the lease leaves the row alone. -/
theorem Db.Leased.sweep (hinv : Inv checks db) (h : db.Leased worker_id lease task) {t : Time}
    (ht : t ≤ lease) : (serve checks db (.reap (clockAt t))).Leased worker_id lease task := by
  refine h.rewritten (serve_reap hinv (clockAt t)).rewritten.rows (fun r _ _ _ hlease => ?_)
  rw [if_neg]
  unfold leaseExpired
  rw [hlease]
  simp [clockAt, not_lt.mpr ht]

/-- Renewing another task's lease leaves the row alone. -/
theorem Db.Leased.renew (hinv : Inv checks db) (h : db.Leased worker_id lease task)
    {lease_seconds : ℚ} {clock : Clock} {task_run_id : UUID} {w : String}
    (hne : task_run_id ≠ task.task_run_id) :
    (serve checks db (.renew lease_seconds clock task_run_id w)).Leased worker_id lease task := by
  refine h.rewritten (serve_renew hinv lease_seconds clock task_run_id w).rewritten.rows
    (fun r _ hid _ _ => ?_)
  rw [if_neg]
  intro hheld
  exact hne ((heldBy_iff.mp hheld).1.symm.trans hid)

/-- The holder of a row is told that it was renewed. -/
theorem exec_renew_held (hinv : Inv checks db) {lease_seconds : ℚ} {clock : Clock}
    {task_run_id : UUID} {w : String} {r : TaskRun} (hr : r ∈ db.task_runs.rows)
    (hheld : heldBy task_run_id w r = true) :
    exec (store checks) (renew_lease lease_seconds clock task_run_id w) db
      = .ok (serve checks db (.renew lease_seconds clock task_run_id w), true) := by
  have hexec := exec_renew_lease hinv.good lease_seconds clock task_run_id w
  have hone : (db.task_runs.rows.filter (heldBy task_run_id w)).length = 1 := by
    rw [filter_heldBy, Table.get_eq_some.mpr ⟨hr, (heldBy_iff.mp hheld).1⟩, Option.filter_some,
      hheld]
    rfl
  rw [serve, commit_ok hexec, hexec, decide_eq_true hone]

/-- A renewal of its own row leases it anew. -/
theorem Db.Leased.renewed (hinv : Inv checks db) (h : db.Leased worker_id lease task)
    (lease_seconds : ℚ) (clock : Clock) :
    (serve checks db (.renew lease_seconds clock task.task_run_id worker_id)).Leased worker_id
      (clock.utcnow + lease_seconds) task := by
  obtain ⟨r, hr, hid, hrunning, hworker, hattempt, -⟩ := h
  have hrewritten := (serve_renew hinv lease_seconds clock task.task_run_id worker_id).rewritten
  refine ⟨TaskQueueRepository.renewed (clock.utcnow + lease_seconds) r, ?_, hid, hrunning,
    hworker, hattempt, rfl⟩
  refine hrewritten.mem_rows.mpr ⟨r, hr, ?_⟩
  rw [if_pos (heldBy_iff.mpr ⟨hid, hworker, hrunning⟩)]

/-- A report about another task leaves a running row alone. -/
theorem Outcome.running_kept {report : Report} (hout : Outcome checks db report.op g) {r : TaskRun}
    (hne : r.id ≠ report.task_run_id) (hrunning : r.state = .RUNNING) : g r = r := by
  unfold Report.op at hout
  cases hresult : report.result with
  | success output =>
      simp only [hresult] at hout
      cases hout with
      | succeeded _ _ _ _ hrow =>
          have hid := (Table.get_eq_some.mp hrow).2
          rw [afterSuccess, if_neg (by rw [hid]; exact hne), afterUnblock, if_neg]
          intro hwaiting
          rw [waitingChild_state hwaiting] at hrunning
          cases hrunning
      | lateSuccess => rfl
  | failure error =>
      simp only [hresult] at hout
      cases hout with
      | retried =>
          refine if_neg (fun howned => ?_)
          exact hne (ownedBy_iff.mp howned).1
      | failed _ _ _ _ _ tasks hrow =>
          have hid := (Table.get_eq_some.mp hrow).2
          rw [afterFailure, if_neg (by rw [hid]; exact hne), if_neg]
          intro hblockable
          have hstate := (blockable_iff.mp hblockable).2.2
          rw [hrunning] at hstate
          simp at hstate
      | lateFailure => rfl

theorem Db.Leased.complete (hinv : Inv checks db) (h : db.Leased worker_id lease task)
    {report : Report} (hne : report.task_run_id ≠ task.task_run_id) :
    (transact checks db (.complete report)).Leased worker_id lease task := by
  obtain ⟨g, hout, hstep⟩ := serve_outcome hinv report.op_isQueue
  refine h.rewritten ?_ (fun r _ hid hrunning _ => hout.running_kept ?_ hrunning)
  · rw [task_runs_complete hinv report]
    exact hstep.rewritten.rows
  · rw [hid]
    exact hne.symm

/-- After the lease a sweep takes the row away. -/
theorem Db.Leased.reaped (hinv : Inv checks db) (h : db.Leased worker_id lease task) {t : Time}
    (ht : lease < t) : ¬ (serve checks db (.reap (clockAt t))).Holds worker_id task := by
  obtain ⟨r, hr, hid, hrunning, -, -, hlease⟩ := h
  rintro ⟨r', hr', hid', hrunning', -⟩
  have hrewritten := (serve_reap hinv (clockAt t)).rewritten
  obtain ⟨s, hs, rfl⟩ := hrewritten.mem_rows.mp hr'
  have hsr : s = r := by
    refine db.task_runs.eq_of_key hs hr ?_
    exact (hrewritten.change s hs).keeps.1.symm.trans (hid'.trans hid.symm)
  subst hsr
  have hexpired : leaseExpired (clockAt t).utcnow s = true := by
    unfold leaseExpired
    rw [hlease, hrunning]
    simp [clockAt, ht]
  rw [if_pos hexpired] at hrunning'
  cases hrunning'

/-- What a claim hands out is leased from then on. -/
theorem leased_of_claim (hinv : Inv checks db) {lease_seconds : ℚ} {clock : Clock}
    {tie : UUID → ℕ} {limit : ℕ} {batch : List ClaimedTask}
    (h : exec (store checks) (claim_batch lease_seconds clock tie worker_id limit) db
      = .ok (db', batch)) (htask : task ∈ batch) :
    db'.Leased worker_id (clock.utcnow + lease_seconds) task := by
  obtain ⟨r, hr, hpicked, hid, -, hattempt⟩ := claimed_task hinv h htask
  refine ⟨claimed worker_id (clock.utcnow + lease_seconds) clock.now r, ?_, hid.symm, rfl, rfl,
    hattempt.symm, rfl⟩
  refine (rewritten_claim hinv h).mem_rows.mpr ⟨r, hr, ?_⟩
  rw [if_pos hpicked]

end Rows

/-! ## Ticks -/

section Ticks

variable {checks : Bool} {settings : Settings} {worker_id : String} {lease : Time} {s s' : Shift}

theorem renewal_db (db : Db) (t : Time) (task_run_id : UUID) :
    (renewal checks settings worker_id db t task_run_id).1
      = serve checks db (.renew settings.lease_seconds (clockAt t) task_run_id worker_id) := by
  show _ = commit checks (renew_lease settings.lease_seconds (clockAt t) task_run_id worker_id) db
  unfold renewal commit
  cases exec (store checks)
    (renew_lease settings.lease_seconds (clockAt t) task_run_id worker_id) db with
  | error e => rfl
  | ok out => rfl

/-- The heartbeat of a held task does not take it for lost. -/
theorem renewal_kept {db : Db} {task : ClaimedTask} (hinv : Inv checks db)
    (h : db.Leased worker_id lease task) (t : Time) :
    (renewal checks settings worker_id db t task.task_run_id).2 = false := by
  obtain ⟨r, hr, hid, hrunning, hworker, -, -⟩ := h
  unfold renewal
  rw [exec_renew_held hinv hr (heldBy_iff.mpr ⟨hid, hworker, hrunning⟩)]
  rfl

/-- Everything a tick can be. -/
theorem tick_cases {l : Tick} (h : tick checks settings worker_id s l = some s') :
    (∃ job rest, l = .begin ∧ s.executing = none ∧ s.waiting = job :: rest ∧
      s' = { s with
        waiting := rest
        executing :=
          some ⟨job, s.now + job.duration, s.now + settings.heartbeat_seconds, false⟩ }) ∨
    (∃ e lost, l = .beat ∧ s.executing = some e ∧
      (renewal checks settings worker_id s.db e.beat e.job.task.task_run_id).2 = lost ∧
      s' = { s with
        now := e.beat
        db := serve checks s.db (.renew settings.lease_seconds (clockAt e.beat)
          e.job.task.task_run_id worker_id)
        executing := some { e with beat := e.beat + settings.heartbeat_seconds, lost := lost } }) ∨
    (∃ e, l = .finish ∧ s.executing = some e ∧
      s' = { s with now := e.finish, db := e.settle checks worker_id s.db, executing := none }) ∨
    (∃ t, l = .sweep t ∧ s.now ≤ t ∧ s.idleUntil t = true ∧
      s' = { s with now := t, db := serve checks s.db (.reap (clockAt t)) }) := by
  cases l with
  | begin =>
      simp only [tick] at h
      split at h
      · rename_i job rest hexec hwaiting
        cases h
        exact Or.inl ⟨job, rest, rfl, hexec, hwaiting, rfl⟩
      · cases h
  | beat =>
      simp only [tick] at h
      split at h
      · cases h
      · rename_i e hexec
        split at h
        · cases h
          rw [renewal_db]
          exact Or.inr (Or.inl ⟨e, _, rfl, hexec, rfl, rfl⟩)
        · cases h
  | finish =>
      simp only [tick] at h
      split at h
      · cases h
      · rename_i e hexec
        split at h
        · cases h
          exact Or.inr (Or.inr (Or.inl ⟨e, rfl, hexec, rfl⟩))
        · cases h
  | sweep t =>
      simp only [tick] at h
      split at h
      · rename_i hguard
        cases h
        exact Or.inr (Or.inr (Or.inr ⟨t, rfl, hguard.1, hguard.2, rfl⟩))
      · cases h

/-- A sweep while a task is executed, before it is over or renewed. -/
theorem tick_sweep_executing (checks : Bool) (settings : Settings) (worker_id : String) (db : Db)
    (waiting : List Job) (e : Execution) {now t : Time} (hnow : now ≤ t) (hfinish : t ≤ e.finish)
    (hbeat : t ≤ e.beat) :
    tick checks settings worker_id ⟨now, db, waiting, some e⟩ (.sweep t)
      = some ⟨t, serve checks db (.reap (clockAt t)), waiting, some e⟩ := by
  have hidle : Shift.idleUntil ⟨now, db, waiting, some e⟩ t = true := by
    simp [Shift.idleUntil, hfinish, hbeat]
  exact if_pos ⟨hnow, hidle⟩

/-- The rows of the tasks that wait are as the claim left them. -/
structure Shift.Intact (checks : Bool) (worker_id : String) (lease : Time) (s : Shift) : Prop where
  inv : Inv checks s.db
  leased : ∀ job ∈ s.waiting, s.db.Leased worker_id lease job.task
  distinct : (s.waiting.map (fun job => job.task.task_run_id)).Nodup
  apart : ∀ e, s.executing = some e →
    ∀ job ∈ s.waiting, e.job.task.task_run_id ≠ job.task.task_run_id

/-- A tick keeps them so, unless it is a sweep after the lease. -/
theorem Shift.Intact.tick (h : s.Intact checks worker_id lease) {l : Tick}
    (hstep : Conductor.tick checks settings worker_id s l = some s')
    (hsweep : ∀ t, l = .sweep t → s.waiting ≠ [] → t ≤ lease) :
    s'.Intact checks worker_id lease := by
  rcases tick_cases hstep with ⟨job, rest, -, -, hwaiting, rfl⟩ | ⟨e, lost, -, hexec, -, rfl⟩ |
    ⟨e, -, hexec, rfl⟩ | ⟨t, rfl, -, -, rfl⟩
  -- The task that begins is none of those that still wait.
  · have hdistinct := h.distinct
    rw [hwaiting, List.map_cons, List.nodup_cons] at hdistinct
    refine ⟨h.inv, fun job' hjob' => h.leased job' ?_, hdistinct.2, fun e he job' hjob' heq => ?_⟩
    · rw [hwaiting]
      exact List.mem_cons_of_mem _ hjob'
    · cases he
      refine hdistinct.1 (List.mem_map.mpr ⟨job', hjob', heq.symm⟩)
  · have hinv := serve_inv h.inv (.renew settings.lease_seconds (clockAt e.beat)
      e.job.task.task_run_id worker_id)
    refine ⟨hinv, fun job hjob => ?_, h.distinct, fun e' he' job hjob => ?_⟩
    · exact (h.leased job hjob).renew h.inv (h.apart e hexec job hjob)
    · cases he'
      exact h.apart e hexec job hjob
  · refine ⟨?_, fun job hjob => ?_, h.distinct, fun e' he' => ?_⟩
    · show Inv checks (e.settle checks worker_id s.db)
      unfold Execution.settle
      split
      · exact h.inv
      · exact transact_inv h.inv _
    · show (e.settle checks worker_id s.db).Leased worker_id lease job.task
      unfold Execution.settle
      split
      · exact h.leased job hjob
      · exact (h.leased job hjob).complete h.inv (h.apart e hexec job hjob)
    · cases he'
  -- A sweep up to the end of the lease finds none of them expired.
  · have hinv := serve_inv h.inv (.reap (clockAt t))
    refine ⟨hinv, fun job hjob => ?_, h.distinct, h.apart⟩
    exact (h.leased job hjob).sweep h.inv (hsweep t rfl (List.ne_nil_of_mem hjob))

/-! ## On time -/

/-- When the worker is through with what it executes. -/
def Shift.free (s : Shift) : Time :=
  match s.executing with
  | some e => e.finish
  | none => s.now

/-- The time that some jobs take. -/
def total (jobs : List Job) : ℚ := (jobs.map Job.duration).sum

/-- How long a batch that begins now counts on the lease of its claim: its last task does so
until it is over or renewed for the first time. -/
def unrenewed (settings : Settings) (jobs : List Job) : ℚ :=
  total jobs.dropLast +
    jobs.getLast?.elim 0 (fun job => min job.duration settings.heartbeat_seconds)

/-- A time that some jobs take, whatever of the last one it counts. -/
def Counts (need : List Job → ℚ) : Prop :=
  ∀ job rest, rest ≠ [] → need (job :: rest) = job.duration + need rest

theorem counts_dropLast : Counts (fun jobs => total jobs.dropLast) := by
  intro job rest hrest
  dsimp only
  rw [List.dropLast_cons_of_ne_nil hrest, total, List.map_cons, List.sum_cons]
  rfl

theorem counts_unrenewed (settings : Settings) : Counts (unrenewed settings) := by
  intro job rest hrest
  have htotal := counts_dropLast job rest hrest
  dsimp only at htotal
  unfold unrenewed
  rw [htotal, List.getLast?_cons_of_ne_nil hrest, add_assoc]

theorem total_nonneg {jobs : List Job} (h : ∀ job ∈ jobs, 0 ≤ job.duration) : 0 ≤ total jobs := by
  unfold total
  refine List.sum_nonneg (fun d hd => ?_)
  obtain ⟨job, hjob, rfl⟩ := List.mem_map.mp hd
  exact h job hjob

theorem total_dropLast_nonneg {jobs : List Job} (h : ∀ job ∈ jobs, 0 ≤ job.duration) :
    0 ≤ total jobs.dropLast :=
  total_nonneg (fun job hjob => h job (List.dropLast_subset _ hjob))

theorem unrenewed_nonneg (settings : Settings) {jobs : List Job}
    (h : ∀ job ∈ jobs, 0 ≤ job.duration) : 0 ≤ unrenewed settings jobs := by
  unfold unrenewed
  refine add_nonneg (total_dropLast_nonneg h) ?_
  cases hlast : jobs.getLast? with
  | none => exact le_refl 0
  | some job =>
      exact le_min (h job (List.mem_of_getLast? hlast)) settings.heartbeat_positive.le

/-- A task comes to its end, or to its first renewal, within what its batch needs. -/
theorem min_le_unrenewed (settings : Settings) {job : Job} {rest : List Job}
    (h : ∀ job' ∈ job :: rest, 0 ≤ job'.duration) :
    min job.duration settings.heartbeat_seconds ≤ unrenewed settings (job :: rest) := by
  by_cases hrest : rest = []
  · subst hrest
    show _ ≤ total [] + min job.duration settings.heartbeat_seconds
    rw [total, List.map_nil, List.sum_nil, zero_add]
  · rw [counts_unrenewed settings job rest hrest]
    have hneed := unrenewed_nonneg settings
      (fun job' hjob' => h job' (List.mem_cons_of_mem _ hjob'))
    exact (min_le_left _ _).trans (le_add_of_nonneg_right hneed)

/-- What the tasks that wait need is over before the lease is. -/
structure Shift.OnTime (need : List Job → ℚ) (lease : Time) (s : Shift) : Prop where
  nonneg : ∀ job ∈ s.waiting, 0 ≤ job.duration
  reached : s.waiting ≠ [] → s.free + need s.waiting ≤ lease

variable {need : List Job → ℚ}

/-- The clock does not pass what the worker has to do. -/
theorem Shift.idleUntil_le {t : Time} (h : s.idleUntil t = true) (hwaiting : s.waiting ≠ []) :
    t ≤ s.free := by
  unfold Shift.idleUntil at h
  unfold Shift.free
  cases hexec : s.executing with
  | some e =>
      simp only [hexec, Bool.and_eq_true, decide_eq_true_eq] at h
      exact h.1
  | none =>
      cases hjobs : s.waiting with
      | nil => exact absurd hjobs hwaiting
      | cons job rest =>
          simp only [hexec, hjobs, decide_eq_true_eq] at h
          exact h

theorem Shift.OnTime.tick (hneed : Counts need) (h : s.OnTime need lease) {l : Tick}
    (hstep : Conductor.tick checks settings worker_id s l = some s') : s'.OnTime need lease := by
  rcases tick_cases hstep with ⟨job, rest, -, hexec, hwaiting, rfl⟩ | ⟨e, lost, -, hexec, -, rfl⟩ |
    ⟨e, -, hexec, rfl⟩ | ⟨t, rfl, hnow, hidle, rfl⟩
  · refine ⟨fun job' hjob' => h.nonneg job' (by rw [hwaiting]; exact List.mem_cons_of_mem _ hjob'),
      fun hrest => ?_⟩
    -- What it takes moves from the sum to the clock.
    have hreached := h.reached (by rw [hwaiting]; exact List.cons_ne_nil job rest)
    have hfree : s.free = s.now := by rw [Shift.free, hexec]
    rw [hfree, hwaiting, hneed job rest hrest, ← add_assoc] at hreached
    exact hreached
  · refine ⟨h.nonneg, fun hwaiting => ?_⟩
    have hreached := h.reached hwaiting
    have hfree : s.free = e.finish := by rw [Shift.free, hexec]
    rw [hfree] at hreached
    exact hreached
  · refine ⟨h.nonneg, fun hwaiting => ?_⟩
    have hreached := h.reached hwaiting
    have hfree : s.free = e.finish := by rw [Shift.free, hexec]
    rw [hfree] at hreached
    exact hreached
  · refine ⟨h.nonneg, fun hwaiting => ?_⟩
    have hreached := h.reached hwaiting
    have hfree := Shift.idleUntil_le hidle hwaiting
    cases hexec : s.executing with
    | some e =>
        rw [Shift.free, hexec] at hreached
        exact hreached
    -- Nothing is left undone while a task waits, so no time has passed.
    | none =>
        rw [Shift.free, hexec] at hreached hfree
        have hsame : t = s.now := le_antisymm hfree hnow
        rw [hsame]
        exact hreached

/-- A sweep comes before the lease is over, while a task waits. -/
theorem Shift.OnTime.sweep_le (hnonneg : ∀ jobs : List Job, (∀ job ∈ jobs, 0 ≤ job.duration) →
      0 ≤ need jobs) (h : s.OnTime need lease) {t : Time} (hidle : s.idleUntil t = true)
    (hwaiting : s.waiting ≠ []) : t ≤ lease := by
  have hrest := hnonneg s.waiting h.nonneg
  have hreached := h.reached hwaiting
  have hfree := Shift.idleUntil_le hidle hwaiting
  linarith

/-! ## The task that is being executed -/

/-- Its lease lasts until it is over or renewed next, and is not taken for lost. -/
def Shift.Covered (worker_id : String) (s : Shift) : Prop :=
  ∀ e, s.executing = some e → e.lost = false ∧
    ∃ lease, s.db.Leased worker_id lease e.job.task ∧ min e.finish e.beat ≤ lease

theorem Shift.Covered.tick (h : s.Covered worker_id) (hintact : s.Intact checks worker_id lease)
    (hontime : s.OnTime (unrenewed settings) lease) {l : Tick}
    (hstep : Conductor.tick checks settings worker_id s l = some s') : s'.Covered worker_id := by
  rcases tick_cases hstep with ⟨job, rest, -, hexec, hwaiting, rfl⟩ |
    ⟨e, lost, -, hexec, hlost, rfl⟩ | ⟨e, -, hexec, rfl⟩ | ⟨t, rfl, hnow, hidle, rfl⟩
  -- What begins has the lease of the claim.
  · rintro e ⟨⟩
    have hmem : job ∈ s.waiting := by rw [hwaiting]; exact List.mem_cons_self
    refine ⟨rfl, lease, hintact.leased job hmem, ?_⟩
    have hreached := hontime.reached (List.ne_nil_of_mem hmem)
    have hfree : s.free = s.now := by rw [Shift.free, hexec]
    have hfirst := min_le_unrenewed settings (hwaiting ▸ hontime.nonneg)
    rw [hfree, hwaiting] at hreached
    show min (s.now + job.duration) (s.now + settings.heartbeat_seconds) ≤ lease
    rw [min_add_add_left]
    linarith
  -- A renewal lasts longer than an interval.
  · rintro e' ⟨⟩
    obtain ⟨-, until', hleased, -⟩ := h e hexec
    refine ⟨hlost.symm.trans (renewal_kept hintact.inv hleased e.beat), _,
      hleased.renewed hintact.inv settings.lease_seconds (clockAt e.beat), ?_⟩
    show min e.finish (e.beat + settings.heartbeat_seconds) ≤ e.beat + settings.lease_seconds
    have hinterval := settings.heartbeat_must_beat_the_lease
    have hpositive := settings.lease_positive
    exact (min_le_right _ _).trans (by linarith)
  · rintro e' ⟨⟩
  -- A sweep comes no later than the renewal that is due.
  · intro e hexec
    obtain ⟨hlost, until', hleased, hcovered⟩ := h e hexec
    refine ⟨hlost, until', hleased.sweep hintact.inv (le_trans ?_ hcovered), hcovered⟩
    have hexec' : s.executing = some e := hexec
    simp only [Shift.idleUntil, hexec', hlost, Bool.false_or, Bool.and_eq_true,
      decide_eq_true_eq] at hidle
    exact le_min hidle.1 hidle.2

/-! ## Every task is reached -/

/-- A worker that is executing comes to the end of it, without a sweep. -/
theorem exists_finished (settings : Settings) {start : Shift} (n : ℕ) {e : Execution}
    (hreach : Shift.Reachable checks settings worker_id start s)
    (hintact : s.Intact checks worker_id lease) (hexec : s.executing = some e)
    (hbeats : e.finish ≤ e.beat + n * settings.heartbeat_seconds) :
    ∃ s', Shift.Reachable checks settings worker_id start s' ∧ s'.Intact checks worker_id lease ∧
      s'.executing = none ∧ s'.waiting = s.waiting ∧ s'.now = e.finish := by
  induction n generalizing s e with
  | zero =>
      rw [Nat.cast_zero, zero_mul, add_zero] at hbeats
      have hstep : tick checks settings worker_id s .finish
          = some { s with now := e.finish, db := e.settle checks worker_id s.db,
                          executing := none } := by
        simp only [tick, hexec]
        rw [if_pos (Or.inr hbeats)]
      exact ⟨_, hreach.next hstep, hintact.tick hstep (fun _ hl => nomatch hl), rfl, rfl, rfl⟩
  | succ n ih =>
      by_cases hend : e.lost = true ∨ e.finish ≤ e.beat
      · have hstep : tick checks settings worker_id s .finish
            = some { s with now := e.finish, db := e.settle checks worker_id s.db,
                            executing := none } := by
          simp only [tick, hexec]
          rw [if_pos hend]
        exact ⟨_, hreach.next hstep, hintact.tick hstep (fun _ hl => nomatch hl), rfl, rfl, rfl⟩
      · -- One more renewal, and the next one is an interval later.
        push Not at hend
        obtain ⟨db, lost, hrenewal⟩ : ∃ db lost, renewal checks settings worker_id s.db e.beat
            e.job.task.task_run_id = (db, lost) := ⟨_, _, rfl⟩
        have hstep : tick checks settings worker_id s .beat
            = some { s with
                now := e.beat
                db := db
                executing :=
                  some { e with beat := e.beat + settings.heartbeat_seconds, lost := lost } } := by
          simp only [tick, hexec, hrenewal]
          rw [if_pos ⟨by simpa using hend.1, hend.2.le⟩]
        have hintact' := hintact.tick hstep (fun _ hl => nomatch hl)
        have hbeats' : e.finish
            ≤ e.beat + settings.heartbeat_seconds + n * settings.heartbeat_seconds := by
          push_cast at hbeats
          linarith
        obtain ⟨s', hs'⟩ := ih (hreach.next hstep) hintact' rfl hbeats'
        exact ⟨s', hs'⟩

/-- Some number of intervals covers any duration. -/
theorem exists_beats (settings : Settings) (d : ℚ) :
    ∃ n : ℕ, d ≤ n * settings.heartbeat_seconds := by
  obtain ⟨n, hn⟩ := Archimedean.arch d settings.heartbeat_positive
  exact ⟨n, by rwa [nsmul_eq_mul] at hn⟩

/-- Without sweeps the worker reaches the last of its tasks after the durations of
the others. -/
theorem exists_last (settings : Settings) {start : Shift} {jobs : List Job} (last : Job)
    (hreach : Shift.Reachable checks settings worker_id start s)
    (hintact : s.Intact checks worker_id lease) (hexec : s.executing = none)
    (hwaiting : s.waiting = jobs ++ [last]) :
    ∃ s', Shift.Reachable checks settings worker_id start s' ∧ s'.Intact checks worker_id lease ∧
      s'.executing = none ∧ s'.waiting = [last] ∧ s'.now = s.now + total jobs := by
  induction jobs generalizing s with
  | nil =>
      refine ⟨s, hreach, hintact, hexec, hwaiting, ?_⟩
      simp [total]
  | cons job jobs ih =>
      have hstep : tick checks settings worker_id s .begin
          = some { s with
              waiting := jobs ++ [last]
              executing :=
                some ⟨job, s.now + job.duration, s.now + settings.heartbeat_seconds, false⟩ } := by
        simp only [tick, hexec, hwaiting, List.cons_append]
      obtain ⟨n, hn⟩ := exists_beats settings job.duration
      obtain ⟨s₁, hreach₁, hintact₁, hexec₁, hwaiting₁, hnow₁⟩ :=
        exists_finished settings n (hreach.next hstep)
          (hintact.tick hstep (fun _ hl => nomatch hl)) rfl
          (by
            show s.now + job.duration ≤ s.now + settings.heartbeat_seconds + _
            have := settings.heartbeat_positive
            linarith)
      obtain ⟨s₂, hreach₂, hintact₂, hexec₂, hwaiting₂, hnow₂⟩ :=
        ih hreach₁ hintact₁ hexec₁ hwaiting₁
      refine ⟨s₂, hreach₂, hintact₂, hexec₂, hwaiting₂, ?_⟩
      rw [hnow₂, hnow₁]
      simp only [total, List.map_cons, List.sum_cons]
      ring

end Ticks

/-! ## The batch -/

/-- The shift that begins when a claim is committed. -/
def Shift.start (t : Time) (db : Db) (jobs : List Job) : Shift := ⟨t, db, jobs, none⟩

/-- Whenever the worker reaches `_execute`, the task is still its own. -/
def ReachesHeld (checks : Bool) (settings : Settings) (worker_id : String) (start : Shift) :
    Prop :=
  ∀ s, Shift.Reachable checks settings worker_id start s → ∀ job rest, s.executing = none →
    s.waiting = job :: rest → s.db.Holds worker_id job.task

/-- At every moment the tasks of the batch that are not over, the one that is being executed
among them, are still the worker's own. -/
def KeepsBatch (checks : Bool) (settings : Settings) (worker_id : String) (start : Shift) : Prop :=
  ∀ s, Shift.Reachable checks settings worker_id start s →
    (∀ e, s.executing = some e → s.db.Holds worker_id e.job.task) ∧
    ∀ job ∈ s.waiting, s.db.Holds worker_id job.task

section Batch

variable {checks : Bool} {settings : Settings} {worker_id : String} {db₀ db : Db} {t : Time}
  {tie : UUID → ℕ} {limit : ℕ} {jobs : List Job}

theorem intact_start (hinv : Inv checks db₀)
    (hclaim : exec (store checks) (claim_batch settings.lease_seconds (clockAt t) tie worker_id
      limit) db₀ = .ok (db, jobs.map Job.task)) :
    (Shift.start t db jobs).Intact checks worker_id (t + settings.lease_seconds) := by
  refine ⟨?_, fun job hjob => ?_, ?_, fun e he => ?_⟩
  · have hserve : serve checks db₀ (.claim settings.lease_seconds (clockAt t) tie worker_id limit)
        = db := commit_ok hclaim
    show Inv checks db
    rw [← hserve]
    exact serve_inv hinv _
  · exact leased_of_claim hinv hclaim (List.mem_map_of_mem hjob)
  · have hnodup := claimed_task_run_ids hinv hclaim
    rw [List.map_map] at hnodup
    exact hnodup
  · cases he

/-- A shift that starts on time stays so, and its waiting tasks stay leased. -/
theorem kept_on_time {need : List Job → ℚ} (hneed : Counts need)
    (hnonneg : ∀ jobs : List Job, (∀ job ∈ jobs, 0 ≤ job.duration) → 0 ≤ need jobs)
    {lease : Time} {start s : Shift} (hstart : start.Intact checks worker_id lease)
    (hontime : start.OnTime need lease)
    (hreach : Shift.Reachable checks settings worker_id start s) :
    s.Intact checks worker_id lease ∧ s.OnTime need lease := by
  refine Lts.Reach.invariant (P := fun s => s.Intact checks worker_id lease ∧ s.OnTime need lease)
    (fun s hs => ?_) (fun s l s' _ hsafe hstep => ?_) hreach
  · rw [hs]
    exact ⟨hstart, hontime⟩
  · refine ⟨hsafe.1.tick hstep (fun t' hl hwaiting => ?_), hsafe.2.tick hneed hstep⟩
    subst hl
    rcases tick_cases hstep with ⟨_, _, hl, -⟩ | ⟨_, _, hl, -⟩ | ⟨_, hl, -⟩ | ⟨_, hl, _, hidle, -⟩
    · cases hl
    · cases hl
    · cases hl
    · cases hl
      exact hsafe.2.sweep_le hnonneg hidle hwaiting

/-- The same for the task that is being executed, if the batch has the time for it. -/
theorem covered_on_time {lease : Time} {start s : Shift}
    (hstart : start.Intact checks worker_id lease)
    (hontime : start.OnTime (unrenewed settings) lease) (hidle : start.executing = none)
    (hreach : Shift.Reachable checks settings worker_id start s) : s.Covered worker_id := by
  have hsafe : Shift.Reachable checks settings worker_id start s ∧ s.Covered worker_id := by
    refine Lts.Reach.invariant (P := fun s =>
      Shift.Reachable checks settings worker_id start s ∧ s.Covered worker_id)
      (fun s hs => ?_) (fun s l s' hbefore hsafe hstep => ?_) hreach
    · refine ⟨.start hs, fun e he => ?_⟩
      rw [hs, hidle] at he
      cases he
    · obtain ⟨hintact, honwards⟩ := kept_on_time (counts_unrenewed settings)
        (fun _ => unrenewed_nonneg settings) hstart hontime hsafe.1
      exact ⟨hsafe.1.next hstep, hsafe.2.tick hintact honwards hstep⟩
  exact hsafe.2

/-- The last task of a batch is reached, with the lease of the claim. -/
theorem exists_reached (settings : Settings) {lease : Time}
    (hstart : (Shift.start t db jobs).Intact checks worker_id lease) (hne : jobs ≠ []) :
    ∃ s, Shift.Reachable checks settings worker_id (Shift.start t db jobs) s ∧
      s.Intact checks worker_id lease ∧ s.executing = none ∧ s.waiting = [jobs.getLast hne] ∧
      s.now = t + total jobs.dropLast :=
  exists_last settings (jobs.getLast hne) (.start rfl) hstart rfl
    (List.dropLast_append_getLast hne).symm

/-- **A worker keeps its batch exactly when the tasks before the last one and the last one up to
its first heartbeat take no longer than the lease.** The heartbeat renews the lease of the task
that is being executed; the others have only the lease of the claim, and each begins with what
is left of it. For reaching the tasks in time the ones before the last count alone. -/
theorem batch_kept_iff (h : Reachable checks db₀)
    (hclaim : exec (store checks) (claim_batch settings.lease_seconds (clockAt t) tie worker_id
      limit) db₀ = .ok (db, jobs.map Job.task)) (hjobs : ∀ job ∈ jobs, 0 ≤ job.duration) :
    (KeepsBatch checks settings worker_id (Shift.start t db jobs) ↔
      unrenewed settings jobs ≤ settings.lease_seconds) ∧
    (ReachesHeld checks settings worker_id (Shift.start t db jobs) ↔
      total jobs.dropLast ≤ settings.lease_seconds) := by
  have hstart := intact_start h.inv hclaim
  have hontime : ∀ need : List Job → ℚ, need jobs ≤ settings.lease_seconds →
      (Shift.start t db jobs).OnTime need (t + settings.lease_seconds) :=
    fun need hshort => ⟨hjobs, fun _ => add_le_add_right hshort t⟩
  refine ⟨⟨fun hkeeps => ?_, fun hshort s hreach => ⟨fun e he => ?_, fun job hjob => ?_⟩⟩,
    fun hreaches => ?_, fun hshort s hreach job rest _ hwaiting => ?_⟩
  · -- Otherwise a sweep finds the last task before its first heartbeat.
    by_contra hlong
    rw [not_le] at hlong
    by_cases hne : jobs = []
    · subst hne
      exact absurd hlong (not_lt.mpr (le_trans (le_of_eq (add_zero 0)) settings.lease_positive.le))
    obtain ⟨s, hreach, hintact, hexec, hwaiting, hnow⟩ :=
      exists_reached settings hstart hne
    have hduration := hjobs (jobs.getLast hne) (List.getLast_mem hne)
    have hfirst : 0 ≤ min (jobs.getLast hne).duration settings.heartbeat_seconds :=
      le_min hduration settings.heartbeat_positive.le
    have hbegin : tick checks settings worker_id s .begin = some { s with
        waiting := []
        executing := some ⟨jobs.getLast hne, s.now + (jobs.getLast hne).duration,
          s.now + settings.heartbeat_seconds, false⟩ } := by
      simp only [tick, hexec, hwaiting]
    have hsweep := tick_sweep_executing checks settings worker_id s.db []
      ⟨jobs.getLast hne, s.now + (jobs.getLast hne).duration,
          s.now + settings.heartbeat_seconds, false⟩
      (le_add_of_nonneg_right hfirst)
      (add_le_add_right (min_le_left _ _) s.now) (add_le_add_right (min_le_right _ _) s.now)
    have hleased := hintact.leased (jobs.getLast hne)
      (by rw [hwaiting]; exact List.mem_singleton_self _)
    have hexpired : t + settings.lease_seconds <
        s.now + min (jobs.getLast hne).duration settings.heartbeat_seconds := by
      unfold unrenewed at hlong
      rw [List.getLast?_eq_getLast_of_ne_nil hne] at hlong
      rw [hnow, add_assoc]
      exact add_lt_add_right hlong t
    exact hleased.reaped hintact.inv hexpired
      ((hkeeps _ ((hreach.next hbegin).next hsweep)).1 _ rfl)
  · obtain ⟨-, lease, hleased, -⟩ :=
      covered_on_time hstart (hontime _ hshort) rfl hreach e he
    exact hleased.holds
  · exact ((kept_on_time (counts_unrenewed settings) (fun _ => unrenewed_nonneg settings) hstart
      (hontime _ hshort) hreach).1.leased job hjob).holds
  · -- Otherwise a sweep just before the last task is reached takes it away.
    by_contra hlong
    rw [not_le] at hlong
    by_cases hne : jobs = []
    · subst hne
      exact absurd hlong (not_lt.mpr settings.lease_positive.le)
    obtain ⟨s, hreach, hintact, hexec, hwaiting, hnow⟩ :=
      exists_reached settings hstart hne
    have hstep : tick checks settings worker_id s (.sweep s.now)
        = some { s with now := s.now, db := serve checks s.db (.reap (clockAt s.now)) } := by
      simp only [tick, Shift.idleUntil, hexec, hwaiting]
      simp
    have hleased := hintact.leased (jobs.getLast hne)
      (by rw [hwaiting]; exact List.mem_singleton_self _)
    have hexpired : t + settings.lease_seconds < s.now := by
      rw [hnow]
      exact add_lt_add_right hlong t
    exact hleased.reaped hintact.inv hexpired (hreaches _ (hreach.next hstep) _ [] hexec hwaiting)
  · exact ((kept_on_time counts_dropLast (fun _ => total_dropLast_nonneg) hstart
      (hontime _ hshort) hreach).1.leased job (by rw [hwaiting]; exact List.mem_cons_self)).holds

end Batch

/-! ## A batch of two -/

/-- Workflow 1 with two tasks that do not depend on each other, and its run. -/
def pairStart : List Op :=
  [.publish ⟨1, fun key => if key = "a" then 2 else 3⟩ 0 "pair"
      [sampleTask "a" [] noRetry, sampleTask "b" [] noRetry] none,
    .submit ⟨10, fun task => 10 + task⟩ (clockAt 0) 1 none]

/-- A worker with the default settings claims both. -/
def pairClaim : Except Exn (Db × List ClaimedTask) :=
  exec (store true) (claim_batch Settings.default.lease_seconds (clockAt 0) id "w1" 10)
    (served true pairStart)

/-- The claimed tasks with their durations; all of them succeed. -/
def jobsOf : List ClaimedTask → List ℚ → List Job
  | task :: tasks, d :: durations => ⟨task, d, .success none, id⟩ :: jobsOf tasks durations
  | _, _ => []

/-- The shift of a claim. -/
def shiftOf (durations : List ℚ) : Except Exn (Db × List ClaimedTask) → Shift
  | .ok (db, batch) => Shift.start 0 db (jobsOf batch durations)
  | .error _ => Shift.start 0 Db.empty []

/-- Ticks one after the other. -/
def ticks (checks : Bool) (settings : Settings) (worker_id : String) :
    Option Shift → List Tick → Option Shift
  | s, [] => s
  | s, l :: ls => ticks checks settings worker_id (s.bind (tick checks settings worker_id · l)) ls

theorem ticks_none (checks : Bool) (settings : Settings) (worker_id : String) (ls : List Tick) :
    ticks checks settings worker_id none ls = none := by
  induction ls with
  | nil => rfl
  | cons l ls ih => exact ih

/-- Ticks that can all happen are a run. -/
theorem reachable_ticks {checks : Bool} {settings : Settings} {worker_id : String}
    {start s s' : Shift} (hs : Shift.Reachable checks settings worker_id start s) {ls : List Tick}
    (h : ticks checks settings worker_id (some s) ls = some s') :
    Shift.Reachable checks settings worker_id start s' := by
  induction ls generalizing s with
  | nil =>
      cases h
      exact hs
  | cons l ls ih =>
      rw [ticks, Option.bind_some] at h
      cases hstep : tick checks settings worker_id s l with
      | none =>
          rw [hstep, ticks_none] at h
          cases h
      | some s₁ =>
          rw [hstep] at h
          exact ih (hs.next hstep) h

/-- The first task takes 70 seconds, its lease is renewed four times, and then the
reaper sweeps. -/
def slowFirst : List Tick := [.begin, .beat, .beat, .beat, .beat, .finish, .sweep 70]

/-- The worker is about to begin a task that is not its own. -/
def Shift.robbed (worker_id : String) (s : Shift) : Bool :=
  match s.executing, s.waiting with
  | none, job :: _ => !decide (s.db.Holds worker_id job.task)
  | _, _ => false

/-- The claim of the pair, and the tasks it hands out. -/
theorem pairClaim_ok : ∃ db first second, pairClaim = .ok (db, [first, second]) := by
  have hlength : pairClaim.toOption.map (fun out => out.2.length) = some 2 := by decide +kernel
  cases hclaim : pairClaim with
  | error e =>
      rw [hclaim] at hlength
      cases hlength
  | ok out =>
      rw [hclaim] at hlength
      obtain ⟨first, second, hbatch⟩ := List.length_eq_two.mp (Option.some.inj hlength)
      exact ⟨out.1, first, second, by rw [← hbatch]⟩

theorem waiting_task_reaped :
    Reachable true (served true pairStart) ∧ ∃ db batch,
      pairClaim = .ok (db, (jobsOf batch [70, 1]).map Job.task) ∧
      ¬ KeepsBatch true Settings.default "w1" (Shift.start 0 db (jobsOf batch [70, 1])) := by
  refine ⟨reachable_served true pairStart, ?_⟩
  have hrun : (ticks true Settings.default "w1" (some (shiftOf [70, 1] pairClaim)) slowFirst).any
      (Shift.robbed "w1") = true := by decide +kernel
  obtain ⟨db, first, second, hclaim⟩ := pairClaim_ok
  rw [hclaim] at hrun
  refine ⟨db, [first, second], hclaim, fun hkeeps => ?_⟩
  obtain ⟨s, hs, hrobbed⟩ := (Option.any_eq_true _ _).mp hrun
  have hreach : Shift.Reachable true Settings.default "w1"
      (Shift.start 0 db (jobsOf [first, second] [70, 1])) s :=
    reachable_ticks (.start rfl) hs
  unfold Shift.robbed at hrobbed
  split at hrobbed
  · rename_i job rest hexec hwaiting
    have hlost : ¬ s.db.Holds "w1" job.task := by simpa using hrobbed
    exact hlost ((hkeeps s hreach).2 job (by rw [hwaiting]; exact List.mem_cons_self))
  · cases hrobbed

theorem batch_kept_pair :
    ∃ db batch, pairClaim = .ok (db, (jobsOf batch [20, 1]).map Job.task) ∧
      KeepsBatch true Settings.default "w1" (Shift.start 0 db (jobsOf batch [20, 1])) := by
  obtain ⟨db, first, second, hclaim⟩ := pairClaim_ok
  have hdurations : ∀ job ∈ jobsOf [first, second] [20, 1], 0 ≤ job.duration := by
    intro job hjob
    simp only [jobsOf, List.mem_cons, List.not_mem_nil, or_false] at hjob
    rcases hjob with rfl | rfl
    · norm_num
    · norm_num
  have hbatch : exec (store true)
      (claim_batch Settings.default.lease_seconds (clockAt 0) id "w1" 10)
      (served true pairStart) = .ok (db, (jobsOf [first, second] [20, 1]).map Job.task) := hclaim
  have hkept := batch_kept_iff (reachable_served true pairStart) hbatch hdurations
  refine ⟨db, [first, second], hclaim, hkept.1.mpr ?_⟩
  simp only [jobsOf, unrenewed, total, List.dropLast, List.map_cons, List.map_nil, List.sum_cons,
    List.sum_nil, List.getLast?_cons_cons, List.getLast?_singleton, Option.elim_some]
  norm_num [Settings.default]

end Conductor
