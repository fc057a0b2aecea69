/-
`Worker.run_forever`: one poll after the other until the shutdown event is set.

On `SIGTERM` the worker finishes what it holds and claims no more, for the event is
looked at between two iterations only. Its `register` writes a row that nothing reads,
and its waiting is time in which the other processes go on; a poll therefore starts with
their transactions.

What holds in every course of events is a balance: the tasks that the worker has claimed
are those it has counted as succeeded, failed or lost, and besides at most one batch of
which it still holds tasks. Where no exception leaves an iteration, nothing is left over.
-/
import Conductor.QueueDrains
import Conductor.RunOnce

set_option autoImplicit false

open Relational Txn Progress

namespace Conductor

open RunRepository TaskQueueRepository WorkflowRepository

/-! ## The loop -/

/-- What one iteration of the loop meets with. -/
structure Poll where
  /-- The transactions of others since the last iteration. -/
  before : List Op
  clock : Clock
  tie : UUID → ℕ
  turn : ClaimedTask → Turn

/-- What an iteration leaves: each call of `_execute` starts from what the one before it
left. An iteration that makes no call has claimed nothing. -/
def Iteration.left (it : Iteration) (db : Db) (stats : WorkerStats) : Db × WorkerStats :=
  it.calls.foldl (fun _ call => (call.db, call.stats)) (db, stats)

/-- How the loop ends. -/
structure Stopped where
  db : Db
  stats : WorkerStats
  idle_polls : ℕ
  /-- The exception that leaves the loop; without one, the shutdown event was set. -/
  escaped : Option Exn

/-- `Worker.run_forever`, for the polls before the shutdown event is set. -/
def run_forever (checks : Bool) (settings : Settings) (claim_batch_size : ℕ)
    (worker_id : String) : Db → WorkerStats → ℕ → List Poll → Stopped
  | db, stats, idle_polls, [] => ⟨db, stats, idle_polls, none⟩
  | db, stats, idle_polls, poll :: polls =>
      let db := poll.before.foldl (elsewhere checks worker_id) db
      let it := run_once checks settings claim_batch_size worker_id none poll.clock poll.tie
        poll.turn db stats
      let (db, stats) := it.left db stats
      match it.returned with
      | .error e => ⟨db, stats, idle_polls, some e⟩
      | .ok 0 => run_forever checks settings claim_batch_size worker_id db stats
          (idle_polls + 1) polls
      | .ok _ => run_forever checks settings claim_batch_size worker_id db stats idle_polls polls

variable {checks : Bool} {db db' : Db} {settings : Settings} {worker_id : String}
  {claim_batch_size : ℕ} {turn : ClaimedTask → Turn}

/-! ## What a worker still holds -/

/-- The worker holds these tasks at most. -/
def Db.HoldsAtMost (db : Db) (worker_id : String) (tasks : List ClaimedTask) : Prop :=
  ∀ task_run_id, db.HeldBy worker_id task_run_id →
    task_run_id ∈ tasks.map ClaimedTask.task_run_id

/-- A report gives the worker no task. -/
theorem heldBy_of_complete (hinv : Inv checks db) {report : Report} {task_run_id : UUID}
    (hheld : (transact checks db (.complete report)).HeldBy worker_id task_run_id) :
    db.HeldBy worker_id task_run_id := by
  obtain ⟨r', hr', hrow⟩ := hheld
  obtain ⟨hid, hworker, -⟩ := heldBy_iff.mp hrow
  obtain ⟨r, hr, hrid, howner, -⟩ := (quiet_complete hinv report).2 r' hr' worker_id hworker
  have hrunning := (hinv.good.lawful r hr).running_of_worker (by rw [howner]; rfl)
  exact ⟨r, hr, heldBy_iff.mpr ⟨hrid.trans hid, howner, hrunning⟩⟩

/-- Nothing that takes place while tasks are executed gives the worker a task. -/
theorem carries_heldBy (checks : Bool) (settings : Settings) (worker_id : String) :
    Carries checks settings worker_id (fun _ => True) (fun db db' =>
      ∀ task_run_id, db'.HeldBy worker_id task_run_id → db.HeldBy worker_id task_run_id) where
  refl _ _ hheld := hheld
  trans _ _ _ h h' task_run_id hheld := h task_run_id (h' task_run_id hheld)
  other _ _ hsound _ _ hheld := heldBy_of_elsewhere hsound hheld
  renew _ _ _ hsound _ hheld := heldBy_of_serve hsound.inv rfl hheld
  complete _ _ hsound _ hheld := heldBy_of_complete hsound.inv hheld

/-- **One call of `_execute` leaves the worker no more than it held,** and not the task
of the call if it comes to its end. -/
theorem execute_holds (h : db.Sound checks) (stats : WorkerStats) (task : ClaimedTask) :
    (∀ task_run_id,
      (execute checks settings worker_id (turn task) db stats task).db.HeldBy worker_id
        task_run_id → db.HeldBy worker_id task_run_id) ∧
    ((execute checks settings worker_id (turn task) db stats task).escaped = none →
      ¬ (execute checks settings worker_id (turn task) db stats task).db.HeldBy worker_id
        task.task_run_id) := by
  obtain ⟨hbefore, hafter⟩ := (carries_heldBy checks settings worker_id).execute h stats
    (turn task).allows_true
  refine ⟨fun task_run_id hheld => hbefore task_run_id (hafter task_run_id hheld),
    fun hended hheld => ?_⟩
  -- Had the worker still held the task, its report would have moved it.
  obtain ⟨htask, -, -, hsettled⟩ := execute_spec settings worker_id turn h stats task
  have hmoved := (hsettled hended).moved
  rw [htask] at hmoved
  obtain ⟨r, hget, hstate⟩ := hmoved (hafter task.task_run_id hheld)
  obtain ⟨hr, hid⟩ := Table.get_eq_some.mp hget
  obtain ⟨r', hr', hrow⟩ := hheld
  obtain ⟨hid', -, hrunning⟩ := heldBy_iff.mp hrow
  have hsame := Table.eq_of_key _ hr hr' (hid.trans hid'.symm)
  exact hstate (hsame ▸ hrunning)

/-! ## A batch -/

/-- The balance of a worker: what it has claimed, it has counted, up to some tasks, and
it holds no others. -/
structure Balanced (checks : Bool) (worker_id : String) (open_tasks : List ClaimedTask)
    (s : Db × WorkerStats) : Prop where
  sound : s.1.Sound checks
  holds : s.1.HoldsAtMost worker_id open_tasks
  counted : s.2.claimed = s.2.succeeded + s.2.failed + s.2.lost_leases + open_tasks.length

/-- A call that comes to its end settles its task. -/
theorem Balanced.execute {task : ClaimedTask} {batch : List ClaimedTask} {stats : WorkerStats}
    (h : Balanced checks worker_id (task :: batch) (db, stats))
    (hended : (execute checks settings worker_id (turn task) db stats task).escaped = none) :
    Balanced checks worker_id batch
      ((execute checks settings worker_id (turn task) db stats task).db,
        (execute checks settings worker_id (turn task) db stats task).stats) := by
  obtain ⟨hback, hsettled⟩ := execute_holds h.sound stats task
  obtain ⟨hclaimed, hcounts⟩ := execute_counts db stats task hended
  refine ⟨(execute_spec settings worker_id turn h.sound stats task).2.1,
    fun task_run_id hheld => ?_, ?_⟩
  · have hmem := h.holds task_run_id (hback task_run_id hheld)
    rw [List.map_cons] at hmem
    rcases List.mem_cons.mp hmem with heq | hmem
    · rw [heq] at hheld
      exact absurd hheld (hsettled hended)
    · exact hmem
  · have hcounted := h.counted
    dsimp only at hcounted ⊢
    rw [List.length_cons] at hcounted
    rw [hclaimed]
    omega

/-- A call that raises leaves the counters, and the worker its tasks. -/
theorem Balanced.raise {task : ClaimedTask} {batch : List ClaimedTask} {stats : WorkerStats}
    {e : Exn} (h : Balanced checks worker_id (task :: batch) (db, stats))
    (hraised : (Conductor.execute checks settings worker_id (turn task) db stats task).escaped
      = some e) :
    Balanced checks worker_id (task :: batch)
      ((Conductor.execute checks settings worker_id (turn task) db stats task).db,
        (Conductor.execute checks settings worker_id (turn task) db stats task).stats) := by
  have hstats : (Conductor.execute checks settings worker_id (turn task) db stats task).stats
      = stats := by
    unfold Conductor.execute at hraised ⊢
    cases hresult : (turn task).outcome.result with
    | error e => rfl
    | ok result =>
        rw [hresult] at hraised
        dsimp only at hraised ⊢
        split
        · rename_i hlost
          rw [if_pos hlost] at hraised
          cases hraised
        · rename_i hkept
          rw [if_neg hkept] at hraised
          split
          · rename_i hexec
            rw [hexec] at hraised
            cases hraised
          · rfl
  refine ⟨(execute_spec settings worker_id turn h.sound stats task).2.1, fun task_run_id hheld =>
    h.holds task_run_id ((execute_holds h.sound stats task).1 task_run_id hheld), ?_⟩
  dsimp only
  rw [hstats]
  exact h.counted

/-- What an iteration leaves does not depend on where it started once it makes a call. -/
theorem left_ofCalls {calls : List ExecuteCall} (hcalls : calls ≠ []) (size : ℕ) (db db' : Db)
    (stats stats' : WorkerStats) :
    (Iteration.ofCalls calls size).left db stats
      = (Iteration.ofCalls calls size).left db' stats' := by
  obtain ⟨call, calls, rfl⟩ := List.exists_cons_of_ne_nil hcalls
  rfl

variable (checks db settings worker_id turn) in
/-- The loop makes a call for the first task of its batch. -/
theorem executeAll_ne_nil (stats : WorkerStats) (task : ClaimedTask) (batch : List ClaimedTask) :
    executeAll checks settings worker_id turn db stats (task :: batch) ≠ [] := by
  rw [executeAll]
  cases (execute checks settings worker_id (turn task) db stats task).escaped with
  | some e => exact List.cons_ne_nil _ _
  | none => exact List.cons_ne_nil _ _

variable (settings turn) in
/-- **The loop over a batch keeps the balance:** it comes to the end of the batch, or
stops before some tasks of it. -/
theorem executeAll_balanced {batch : List ClaimedTask} {stats : WorkerStats}
    (h : Balanced checks worker_id batch (db, stats)) (size : ℕ) :
    let it := Iteration.ofCalls (executeAll checks settings worker_id turn db stats batch) size
    ∃ open_tasks, open_tasks <:+ batch ∧
      Balanced checks worker_id open_tasks (it.left db stats) ∧
      (∀ n, it.returned = .ok n → open_tasks = [] ∧ n = size) := by
  induction batch generalizing db stats with
  | nil =>
      refine ⟨[], List.suffix_refl _, h, fun n hok => ⟨rfl, ?_⟩⟩
      cases hok
      rfl
  | cons task batch ih =>
      rw [executeAll]
      cases hcase : (execute checks settings worker_id (turn task) db stats task).escaped with
      | some e =>
          refine ⟨task :: batch, List.suffix_refl _, h.raise hcase, fun n hok => ?_⟩
          simp only [Iteration.ofCalls, List.findSome?_cons, hcase] at hok
          cases hok
      | none =>
          obtain ⟨open_tasks, hsuffix, hbalanced, hreturned⟩ := ih (h.execute hcase)
          refine ⟨open_tasks, hsuffix.trans (List.suffix_cons task batch), hbalanced, ?_⟩
          simp only [Iteration.ofCalls, List.findSome?_cons, hcase] at hreturned ⊢
          exact hreturned

/-! ## A claim -/

section Claim

variable {lease_seconds : ℚ} {clock : Clock} {tie : UUID → ℕ} {limit : ℕ}
  {batch : List ClaimedTask}

/-- A claim hands out the rows it picked, in order. -/
theorem claimed_ids (hinv : Inv checks db)
    (hclaim : exec (store checks) (claim_batch lease_seconds clock tie worker_id limit) db
      = .ok (db', batch)) :
    batch.map ClaimedTask.task_run_id
      = (db.task_runs.rows.filter (picked tie clock.utcnow limit db)).map TaskRun.id := by
  obtain ⟨-, hresults, -⟩ :=
    (exec_claim_batch hinv.good hinv.claimable lease_seconds clock tie worker_id limit).mp hclaim
  have hrows : (db.task_runs.rows.filter (picked tie clock.utcnow limit db)).map TaskRun.id
      = (claimedRows tie clock limit worker_id (clock.utcnow + lease_seconds) db).map
          TaskRun.id := by
    rw [claimedRows, List.map_map]
    rfl
  rw [hrows]
  dsimp only at hresults
  generalize claimedRows tie clock limit worker_id (clock.utcnow + lease_seconds) db = rows
    at hresults
  clear hrows hclaim
  induction hresults with
  | nil => rfl
  | cons hok _ ih =>
      rw [List.map_cons, List.map_cons, ih]
      unfold toClaimedTask at hok
      split at hok
      · cases hok
      · cases hok
        rfl

/-- A batch is no longer than the limit. -/
theorem claimed_length_le (hinv : Inv checks db)
    (hclaim : exec (store checks) (claim_batch lease_seconds clock tie worker_id limit) db
      = .ok (db', batch)) : batch.length ≤ limit := by
  have hnodup := claimed_task_run_ids hinv hclaim
  have hsub : batch.map ClaimedTask.task_run_id ⊆
      candidates tie clock.utcnow limit db.task_runs.rows := by
    rw [claimed_ids hinv hclaim]
    intro task_run_id hmem
    obtain ⟨r, hr, rfl⟩ := List.mem_map.mp hmem
    exact of_decide_eq_true (List.mem_filter.mp hr).2
  have hle := (List.subperm_of_subset hnodup hsub).length_le
  rw [List.length_map, candidates, List.length_map] at hle
  exact hle.trans (List.length_take_le _ _)

/-- A claim that finds nothing leaves the database alone. -/
theorem claim_nothing (hinv : Inv checks db)
    (hclaim : exec (store checks) (claim_batch lease_seconds clock tie worker_id limit) db
      = .ok (db', [])) : db' = db := by
  have hids := claimed_ids hinv hclaim
  obtain ⟨-, -, hdb'⟩ :=
    (exec_claim_batch hinv.good hinv.claimable lease_seconds clock tie worker_id limit).mp hclaim
  have hnone : db.task_runs.rows.filter (picked tie clock.utcnow limit db) = [] :=
    List.map_eq_nil_iff.mp hids.symm
  have hattempts :
      newAttempts tie clock limit worker_id (clock.utcnow + lease_seconds) db = [] := by
    rw [newAttempts, claimedRows, hnone, List.map_nil, List.map_nil]
  have htable : (⟨newAttempts tie clock limit worker_id (clock.utcnow + lease_seconds) db,
      newAttempts_nodup⟩ : Table (UUID × ℤ) TaskAttempt TaskAttempt.pk) = Table.empty :=
    Table.ext_rows hattempts
  refine hdb'.trans ?_
  rw [claimedDb, htable, Table.empty_overlay, Table.update_eq_self]
  intro r hr
  by_contra hpicked
  have hmem := List.mem_filter.mpr ⟨hr, by simpa using hpicked⟩
  rw [hnone] at hmem
  cases hmem

/-- A claim makes the worker the holder of its batch, of nothing else. -/
theorem holdsAtMost_of_claim (hinv : Inv checks db)
    (hclaim : exec (store checks) (claim_batch lease_seconds clock tie worker_id limit) db
      = .ok (db', batch)) (hfree : db.HoldsAtMost worker_id []) :
    db'.HoldsAtMost worker_id batch := by
  rintro task_run_id ⟨r', hr', hheld⟩
  obtain ⟨r, hr, rfl⟩ := (rewritten_claim hinv hclaim).mem_rows.mp hr'
  split at hheld
  · rename_i hpicked
    rw [claimed_ids hinv hclaim, ← (heldBy_iff.mp hheld).1]
    exact List.mem_map.mpr ⟨r, List.mem_filter.mpr ⟨hr, hpicked⟩, rfl⟩
  · cases hfree task_run_id ⟨r, hr, hheld⟩

end Claim

/-! ## The whole loop -/

/-- What is known between two iterations: the worker holds nothing, and has counted all
it claimed. -/
abbrev Settled (checks : Bool) (worker_id : String) (s : Db × WorkerStats) : Prop :=
  Balanced checks worker_id [] s

theorem Balanced.meanwhile {stats : WorkerStats} (h : Settled checks worker_id (db, stats))
    (settings : Settings) (ops : List Op) :
    Settled checks worker_id (ops.foldl (elsewhere checks worker_id) db, stats) :=
  ⟨meanwhile_sound h.sound ops, fun task_run_id hheld => h.holds task_run_id
    ((carries_heldBy checks settings worker_id).meanwhile h.sound
      (fun _ _ => trivial) task_run_id hheld), h.counted⟩

variable (settings) in
/-- **One iteration:** what it leaves open is at most a batch, and nothing if it
returns. -/
theorem run_once_balanced {stats : WorkerStats} (h : Settled checks worker_id (db, stats))
    (claim_batch_size : ℕ) (clock : Clock) (tie : UUID → ℕ) (turn : ClaimedTask → Turn) :
    ∃ open_tasks, open_tasks.length ≤ claim_batch_size ∧
      Balanced checks worker_id open_tasks ((run_once checks settings claim_batch_size worker_id
        none clock tie turn db stats).left db stats) ∧
      ∀ n, (run_once checks settings claim_batch_size worker_id none clock tie turn db
        stats).returned = .ok n → open_tasks = [] := by
  cases hclaim : exec (postgres checks) (claim_batch settings.lease_seconds clock tie worker_id
      ((Option.none.filter (· ≠ 0)).getD claim_batch_size)) db with
  | error e =>
      have hit : run_once checks settings claim_batch_size worker_id none clock tie turn db stats
          = ⟨[], .error e⟩ := by
        unfold run_once
        simp only [hclaim]
      rw [hit]
      exact ⟨[], Nat.zero_le _, h, fun n hok => by cases hok⟩
  | ok out =>
      obtain ⟨db', batch⟩ := out
      obtain ⟨hstore, hclean⟩ := exec_of_postgres hclaim
      have hsound : db'.Sound checks := by
        refine ⟨?_, hclean h.sound.clean⟩
        rw [← commit_ok hstore]
        exact serve_inv h.sound.inv (.claim _ clock tie worker_id claim_batch_size)
      have hbalanced : Balanced checks worker_id batch
          (db', { stats with claimed := stats.claimed + batch.length }) := by
        refine ⟨hsound, holdsAtMost_of_claim h.sound.inv hstore h.holds, ?_⟩
        have hcounted := h.counted
        dsimp only at hcounted ⊢
        rw [List.length_nil] at hcounted
        omega
      obtain ⟨open_tasks, hsuffix, hleft, hreturned⟩ :=
        executeAll_balanced settings turn hbalanced batch.length
      rw [run_once_of_claim hclaim turn stats]
      refine ⟨open_tasks, hsuffix.length_le.trans (claimed_length_le h.sound.inv hstore), ?_,
        fun n hok => (hreturned n hok).1⟩
      cases batch with
      | nil =>
          obtain rfl := List.suffix_nil.mp hsuffix
          exact h
      | cons task batch =>
          have hcalls := executeAll_ne_nil checks db' settings worker_id turn
            { stats with claimed := stats.claimed + (task :: batch).length } task batch
          rw [left_ofCalls hcalls _ db db' stats
            { stats with claimed := stats.claimed + (task :: batch).length }]
          exact hleft

/-- The balance over all iterations. -/
theorem run_forever_balanced {stats : WorkerStats} (h : Settled checks worker_id (db, stats))
    (settings : Settings) (claim_batch_size idle_polls : ℕ) (polls : List Poll) :
    let out := run_forever checks settings claim_batch_size worker_id db stats idle_polls polls
    ∃ open_tasks, open_tasks.length ≤ claim_batch_size ∧
      Balanced checks worker_id open_tasks (out.db, out.stats) ∧
      (out.escaped = none → open_tasks = []) := by
  induction polls generalizing db stats idle_polls with
  | nil => exact ⟨[], Nat.zero_le _, h, fun _ => rfl⟩
  | cons poll polls ih =>
      obtain ⟨open_tasks, hlength, hleft, hreturned⟩ := run_once_balanced settings
        (h.meanwhile settings poll.before) claim_batch_size poll.clock poll.tie poll.turn
      rw [run_forever]
      dsimp only
      split
      · exact ⟨open_tasks, hlength, hleft, fun he => by cases he⟩
      -- An iteration that returns has settled its batch.
      · rename_i hok
        obtain rfl := hreturned _ hok
        exact ih hleft _
      · rename_i hok
        obtain rfl := hreturned _ hok
        exact ih hleft _

/-- **Shutdown is graceful.** A worker that starts with nothing in its hands, and whose
loop ends at the shutdown event, holds no task any more, whatever the other processes and
its heartbeats did meanwhile, and each task that it claimed is counted once: as succeeded,
as failed or as lost. Where an exception ends the loop instead, at most one batch is left
over, whose tasks have not been counted. -/
theorem shutdown_is_graceful (h : PgReachable checks db) (hfree : ∀ t, ¬ db.HeldBy worker_id t)
    (settings : Settings) (claim_batch_size : ℕ) (polls : List Poll) :
    let out := run_forever checks settings claim_batch_size worker_id db ⟨0, 0, 0, 0⟩ 0 polls
    (∃ open_tasks : List UUID, open_tasks.length ≤ claim_batch_size ∧
      (∀ t, out.db.HeldBy worker_id t → t ∈ open_tasks) ∧
      out.stats.claimed = out.stats.succeeded + out.stats.failed + out.stats.lost_leases
        + open_tasks.length) ∧
    (out.escaped = none → (∀ t, ¬ out.db.HeldBy worker_id t) ∧
      out.stats.claimed = out.stats.succeeded + out.stats.failed + out.stats.lost_leases) := by
  intro out
  have hstart : Settled checks worker_id (db, ⟨0, 0, 0, 0⟩) :=
    ⟨h.sound, fun t hheld => absurd hheld (hfree t), rfl⟩
  obtain ⟨open_tasks, hlength, hbalanced, hreturned⟩ :=
    run_forever_balanced hstart settings claim_batch_size 0 polls
  refine ⟨⟨open_tasks.map ClaimedTask.task_run_id, ?_, hbalanced.holds, ?_⟩, fun hended => ?_⟩
  · rw [List.length_map]
    exact hlength
  · rw [List.length_map]
    exact hbalanced.counted
  · obtain rfl := hreturned hended
    exact ⟨fun t hheld => List.not_mem_nil (hbalanced.holds t hheld), hbalanced.counted⟩

/-- Two independent tasks with two attempts each. -/
def retriedPair : List Op :=
  [.publish ⟨1, fun key => if key = "a" then 2 else 3⟩ 0 "pair"
      [sampleTask "a" [] retryOnce, sampleTask "b" [] retryOnce] none,
    .submit ⟨10, fun task => 10 + task⟩ (clockAt 0) 1 none]

/-- The worker claims both. The first crashes its executor; while the second one runs,
its lease expires and is reaped. The next poll finds both again, the one after it
nothing. -/
def eventfulPolls : List Poll :=
  [⟨[], clockAt 0, id, fun task =>
      if task.task_run_id = 12 then ⟨[], .crashed "ValueError" "boom", [], clockAt 1, id⟩
      else ⟨[.other (.reap (clockAt 100)), .beat (clockAt 101)], .returned Dict.empty, [],
        clockAt 102, id⟩⟩,
    ⟨[.reap (clockAt 200)], clockAt 200, id, fun _ =>
      ⟨[.beat (clockAt 201)], .returned Dict.empty, [], clockAt 202, id⟩⟩,
    ⟨[], clockAt 203, id, fun _ => ⟨[], .returned Dict.empty, [], clockAt 203, id⟩⟩]

def eventfulWorker : Stopped :=
  run_forever true Settings.default 10 "w1" (pgServed true retriedPair) ⟨0, 0, 0, 0⟩ 0
    eventfulPolls

/-- Of four attempts two succeed, one fails, and one is lost to the reaper. -/
theorem shutdown_is_graceful_eventful :
    eventfulWorker.stats = ⟨4, 2, 1, 1⟩ ∧ eventfulWorker.idle_polls = 1 ∧
      ∀ t, ¬ eventfulWorker.db.HeldBy "w1" t := by
  have hfree : ∀ t, ¬ (pgServed true retriedPair).HeldBy "w1" t := by
    rintro t ⟨r, hr, hheld⟩
    have hnobody : ∀ r ∈ (pgServed true retriedPair).task_runs.rows, r.worker_id = none := by
      decide +kernel
    have hworker := (heldBy_iff.mp hheld).2.1
    rw [hnobody r hr] at hworker
    cases hworker
  have hended : eventfulWorker.escaped = none := by decide +kernel
  exact ⟨by decide +kernel, by decide +kernel,
    ((shutdown_is_graceful (pgReachable_served true retriedPair) hfree Settings.default 10
      eventfulPolls).2 hended).1⟩

end Conductor
