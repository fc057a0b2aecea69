/-
The service as a state machine over its database.

An `Op` is one committed transaction: publishing a workflow, submitting a run, or
one of the queue operations, with whatever clock readings, ids and jitter it
drew. A transaction that raises leaves the database as it was. The states of the
system are the databases reachable from one that holds sound definitions and no
runs, the empty database among them.

Section by section: what each operation does to the rows of a database that
satisfies `Inv`, as a `QueueStep` with its row rewrite written out; then, by cases
on the operation, that every reachable database satisfies `Inv`.
-/
import Conductor.Lib.Runs
import Conductor.Invariant

set_option autoImplicit false

open Relational Txn

namespace Conductor

open RunRepository TaskQueueRepository WorkflowRepository

/-! ## Operations -/

/-- `POST /runs` for a workflow of the database. -/
def submitRun (ids : RunIds) (clock : Clock) (workflow_id : UUID)
    (trigger_payload : Option Dict) : Tx WorkflowRun :=
  .read (fun db =>
    match db.workflows.get workflow_id with
    | none => .raise (.NotFoundError "workflow not found")
    | some workflow =>
        create_run ids clock workflow (dependencies db workflow.id) trigger_payload)

/-- One committed transaction. -/
inductive Op where
  | publish (ids : WorkflowIds) (now : Time) (name : String) (specs : List TaskSpec)
      (description : Option String)
  | submit (ids : RunIds) (clock : Clock) (workflow_id : UUID) (trigger_payload : Option Dict)
  | claim (lease_seconds : ℚ) (clock : Clock) (tie : UUID → ℕ) (worker_id : String) (limit : ℕ)
  | renew (lease_seconds : ℚ) (clock : Clock) (task_run_id : UUID) (worker_id : String)
  | success (clock : Clock) (task_run_id : UUID) (worker_id : String) (output : Option Dict)
  | failure (clock : Clock) (uniform : ℚ → ℚ) (task_run_id : UUID) (worker_id : String)
      (error : String)
  | reap (clock : Clock)
  | cancel (clock : Clock) (run_id : UUID)
  | refresh (clock : Clock) (run_id : UUID)

/-- The operations on the queue, which create nothing. -/
def Op.isQueue : Op → Bool
  | .publish .. | .submit .. => false
  | _ => true

/-- The database after a transaction: as it left it, or unchanged if it raised. -/
def commit {α : Type} (checks : Bool) (tx : Tx α) (db : Db) : Db :=
  match exec (store checks) tx db with
  | .ok out => out.1
  | .error _ => db

theorem commit_ok {α : Type} {checks : Bool} {tx : Tx α} {db db' : Db} {a : α}
    (h : exec (store checks) tx db = .ok (db', a)) : commit checks tx db = db' := by
  simp [commit, h]

theorem commit_error {α : Type} {checks : Bool} {tx : Tx α} {db : Db} {e : Exn}
    (h : exec (store checks) tx db = .error e) : commit checks tx db = db := by
  simp [commit, h]

/-- A commit of queue statements leaves the run rows alone. -/
theorem runs_of_commit {α : Type} {checks : Bool} {tx : Tx α} {P : TaskRun → Prop}
    (h : tx.Writes (QueueWrite P)) (db : Db) :
    (commit checks tx db).workflow_runs = db.workflow_runs := by
  cases hexec : exec (store checks) tx db with
  | error e => rw [commit_error hexec]
  | ok out =>
      rw [commit_ok hexec]
      exact runs_of_writes h hexec

/-- A transaction that does not raise leaves the database that `commit` gives. -/
theorem exec_of_isOk {α : Type} {checks : Bool} {tx : Tx α} {db : Db}
    (h : (exec (store checks) tx db).isOk = true) :
    ∃ a, exec (store checks) tx db = .ok (commit checks tx db, a) := by
  cases hexec : exec (store checks) tx db with
  | error e =>
      rw [hexec] at h
      cases h
  | ok out =>
      rw [commit_ok hexec]
      exact ⟨out.2, rfl⟩

/-- Enough rounds for a blocking walk over the rows there are. -/
def walkRounds (db : Db) : ℕ := db.task_runs.rows.length + 1

/-- The database after an operation. -/
def serve (checks : Bool) (db : Db) : Op → Db
  | .publish ids now name specs description =>
      commit checks (create ids now name specs description) db
  | .submit ids clock workflow_id trigger_payload =>
      commit checks (submitRun ids clock workflow_id trigger_payload) db
  | .claim lease_seconds clock tie worker_id limit =>
      commit checks (claim_batch lease_seconds clock tie worker_id limit) db
  | .renew lease_seconds clock task_run_id worker_id =>
      commit checks (renew_lease lease_seconds clock task_run_id worker_id) db
  | .success clock task_run_id worker_id output =>
      commit checks (record_success clock task_run_id worker_id output) db
  | .failure clock uniform task_run_id worker_id error =>
      commit checks (record_failure clock uniform (walkRounds db) task_run_id worker_id error) db
  | .reap clock => commit checks (reap_expired_leases clock) db
  | .cancel clock run_id => commit checks (RunRepository.cancel clock run_id) db
  | .refresh clock run_id => commit checks (refresh_run_state clock run_id) db

/-- A database with sound definitions on which nothing has run yet. -/
structure Initial (db : Db) : Prop where
  definitions : db.Definitions
  no_runs : db.workflow_runs.rows = []
  no_task_runs : db.task_runs.rows = []
  no_attempts : db.task_attempts.rows = []

/-- The databases of the system. -/
def Reachable (checks : Bool) : Db → Prop :=
  Lts.Reach Initial (fun db op db' => serve checks db op = db')

theorem initial_empty : Initial Db.empty := by
  have hparents : ∀ p c, p ∉ Db.empty.parents c := by
    intro p c hp
    exact absurd (Db.mem_parents.mp hp) List.not_mem_nil
  refine ⟨⟨?_, ?_, ?_, ?_⟩, rfl, rfl, rfl⟩
  · intro t ht
    exact absurd ht List.not_mem_nil
  · intro t ht
    exact absurd ht List.not_mem_nil
  · intro p c hp
    exact absurd hp (hparents p c)
  · intro t ht
    obtain ⟨p, -, hp⟩ := Relation.TransGen.tail'_iff.mp ht
    exact hparents p t hp

theorem Reachable.serve {checks : Bool} {db : Db} (h : Reachable checks db) (op : Op) :
    Reachable checks (serve checks db op) :=
  Lts.Reach.next h rfl

/-! ## Queue operations -/

variable {checks : Bool} {db : Db}

/-- Rewriting rows without counting an attempt, the run rows left alone and the
attempt rows keeping their keys. -/
theorem rewritten_of_change (hinv : Inv checks db) {db' : Db} {g : TaskRun → TaskRun}
    (hrows : db'.task_runs.rows = db.task_runs.rows.map g)
    (hchange : ∀ r ∈ db.task_runs.rows, RowChange r (g r))
    (hattempt : ∀ r ∈ db.task_runs.rows, (g r).attempt = r.attempt)
    (hattempts : ∀ a' ∈ db'.task_attempts.rows, ∃ a ∈ db.task_attempts.rows, a'.pk = a.pk)
    (hframe : db' = { db with task_runs := db'.task_runs, task_attempts := db'.task_attempts }) :
    Rewritten checks db db' g := by
  have hruns : db'.workflow_runs = db.workflow_runs := by rw [hframe]
  refine ⟨hrows, hchange, by rw [hframe], by rw [hframe], by rw [hframe],
    ⟨id, fun _ => ⟨rfl, rfl⟩, by rw [hruns, List.map_id]⟩,
    numbered_of_keys hinv hrows hchange hattempts, ⟨fun r' hr' => ?_, fun hck r' hr' => ?_, ?_,
    fun a' ha' => ?_⟩⟩
  · rw [hrows] at hr'
    obtain ⟨r, hr, rfl⟩ := List.mem_map.mp hr'
    exact (hchange r hr).lawful (hinv.good.lawful r hr)
  · rw [hrows] at hr'
    obtain ⟨r, hr, rfl⟩ := List.mem_map.mp hr'
    rw [hattempt r hr, (hchange r hr).keeps.2.2.2.1]
    exact hinv.good.budget hck r hr
  · rw [hruns]
    exact hinv.good.runs
  · obtain ⟨a, ha, hpk⟩ := hattempts a' ha'
    rw [show a'.attempt = a.attempt from congrArg Prod.snd hpk]
    exact hinv.good.attempts a ha

/-- The rewrites of one filtered update. -/
theorem change_of_update {p : TaskRun → Bool} {f : TaskRun → TaskRun}
    (hstep : ∀ r ∈ db.task_runs.rows, p r = true → RowStep r (f r)) :
    ∀ r ∈ db.task_runs.rows, RowChange r (if p r then f r else r) := by
  intro r hr
  split
  · exact .step (hstep r hr ‹_›)
  · exact .none r

theorem serve_renew (hinv : Inv checks db) (lease_seconds : ℚ) (clock : Clock)
    (task_run_id : UUID) (worker_id : String) :
    QueueStep checks db (serve checks db (.renew lease_seconds clock task_run_id worker_id))
      (fun r => if heldBy task_run_id worker_id r
        then renewed (clock.utcnow + lease_seconds) r else r) := by
  rw [serve, commit_ok (exec_renew_lease hinv.good lease_seconds clock task_run_id worker_id)]
  refine QueueStep.of_stay hinv (rewritten_of_change hinv rfl
    (change_of_update (fun r _ hp => .renew _ (heldBy_iff.mp hp).2.2)) (fun r _ => ?_)
    (fun a ha => ⟨a, ha, rfl⟩) rfl) (fun r _ => ?_)
  · split <;> rfl
  · split <;> exact ⟨rfl, rfl⟩

theorem serve_reap (hinv : Inv checks db) (clock : Clock) :
    QueueStep checks db (serve checks db (.reap clock))
      (fun r => if leaseExpired clock.utcnow r then reaped r else r) := by
  rw [serve, commit_ok (exec_reap_expired_leases hinv.good clock)]
  refine QueueStep.of_stay hinv (rewritten_of_change hinv rfl
    (change_of_update (fun r _ hp => .reap (leaseExpired_state hp))) (fun r _ => ?_)
    closed_keys rfl) (fun r _ => ?_)
  · split <;> rfl
  · split
    · rename_i hp
      rw [leaseExpired_state hp]
      exact ⟨rfl, rfl⟩
    · exact ⟨rfl, rfl⟩

/-- Refreshing run rows leaves their identity alone. -/
theorem refreshed_runs {p : WorkflowRun → Bool} {now : Time} {derived : RunState} :
    ∃ h : WorkflowRun → WorkflowRun,
      (∀ run, (h run).id = run.id ∧ (h run).workflow_id = run.workflow_id) ∧
      db.workflow_runs.rows.map (fun run => if p run then refreshed now derived run else run)
        = db.workflow_runs.rows.map h := by
  refine ⟨_, fun run => ?_, rfl⟩
  split <;> exact ⟨rfl, rfl⟩

theorem serve_refresh (hinv : Inv checks db) (clock : Clock) (run_id : UUID) :
    QueueStep checks db (serve checks db (.refresh clock run_id)) id := by
  rw [serve, commit_ok (hinv.good.exec_refresh_run_state clock run_id)]
  have hrows : db.task_runs.rows = db.task_runs.rows.map id := by simp
  exact QueueStep.of_stay hinv ⟨hrows, fun r _ => .none r, rfl, rfl, rfl, refreshed_runs,
    hinv.numbered, hinv.good.refresh⟩ (fun _ _ => ⟨rfl, rfl⟩)

theorem Inv.claimable (hinv : Inv checks db) : db.Claimable := by
  refine ⟨fun r hr => ?_, fun a ha r hr hid => ?_⟩
  · obtain ⟨-, -, task, htask, -, -, hid, -⟩ := hinv.defined r hr
    rw [← hid, Table.get_of_mem htask]
    rfl
  · obtain ⟨s, hs, hsid, hnum⟩ := hinv.numbered a ha
    rw [db.task_runs.eq_of_key hr hs (hid.symm.trans hsid.symm)]
    exact hnum

/-- Every row that a claim takes has an attempt left. -/
def Db.WithinBudget (db : Db) (tie : UUID → ℕ) (now : Time) (limit : ℕ) : Prop :=
  ∀ r ∈ db.task_runs.rows, picked tie now limit db r = true → r.attempt < r.max_attempts

/-- A claim that finds an attempt left for every row it takes. -/
theorem serve_claim (hinv : Inv checks db) (lease_seconds : ℚ) (clock : Clock) (tie : UUID → ℕ)
    (worker_id : String) (limit : ℕ)
    (hbudget : checks = true → db.WithinBudget tie clock.utcnow limit) :
    ∃ results, exec (store checks) (claim_batch lease_seconds clock tie worker_id limit) db
        = .ok (serve checks db (.claim lease_seconds clock tie worker_id limit), results) ∧
      List.Forall₂ (fun r c => toClaimedTask db r = .ok c)
        (claimedRows tie clock limit worker_id (clock.utcnow + lease_seconds) db) results ∧
      QueueStep checks db (serve checks db (.claim lease_seconds clock tie worker_id limit))
        (fun r => if picked tie clock.utcnow limit db r
          then claimed worker_id (clock.utcnow + lease_seconds) clock.now r else r) := by
  have hdefined : ∀ r' ∈ claimedRows tie clock limit worker_id (clock.utcnow + lease_seconds) db,
      ∃ c, toClaimedTask db r' = .ok c := by
    intro r' hr'
    obtain ⟨r, ⟨hr, -⟩, rfl⟩ := mem_claimedRows.mp hr'
    obtain ⟨task, htask⟩ := Option.isSome_iff_exists.mp (hinv.claimable.defined r hr)
    have hget : db.tasks.get (claimed worker_id (clock.utcnow + lease_seconds) clock.now r).task_id
        = some task := htask
    simp only [toClaimedTask, hget]
    exact ⟨_, rfl⟩
  obtain ⟨results, hresults⟩ := exists_forall₂ hdefined
  have hexec : exec (store checks) (claim_batch lease_seconds clock tie worker_id limit) db
      = .ok (claimedDb tie clock limit worker_id (clock.utcnow + lease_seconds) db, results) :=
    (exec_claim_batch hinv.good hinv.claimable lease_seconds clock tie worker_id limit).mpr
      ⟨hbudget, hresults, rfl⟩
  have hserve : serve checks db (.claim lease_seconds clock tie worker_id limit)
      = claimedDb tie clock limit worker_id (clock.utcnow + lease_seconds) db := commit_ok hexec
  -- A claim adds one attempt row for each row it takes.
  have hattempts : (claimedDb tie clock limit worker_id (clock.utcnow + lease_seconds)
      db).task_attempts.rows = db.task_attempts.rows
        ++ newAttempts tie clock limit worker_id (clock.utcnow + lease_seconds) db :=
    claimedDb_attempts hinv.claimable
  have hchange : ∀ r ∈ db.task_runs.rows, RowChange r
      (if picked tie clock.utcnow limit db r
        then claimed worker_id (clock.utcnow + lease_seconds) clock.now r else r) :=
    change_of_update (fun r hr hp => .claim _ _ _ (picked_state hr hp))
  rw [hserve]
  refine ⟨results, hexec, hresults, QueueStep.of_stay hinv
    ⟨rfl, hchange, rfl, rfl, rfl, ⟨id, fun _ => ⟨rfl, rfl⟩, (List.map_id _).symm⟩, ?_,
      ⟨?_, ?_, hinv.good.runs, ?_⟩⟩ ?_⟩
  · intro a ha
    rw [hattempts, List.mem_append] at ha
    rcases ha with ha | ha
    · obtain ⟨r, hr, hid, hnum⟩ := hinv.numbered a ha
      obtain ⟨k1, -, -, -, k2⟩ := (hchange r hr).keeps
      exact ⟨_, List.mem_map_of_mem hr, k1.trans hid, hnum.trans k2⟩
    · obtain ⟨r, hr, hp, rfl⟩ := mem_newAttempts ha
      refine ⟨_, List.mem_map_of_mem hr, ?_, ?_⟩
      · rw [if_pos hp]
        rfl
      · rw [if_pos hp]
        exact le_refl _
  · intro r' hr'
    obtain ⟨r, hr, rfl⟩ := List.mem_map.mp hr'
    exact (hchange r hr).lawful (hinv.good.lawful r hr)
  · intro hck r' hr'
    obtain ⟨r, hr, rfl⟩ := List.mem_map.mp hr'
    split
    -- A row it takes counts one attempt more, for which the budget has room.
    · exact hbudget hck r hr ‹_›
    · exact hinv.good.budget hck r hr
  · intro a ha
    rw [hattempts, List.mem_append] at ha
    rcases ha with ha | ha
    · exact hinv.good.attempts a ha
    · exact newAttempts_positive hinv.good a ha
  · intro r hr
    split
    · rename_i hp
      rw [picked_state hr hp]
      exact ⟨rfl, rfl⟩
    · exact ⟨rfl, rfl⟩

/-- A task that a claim hands out is a row it took, with the attempt it counted. -/
theorem claimed_task (hinv : Inv checks db) {lease_seconds : ℚ} {clock : Clock} {tie : UUID → ℕ}
    {worker_id : String} {limit : ℕ} {db' : Db} {results : List ClaimedTask}
    (h : exec (store checks) (claim_batch lease_seconds clock tie worker_id limit) db
      = .ok (db', results)) {c : ClaimedTask} (hc : c ∈ results) :
    ∃ r ∈ db.task_runs.rows, picked tie clock.utcnow limit db r = true ∧ c.task_run_id = r.id ∧
      c.run_id = r.run_id ∧ c.attempt = r.attempt + 1 := by
  obtain ⟨-, hresults, -⟩ :=
    (exec_claim_batch hinv.good hinv.claimable lease_seconds clock tie worker_id limit).mp h
  obtain ⟨r', hr', hok⟩ := exists_left_of_forall₂ hresults hc
  obtain ⟨r, ⟨hr, hpicked⟩, rfl⟩ := mem_claimedRows.mp hr'
  unfold toClaimedTask at hok
  split at hok
  · cases hok
  · cases hok
    exact ⟨r, hr, hpicked, rfl, rfl, rfl⟩

/-- A claim that takes a row without an attempt left is refused by the schema. -/
theorem serve_claim_refused (hinv : Inv checks db) (lease_seconds : ℚ) (clock : Clock)
    (tie : UUID → ℕ) (worker_id : String) (limit : ℕ)
    (hbudget : ¬ (checks = true → db.WithinBudget tie clock.utcnow limit)) :
    (∃ e, exec (store checks) (claim_batch lease_seconds clock tie worker_id limit) db = .error e) ∧
      serve checks db (.claim lease_seconds clock tie worker_id limit) = db := by
  cases h : exec (store checks) (claim_batch lease_seconds clock tie worker_id limit) db with
  | error e => exact ⟨⟨e, rfl⟩, commit_error h⟩
  | ok out =>
      exact absurd ((exec_claim_batch hinv.good hinv.claimable lease_seconds clock tie worker_id
        limit).mp h).1 hbudget

/-- The identity is a queue operation. -/
theorem QueueStep.refl (hinv : Inv checks db) : QueueStep checks db db id := by
  have hrows : db.task_runs.rows = db.task_runs.rows.map id := by simp
  exact QueueStep.of_stay hinv (rewritten_of_change hinv hrows (fun r _ => .none r)
    (fun _ _ => rfl) (fun a ha => ⟨a, ha, rfl⟩) rfl) (fun _ _ => ⟨rfl, rfl⟩)

/-! ## Success -/

theorem waitingChild_iff {row r : TaskRun} :
    waitingChild db row r = true ↔
      r.run_id = row.run_id ∧ row.task_id ∈ db.parents r.task_id ∧ r.state = .PENDING := by
  simp only [waitingChild, Bool.and_eq_true, decide_eq_true_eq, mem_childTaskIds,
    List.mem_singleton, exists_eq_left, and_assoc]

theorem unblocked_of_one {r : TaskRun} (h : r.pending_deps = 1) :
    (unblocked r).state = .READY := by
  simp [unblocked, h, decremented, released]

theorem unblocked_of_lt {r : TaskRun} (h : 1 < r.pending_deps) :
    (unblocked r).state = r.state ∧ (unblocked r).pending_deps = r.pending_deps - 1 := by
  have hpos : 0 < r.pending_deps := by omega
  have hne : ¬ r.pending_deps - 1 = 0 := by omega
  simp [unblocked, hpos, decremented, hne]

section Success

variable {row : TaskRun}

/-- What an accepted success does to a row of the run other than its own: a
waiting child whose counter is one is released, a waiting child with more to wait
for is decremented, any other row stays. -/
theorem afterSuccess_other (hinv : Inv checks db) (now : Time) (output : Option Dict)
    {r : TaskRun} (hr : r ∈ db.task_runs.rows) (hid : r.id ≠ row.id) :
    (waitingChild db row r = true ∧ r.pending_deps = 1 ∧
      (afterSuccess db row now output r).state = .READY) ∨
    (waitingChild db row r = true ∧ 1 < r.pending_deps ∧
      (afterSuccess db row now output r).state = .PENDING ∧
      (afterSuccess db row now output r).pending_deps = r.pending_deps - 1) ∨
    (waitingChild db row r = false ∧ afterSuccess db row now output r = r) := by
  have hafter : afterSuccess db row now output r
      = if waitingChild db row r then unblocked r else r := by
    rw [afterSuccess, if_neg hid, afterUnblock]
  rw [hafter]
  cases hw : waitingChild db row r with
  | false => exact Or.inr (Or.inr ⟨rfl, rfl⟩)
  | true =>
      rw [if_pos rfl]
      obtain ⟨-, -, hpending⟩ := waitingChild_iff.mp hw
      -- A waiting row has something left to wait for.
      have hpos := (hinv.coherent r.run_id).waiting r.task_id (by
        rw [Db.status_of_mem hinv.unique hr, hpending]
        rfl)
      have hcount := hinv.counted r hr hpending
      rcases Nat.lt_or_ge 1 (Precedence.unmet db.parents (db.status r.run_id) r.task_id) with h | h
      · have hlt : 1 < r.pending_deps := by omega
        obtain ⟨h1, h2⟩ := unblocked_of_lt hlt
        exact Or.inr (Or.inl ⟨rfl, hlt, h1.trans hpending, h2⟩)
      · have hone : r.pending_deps = 1 := by omega
        exact Or.inl ⟨rfl, hone, unblocked_of_one hone⟩

theorem afterSuccess_change (hrunning : row.state = .RUNNING) (hrow : row ∈ db.task_runs.rows)
    (now : Time) (output : Option Dict) :
    ∀ r ∈ db.task_runs.rows, RowChange r (afterSuccess db row now output r) := by
  intro r hr
  unfold afterSuccess
  split
  · rename_i hid
    rw [db.task_runs.eq_of_key hr hrow hid]
    exact .step (.succeed _ _ hrunning)
  · unfold afterUnblock
    split
    · exact .unblock (waitingChild_state ‹_›)
    · exact .none r

/-- **An accepted success is a `succeed` step of its run** and nothing to any
other run. -/
theorem status_afterSuccess (hinv : Inv checks db) {db' : Db} {now : Time} {output : Option Dict}
    (hrow : row ∈ db.task_runs.rows) (h : Rewritten checks db db' (afterSuccess db row now output)) :
    db'.status row.run_id
        = Precedence.succeed db.parents (db.status row.run_id) row.task_id ∧
      ∀ run_id, run_id ≠ row.run_id → db'.status run_id = db.status run_id := by
  constructor
  · funext c
    rw [h.status]
    cases hc : db.row row.run_id c with
    | none =>
        have habsent := Db.status_eq_absent.mpr hc
        have hne : c ≠ row.task_id := by
          rintro rfl
          exact Db.row_eq_none.mp hc row hrow rfl rfl
        simp [Precedence.succeed, hne, habsent]
    | some r =>
        obtain ⟨hr, hrun, rfl⟩ := (Db.row_eq_some hinv.unique).mp hc
        have hstatus := Db.status_of_mem hinv.unique hr
        rw [hrun] at hstatus
        simp only [Option.map_some, Option.getD_some]
        unfold Precedence.succeed
        -- The row itself, a child that was waiting for it alone, a child that still waits, any other.
        by_cases hid : r.id = row.id
        · have he := db.task_runs.eq_of_key hr hrow hid
          rw [if_pos (by rw [he]), afterSuccess, if_pos hid]
          rfl
        · have hne : r.task_id ≠ row.task_id := fun ht =>
            hid (congrArg TaskRun.id (hinv.unique r hr row hrow hrun ht))
          rw [if_neg hne]
          rcases afterSuccess_other hinv now output hr hid with
            ⟨hw, hone, hs⟩ | ⟨hw, hlt, hs, -⟩ | ⟨hw, he⟩
          -- The counter stood at one, and it is exact.
          · obtain ⟨-, hparent, hpending⟩ := waitingChild_iff.mp hw
            have hcount := hinv.counted r hr hpending
            rw [hrun] at hcount
            rw [hs, if_pos ⟨by rw [hstatus, hpending]; rfl, hparent, by omega⟩]
            rfl
          · obtain ⟨-, hparent, hpending⟩ := waitingChild_iff.mp hw
            have hcount := hinv.counted r hr hpending
            rw [hrun] at hcount
            rw [hs, if_neg (by rintro ⟨-, -, hone⟩; omega), hstatus, hpending]
          · rw [he, if_neg, hstatus]
            rintro ⟨hwaiting, hparent, -⟩
            rw [hstatus] at hwaiting
            have hpending := TaskState.status_eq_waiting.mp hwaiting
            rw [waitingChild_iff.mpr ⟨hrun, hparent, hpending⟩] at hw
            cases hw
  · refine fun run_id hne => h.status_eq hinv.unique (fun r hr hrun => ?_)
    have hid : r.id ≠ row.id := fun hid =>
      hne (hrun.symm.trans (congrArg TaskRun.run_id (db.task_runs.eq_of_key hr hrow hid)))
    have hw : waitingChild db row r = false := by
      rw [← Bool.not_eq_true, waitingChild_iff]
      rintro ⟨h1, -⟩
      exact hne (hrun.symm.trans h1)
    simp [afterSuccess, hid, afterUnblock, hw]

theorem serve_success_held (hinv : Inv checks db) (clock : Clock) {task_run_id : UUID}
    {worker_id : String} (output : Option Dict) (hrow : db.task_runs.get task_run_id = some row)
    (hheld : heldBy task_run_id worker_id row = true) :
    exec (store checks) (record_success clock task_run_id worker_id output) db
        = .ok (serve checks db (.success clock task_run_id worker_id output), true) ∧
      QueueStep checks db (serve checks db (.success clock task_run_id worker_id output))
        (afterSuccess db row clock.now output) := by
  obtain ⟨hmem, hkey⟩ := Table.get_eq_some.mp hrow
  obtain ⟨-, -, hrunning⟩ := heldBy_iff.mp hheld
  have hexec := exec_record_success_held hinv.good clock output hrow hheld
  have hserve : serve checks db (.success clock task_run_id worker_id output) = _ := commit_ok hexec
  have hattempt : ∀ r ∈ db.task_runs.rows,
      (afterSuccess db row clock.now output r).attempt = r.attempt := by
    intro r _
    unfold afterSuccess afterUnblock
    split
    · rfl
    · split
      · exact (unblocked_cases r).2.2.2
      · rfl
  have hrewritten : Rewritten checks db
      (serve checks db (.success clock task_run_id worker_id output))
      (afterSuccess db row clock.now output) := by
    rw [hserve]
    exact rewritten_of_change hinv rfl (afterSuccess_change hrunning hmem clock.now output) hattempt
      closed_keys rfl
  obtain ⟨hrun, hother⟩ := status_afterSuccess hinv hmem hrewritten
  have hstatus : db.status row.run_id row.task_id = .enabled := by
    rw [Db.status_of_mem hinv.unique hmem, hrunning]
    rfl
  -- What a success does to the number of unmet parents is what it does to the counters.
  have hunmet : ∀ c, Precedence.unmet db.parents (db.status row.run_id) c
      = Precedence.unmet db.parents
          (Precedence.succeed db.parents (db.status row.run_id) row.task_id) c
        + (if row.task_id ∈ db.parents c then 1 else 0) := Precedence.unmet_succeed hstatus
  refine ⟨by rw [hserve]; exact hexec, hrewritten, fun run_id => ?_, fun r hr hs => ?_⟩
  · by_cases hr : run_id = row.run_id
    · rw [hr, hrun]
      exact .succeed hstatus
    · rw [hother run_id hr]
      exact .stay _
  · by_cases hid : r.id = row.id
    · rw [afterSuccess, if_pos hid] at hs
      cases hs
    · rcases afterSuccess_other hinv clock.now output hr hid with
        ⟨-, -, hready⟩ | ⟨hw, -, -, hpd⟩ | ⟨hw, he⟩
      · rw [hready] at hs
        cases hs
      · obtain ⟨hrid, hparent, hpending⟩ := waitingChild_iff.mp hw
        have hcount := hinv.counted r hr hpending
        have hlower := hunmet r.task_id
        rw [if_pos hparent] at hlower
        rw [hrid] at hcount
        rw [hpd, hrid, hrun]
        omega
      · rw [he] at hs ⊢
        have hcount := hinv.counted r hr hs
        -- A row that still waits and was not rewritten is of another run, or no child.
        by_cases hrid : r.run_id = row.run_id
        · have hnot : row.task_id ∉ db.parents r.task_id := by
            intro hparent
            rw [waitingChild_iff.mpr ⟨hrid, hparent, hs⟩] at hw
            cases hw
          have hsame := hunmet r.task_id
          rw [if_neg hnot] at hsame
          rw [hrid] at hcount
          rw [hrid, hrun, hcount, hsame]
          rfl
        · rw [hother r.run_id hrid]
          exact hcount

/-- A success report that comes too late changes nothing. -/
theorem serve_success_lost (hinv : Inv checks db) (clock : Clock) {task_run_id : UUID}
    {worker_id : String} (output : Option Dict)
    (hlost : ∀ r ∈ db.task_runs.rows, heldBy task_run_id worker_id r = false) :
    exec (store checks) (record_success clock task_run_id worker_id output) db = .ok (db, false) ∧
      serve checks db (.success clock task_run_id worker_id output) = db := by
  have hexec := exec_record_success_lost hinv.good clock output hlost
  exact ⟨hexec, commit_ok hexec⟩

end Success

/-! ## Failure -/

section Failure

variable {task_run_id : UUID} {worker_id : String} {row : TaskRun}

/-- The definition behind a row: its task, and the policy its budget comes from. -/
theorem Inv.policy (hinv : Inv checks db) (hrow : row ∈ db.task_runs.rows) :
    ∃ task policy, db.tasks.get row.task_id = some task ∧
      build_policy (some task.retry_policy) = .ok policy ∧
      row.max_attempts = policy.max_attempts := by
  obtain ⟨-, -, task, htask, policy, -, hid, -, hpolicy, hmax⟩ := hinv.defined row hrow
  exact ⟨task, policy, Table.get_eq_some.mpr ⟨htask, hid⟩, hpolicy, hmax⟩

/-- A failure report from a worker that does not own the row changes nothing. -/
theorem serve_failure_lost (clock : Clock) (uniform : ℚ → ℚ) (error : String)
    (hlost : ∀ row, db.task_runs.get task_run_id = some row → row.worker_id ≠ some worker_id) :
    exec (store checks)
        (record_failure clock uniform (walkRounds db) task_run_id worker_id error) db
        = .ok (db, none) ∧
      serve checks db (.failure clock uniform task_run_id worker_id error) = db := by
  have hexec : exec (store checks)
      (record_failure clock uniform (walkRounds db) task_run_id worker_id error) db
      = .ok (db, none) := exec_record_failure_lost clock uniform (walkRounds db) error hlost
  exact ⟨hexec, commit_ok hexec⟩

/-- A failure with attempts left goes back to the queue. -/
theorem serve_failure_retry (hinv : Inv checks db) (clock : Clock) (uniform : ℚ → ℚ)
    (error : String) (hrow : db.task_runs.get task_run_id = some row)
    (hworker : row.worker_id = some worker_id) (hlt : row.attempt < row.max_attempts) :
    ∃ delay, exec (store checks)
        (record_failure clock uniform (walkRounds db) task_run_id worker_id error) db
        = .ok (serve checks db (.failure clock uniform task_run_id worker_id error),
          some .RETRYING) ∧
      QueueStep checks db (serve checks db (.failure clock uniform task_run_id worker_id error))
        (fun r => if ownedBy task_run_id worker_id r
          then requeuedForRetry (clock.utcnow + delay) error r else r) := by
  obtain ⟨hmem, -⟩ := Table.get_eq_some.mp hrow
  obtain ⟨task, policy, htask, hpolicy, hmax⟩ := hinv.policy hmem
  obtain ⟨delay, hexec⟩ := exec_record_failure_retry hinv.good clock uniform (walkRounds db) error
    hrow hworker htask hpolicy (by omega)
  have hserve : serve checks db (.failure clock uniform task_run_id worker_id error) = _ :=
    commit_ok hexec
  have howned : ∀ r, ownedBy task_run_id worker_id r = true → r.worker_id.isSome = true := by
    intro r hp
    rw [(ownedBy_iff.mp hp).2]
    rfl
  refine ⟨delay, by rw [hserve]; exact hexec, ?_⟩
  rw [hserve]
  refine QueueStep.of_stay hinv (rewritten_of_change hinv rfl
    (change_of_update (fun r _ hp => .retry _ _ (howned r hp))) (fun r _ => ?_) closed_keys rfl)
    (fun r hr => ?_)
  · split <;> rfl
  · split
    · rename_i hp
      rw [(hinv.good.lawful r hr).running_of_worker (howned r hp)]
      exact ⟨rfl, rfl⟩
    · exact ⟨rfl, rfl⟩

/-- The blocking walk reaches everything below a running row: what is below it is
waiting or already blocked, and below a blocked row everything is. -/
theorem walkInv_of_running (hinv : Inv checks db) (hrow : row ∈ db.task_runs.rows)
    (hrunning : row.state = .RUNNING) : WalkInv db row.run_id row.task_id [row.task_id] := by
  have hlive : (db.status row.run_id row.task_id).live = true := by
    rw [Db.status_of_mem hinv.unique hrow, hrunning]
    rfl
  have hco := hinv.coherent row.run_id
  intro p hp
  rcases hp with rfl | ⟨hbelow, hclear⟩
  · exact Or.inl (List.mem_singleton.mpr rfl)
  · refine Or.inr (fun c hpc => ?_)
    -- The walk has skipped what was not `PENDING` or `READY`, so it is blocked already.
    have hblocked : db.status row.run_id p = .blocked := by
      rcases hco.waiting_or_blocked_below hbelow hlive with h | h
      · obtain ⟨r, hr, h1, h2, h3⟩ := Db.exists_row_of_status hinv.unique h (by decide)
        exact absurd (Or.inl (TaskState.status_eq_waiting.mp h3)) (clear_iff.mp hclear r hr h1 h2)
      · exact h
    have hc := hco.poisoned p c hpc (Or.inr hblocked)
    rw [clear_iff]
    intro r hr h1 h2 hs
    rw [← h1, ← h2, Db.status_of_mem hinv.unique hr] at hc
    rw [TaskState.status_eq_blocked.mp hc] at hs
    rcases hs with hs | hs <;> cases hs

theorem afterFailure_change (hrow : row ∈ db.task_runs.rows)
    (hworker : row.worker_id = some worker_id) (now : Time) (error : String) (tasks : List UUID) :
    ∀ r ∈ db.task_runs.rows, RowChange r (afterFailure row now (terminalOf row) error tasks r) := by
  intro r hr
  unfold afterFailure
  split
  · rename_i hid
    rw [db.task_runs.eq_of_key hr hrow hid]
    exact .step (.fail _ _ _ (terminalOf_cases row) (by rw [hworker]; rfl))
  · split
    · exact .step (.block _ (blockable_iff.mp ‹_›).2.2)
    · exact .none r

/-- A terminal failure rewrites task rows, and closes attempts. -/
theorem rewritten_afterFailure (hinv : Inv checks db) (hrow : row ∈ db.task_runs.rows)
    (hworker : row.worker_id = some worker_id) (now : Time) (error : String) (tasks : List UUID)
    (p : TaskAttempt → Bool) (state : TaskState) (reason : Option String) :
    Rewritten checks db
      { db with
        task_runs := db.task_runs.mapRows (afterFailure row now (terminalOf row) error tasks)
          (afterFailure_id row now (terminalOf row) error tasks)
        task_attempts := db.task_attempts.update p (closedAttempt now state reason)
          (closedAttempt_pk now state reason) }
      (afterFailure row now (terminalOf row) error tasks) := by
  refine rewritten_of_change hinv rfl (afterFailure_change hrow hworker now error tasks)
    (fun r _ => ?_) closed_keys rfl
  unfold afterFailure
  split
  · rfl
  · split <;> rfl

/-- **A terminal failure is a `fail` step of its run** and nothing to any other
run. -/
theorem status_afterFailure (hinv : Inv checks db) {db' : Db} {now : Time} {error : String}
    {tasks : List UUID} (hrow : row ∈ db.task_runs.rows) (hrunning : row.state = .RUNNING)
    (hsound : ∀ c ∈ tasks, Precedence.Below db.parents row.task_id c)
    (hcomplete : ∀ d, Precedence.Below db.parents row.task_id d →
      d ∈ tasks ∨ Clear db row.run_id d)
    (h : Rewritten checks db db' (afterFailure row now (terminalOf row) error tasks)) :
    db'.status row.run_id = Precedence.fail db.parents (db.status row.run_id) row.task_id ∧
      ∀ run_id, run_id ≠ row.run_id → db'.status run_id = db.status run_id := by
  have hlive : (db.status row.run_id row.task_id).live = true := by
    rw [Db.status_of_mem hinv.unique hrow, hrunning]
    rfl
  have hco := hinv.coherent row.run_id
  constructor
  · funext c
    rw [h.status]
    unfold Precedence.fail
    cases hc : db.row row.run_id c with
    | none =>
        have habsent := Db.status_eq_absent.mpr hc
        have hne : c ≠ row.task_id := by
          rintro rfl
          exact Db.row_eq_none.mp hc row hrow rfl rfl
        -- What is below a running task has a row.
        have hnot : ¬ Precedence.Below db.parents row.task_id c := by
          intro hbelow
          rcases hco.waiting_or_blocked_below hbelow hlive with hs | hs <;>
            rw [habsent] at hs <;> cases hs
        simp [hne, hnot, habsent]
    | some r =>
        obtain ⟨hr, hrun, rfl⟩ := (Db.row_eq_some hinv.unique).mp hc
        have hstatus := Db.status_of_mem hinv.unique hr
        rw [hrun] at hstatus
        simp only [Option.map_some, Option.getD_some]
        by_cases hid : r.id = row.id
        · have he := db.task_runs.eq_of_key hr hrow hid
          rw [if_pos (by rw [he]), afterFailure, if_pos hid]
          rcases terminalOf_cases row with ht | ht <;> simp [failedTerminally, ht, TaskState.status]
        · have hne : r.task_id ≠ row.task_id := fun ht =>
            hid (congrArg TaskRun.id (hinv.unique r hr row hrow hrun ht))
          rw [if_neg hne, afterFailure, if_neg hid]
          by_cases hbelow : Precedence.Below db.parents row.task_id r.task_id
          · rw [if_pos hbelow]
            rcases hco.waiting_or_blocked_below hbelow hlive with hs | hs
            -- The walk is complete: what still waits below has been found.
            · rw [hstatus] at hs
              have hpending := TaskState.status_eq_waiting.mp hs
              have hin : r.task_id ∈ tasks := (hcomplete _ hbelow).resolve_right (fun hclear =>
                clear_iff.mp hclear r hr hrun rfl (Or.inl hpending))
              rw [if_pos (blockable_iff.mpr ⟨hrun, hin, Or.inl hpending⟩)]
              rfl
            · rw [hstatus] at hs
              split
              · rfl
              · exact hs
          · rw [if_neg hbelow, if_neg, hstatus]
            -- The walk is sound: what it blocks is below.
            intro hb
            exact hbelow (hsound _ (blockable_iff.mp hb).2.1)
  · refine fun run_id hne => h.status_eq hinv.unique (fun r hr hrun => ?_)
    have hid : r.id ≠ row.id := fun hid =>
      hne (hrun.symm.trans (congrArg TaskRun.run_id (db.task_runs.eq_of_key hr hrow hid)))
    have hb : blockable row.run_id tasks r = false := by
      rw [← Bool.not_eq_true, blockable_iff]
      rintro ⟨h1, -⟩
      exact hne (hrun.symm.trans h1)
    simp [afterFailure, hid, hb]

/-- A failure with no attempts left ends the row and blocks everything below. -/
theorem serve_failure_terminal (hinv : Inv checks db) (clock : Clock) (uniform : ℚ → ℚ)
    (error : String) (hrow : db.task_runs.get task_run_id = some row)
    (hworker : row.worker_id = some worker_id) (hge : row.max_attempts ≤ row.attempt) :
    ∃ tasks, exec (store checks)
        (record_failure clock uniform (walkRounds db) task_run_id worker_id error) db
        = .ok (serve checks db (.failure clock uniform task_run_id worker_id error),
          some .DEAD_LETTER) ∧
      QueueStep checks db (serve checks db (.failure clock uniform task_run_id worker_id error))
        (afterFailure row clock.now .DEAD_LETTER error tasks) ∧
      ((serve checks db (.failure clock uniform task_run_id worker_id error)).status row.run_id
          = Precedence.fail db.parents (db.status row.run_id) row.task_id ∧
        ∀ run_id, run_id ≠ row.run_id →
          (serve checks db (.failure clock uniform task_run_id worker_id error)).status run_id
            = db.status run_id) ∧
      (∀ c ∈ tasks, Precedence.Below db.parents row.task_id c) := by
  obtain ⟨hmem, -⟩ := Table.get_eq_some.mp hrow
  have hrunning := (hinv.good.lawful row hmem).running_of_worker (by rw [hworker]; rfl)
  obtain ⟨task, policy, htask, hpolicy, hmax⟩ := hinv.policy hmem
  have hterm : terminalOf row = .DEAD_LETTER := if_pos hge
  obtain ⟨tasks, hexec, hsound, hcomplete⟩ := exec_record_failure_terminal hinv.good clock uniform
    error hrow hworker htask hpolicy (by omega) (Nat.lt_succ_self _)
  have hserve : serve checks db (.failure clock uniform task_run_id worker_id error) = _ :=
    commit_ok hexec
  have hrewritten : Rewritten checks db
      (serve checks db (.failure clock uniform task_run_id worker_id error))
      (afterFailure row clock.now (terminalOf row) error tasks) := by
    rw [hserve]
    exact rewritten_afterFailure hinv hmem hworker clock.now error tasks _ _ _
  obtain ⟨hrun, hother⟩ := status_afterFailure hinv hmem hrunning hsound
    (hcomplete (walkInv_of_running hinv hmem hrunning)) hrewritten
  have hstatus : db.status row.run_id row.task_id = .enabled := by
    rw [Db.status_of_mem hinv.unique hmem, hrunning]
    rfl
  rw [← hterm]
  refine ⟨tasks, by rw [hserve]; exact hexec, ⟨hrewritten, fun run_id => ?_, fun r hr hs => ?_⟩,
    ⟨hrun, hother⟩, hsound⟩
  · by_cases hr : run_id = row.run_id
    · rw [hr, hrun]
      exact .fail hstatus
    · rw [hother run_id hr]
      exact .stay _
  -- A row that waits afterwards was not touched.
  · have hsame : afterFailure row clock.now (terminalOf row) error tasks r = r := by
      unfold afterFailure at hs ⊢
      split at hs
      · rw [hterm] at hs
        cases hs
      · rename_i hid
        split at hs
        · cases hs
        · rename_i hb
          rw [if_neg hid, if_neg hb]
    rw [hsame] at hs ⊢
    rw [hinv.counted r hr hs]
    by_cases hrid : r.run_id = row.run_id
    · rw [hrid, hrun, (hinv.coherent row.run_id).unmet_fail hstatus]
    · rw [hother r.run_id hrid]

end Failure

/-! ## Cancellation -/

theorem cancellable_iff {run_id : UUID} {r : TaskRun} :
    cancellable run_id r = true ↔
      r.run_id = run_id ∧ r.state ∈ [TaskState.PENDING, .READY, .RUNNING, .RETRYING] := by
  simp [cancellable]

theorem serve_cancel (hinv : Inv checks db) (clock : Clock) (run_id : UUID) :
    QueueStep checks db (serve checks db (.cancel clock run_id))
      (fun r => if cancellable run_id r then cancelled clock.now r else r) := by
  have hserve : serve checks db (.cancel clock run_id) = _ :=
    commit_ok (exec_cancel hinv.good clock run_id)
  have hchange : ∀ r ∈ db.task_runs.rows,
      RowChange r (if cancellable run_id r then cancelled clock.now r else r) :=
    change_of_update (fun r _ hp => .cancel _ (cancellable_iff.mp hp).2)
  have hcancelled : Rewritten checks db { db with
      task_runs := db.task_runs.update (cancellable run_id) (cancelled clock.now)
        (cancelled_id clock.now) }
      (fun r => if cancellable run_id r then cancelled clock.now r else r) := by
    refine rewritten_of_change hinv rfl hchange (fun r _ => ?_) (fun a ha => ⟨a, ha, rfl⟩) rfl
    split <;> rfl
  have hrewritten : Rewritten checks db (serve checks db (.cancel clock run_id))
      (fun r => if cancellable run_id r then cancelled clock.now r else r) := by
    rw [hserve]
    exact ⟨rfl, hchange, rfl, rfl, rfl, refreshed_runs, hcancelled.numbered,
      hcancelled.good.refresh⟩
  have hrun : (serve checks db (.cancel clock run_id)).status run_id
      = Precedence.cancel (db.status run_id) := by
    funext c
    rw [hrewritten.status, Precedence.cancel, Db.status]
    cases hc : db.row run_id c with
    | none => rfl
    | some r =>
        obtain ⟨-, hid, -⟩ := (Db.row_eq_some hinv.unique).mp hc
        simp only [Option.map_some, Option.getD_some, cancellable, hid]
        -- State by state: what is live is cancelled, and the rest is left.
        cases hs : r.state <;> simp [hs, TaskState.status, Precedence.Status.live, cancelled]
  have hother : ∀ run_id', run_id' ≠ run_id →
      (serve checks db (.cancel clock run_id)).status run_id' = db.status run_id' := by
    refine fun run_id' hne => hrewritten.status_eq hinv.unique (fun r _ hid => ?_)
    have hnot : cancellable run_id r = false := by simp [cancellable, hid, hne]
    simp [hnot]
  refine ⟨hrewritten, fun run_id' => ?_, fun r hr hs => ?_⟩
  · by_cases he : run_id' = run_id
    · rw [he, hrun]
      exact .cancel _
    · rw [hother run_id' he]
      exact .stay _
  -- A row that still waits is of another run.
  · have hnot : ¬ cancellable run_id r = true := by
      intro hp
      rw [if_pos hp] at hs
      cases hs
    rw [if_neg hnot] at hs ⊢
    have hne : r.run_id ≠ run_id := fun he => hnot (cancellable_iff.mpr ⟨he, by simp [hs]⟩)
    rw [hother r.run_id hne]
    exact hinv.counted r hr hs

/-! ## Submitting a run -/

section Submit

variable {db' : Db} {ids : RunIds} {clock : Clock} {workflow : Workflow} {run : WorkflowRun}
  {rows : List TaskRun}

/-- A new row is for a task of the workflow, and waits for all of its parents. -/
theorem CreatedRun.mem_rows (hd : db.Definitions)
    (h : CreatedRun ids clock workflow (dependencies db workflow.id) db db' run rows)
    {r : TaskRun} (hr : r ∈ rows) :
    ∃ task ∈ db.tasks.rows, task.workflow_id = workflow.id ∧ ∃ policy,
      build_policy (some task.retry_policy) = .ok policy ∧
      r = newTaskRun ids clock (db.parents task.id).card policy task := by
  obtain ⟨task, htask, policy, hpolicy, he⟩ := exists_left_of_forall₂ h.rows_eq hr
  obtain ⟨hmem, hw⟩ := List.mem_filter.mp htask
  have hw' : task.workflow_id = workflow.id := by simpa using hw
  refine ⟨task, hmem, hw', policy, hpolicy, ?_⟩
  rw [he, ← hw', listedDependencies_eq hd hmem]

/-- Every task of the workflow gets a row. -/
theorem CreatedRun.exists_row (hd : db.Definitions)
    (h : CreatedRun ids clock workflow (dependencies db workflow.id) db db' run rows)
    {task : Task} (htask : task ∈ db.tasks.rows) (hw : task.workflow_id = workflow.id) :
    ∃ policy, newTaskRun ids clock (db.parents task.id).card policy task ∈ rows := by
  obtain ⟨r, hr, policy, -, he⟩ := exists_right_of_forall₂ h.rows_eq
    (List.mem_filter.mpr ⟨htask, by simpa using hw⟩ : task ∈ db.workflowTasks workflow.id)
  refine ⟨policy, ?_⟩
  rw [← listedDependencies_eq hd htask, hw, ← he]
  exact hr

theorem newTaskRun_lawful (unmet : ℕ) (policy : RetryPolicy) (task : Task) :
    (newTaskRun ids clock unmet policy task).Lawful := by
  refine ⟨le_refl _, Int.natCast_nonneg _, ?_, fun _ => ⟨rfl, rfl⟩, ?_, ?_, fun _ => rfl⟩
  · simp only [newTaskRun]
    split <;> simp
  · simp only [newTaskRun]
    split <;> rfl
  · simp only [newTaskRun]
    split <;> simp

/-- Runs that are already there do not see the new rows. -/
theorem CreatedRun.status_old (hinv : Inv checks db) (hu' : db'.RowsUnique)
    (h : CreatedRun ids clock workflow (dependencies db workflow.id) db db' run rows)
    {run_id : UUID} (hne : run_id ≠ run.id) : db'.status run_id = db.status run_id := by
  funext c
  unfold Db.status
  congr 2
  cases hc : db.row run_id c with
  | some r =>
      obtain ⟨hr, h1, h2⟩ := (Db.row_eq_some hinv.unique).mp hc
      exact (Db.row_eq_some hu').mpr ⟨by rw [h.task_runs']; exact List.mem_append_left _ hr, h1, h2⟩
  | none =>
      refine Db.row_eq_none.mpr (fun r hr hrun htask => ?_)
      rw [h.task_runs', List.mem_append] at hr
      rcases hr with hr | hr
      · exact Db.row_eq_none.mp hc r hr hrun htask
      · obtain ⟨task, -, -, policy, -, rfl⟩ := h.mem_rows hinv.definitions hr
        exact hne (hrun.symm.trans h.run_id.symm)

/-- **A new run is the start of an execution of its workflow's tasks.** -/
theorem CreatedRun.status_new (hinv : Inv checks db) (hu' : db'.RowsUnique)
    (h : CreatedRun ids clock workflow (dependencies db workflow.id) db db' run rows) :
    db'.status run.id = Precedence.start db.parents
      (fun c => decide (∃ task ∈ db.tasks.rows, task.workflow_id = workflow.id ∧ task.id = c)) := by
  funext c
  unfold Precedence.start
  -- A task of the workflow has its new row, and no other task has a row in the run.
  by_cases hV : ∃ task ∈ db.tasks.rows, task.workflow_id = workflow.id ∧ task.id = c
  · rw [if_pos (by simpa using hV)]
    obtain ⟨task, htask, hw, rfl⟩ := hV
    obtain ⟨policy, hr⟩ := h.exists_row hinv.definitions htask hw
    have hmem : newTaskRun ids clock (db.parents task.id).card policy task ∈ db'.task_runs.rows := by
      rw [h.task_runs']
      exact List.mem_append_right _ hr
    have hstatus := Db.status_of_mem hu' hmem
    rw [h.run_id]
    refine hstatus.trans ?_
    simp only [newTaskRun]
    split <;> rfl
  · rw [if_neg (by simpa using hV), Db.status_eq_absent]
    refine Db.row_eq_none.mpr (fun r hr hrun htask => ?_)
    rw [h.task_runs', List.mem_append] at hr
    rcases hr with hr | hr
    · obtain ⟨run', hrun', -, -, -, hid, -⟩ := hinv.defined r hr
      exact h.new_run run' hrun' (hid.trans hrun)
    · obtain ⟨task, hmem, hw, policy, -, rfl⟩ := h.mem_rows hinv.definitions hr
      exact hV ⟨task, hmem, hw, htask⟩

/-- A run has at most one row for a task, also with the new run's rows. -/
theorem CreatedRun.unique (hinv : Inv checks db)
    (h : CreatedRun ids clock workflow (dependencies db workflow.id) db db' run rows) :
    db'.RowsUnique := by
  -- Old rows are of old runs, new rows of the new one.
  have hmix : ∀ r ∈ db.task_runs.rows, ∀ s ∈ rows, r.run_id ≠ s.run_id := by
    intro r hr s hs he
    obtain ⟨task, -, -, policy, -, rfl⟩ := h.mem_rows hinv.definitions hs
    obtain ⟨run', hrun', -, -, -, hid, -⟩ := hinv.defined r hr
    exact h.new_run run' hrun' (hid.trans (he.trans h.run_id.symm))
  intro r hr s hs hrun htask
  rw [h.task_runs', List.mem_append] at hr hs
  rcases hr with hr | hr
  · rcases hs with hs | hs
    · exact hinv.unique r hr s hs hrun htask
    · exact absurd hrun (hmix r hr s hs)
  · rcases hs with hs | hs
    · exact absurd hrun.symm (hmix s hs r hr)
    · obtain ⟨a, ha, -, pa, hpa, rfl⟩ := h.mem_rows hinv.definitions hr
      obtain ⟨b, hb, -, pb, hpb, rfl⟩ := h.mem_rows hinv.definitions hs
      have he : a = b := db.tasks.eq_of_key ha hb htask
      subst he
      rw [hpa] at hpb
      cases hpb
      rfl

theorem CreatedRun.mem_task_runs
    (h : CreatedRun ids clock workflow (dependencies db workflow.id) db db' run rows) {r : TaskRun} :
    r ∈ db'.task_runs.rows ↔ r ∈ db.task_runs.rows ∨ r ∈ rows := by
  rw [h.task_runs', List.mem_append]

theorem CreatedRun.mem_runs
    (h : CreatedRun ids clock workflow (dependencies db workflow.id) db db' run rows)
    {run' : WorkflowRun} :
    run' ∈ db'.workflow_runs.rows ↔ run' ∈ db.workflow_runs.rows ∨ run' = run := by
  rw [h.runs', List.mem_append, List.mem_singleton]

/-- The new rows are lawful. -/
theorem CreatedRun.good (hinv : Inv checks db)
    (h : CreatedRun ids clock workflow (dependencies db workflow.id) db db' run rows) :
    db'.Good checks := by
  refine ⟨fun r hr => ?_, fun hck r hr => ?_, fun r hr => ?_, ?_⟩
  · rcases h.mem_task_runs.mp hr with hr | hr
    · exact hinv.good.lawful r hr
    · obtain ⟨task, -, -, policy, -, rfl⟩ := h.mem_rows hinv.definitions hr
      exact newTaskRun_lawful _ policy task
  · rcases h.mem_task_runs.mp hr with hr | hr
    · exact hinv.good.budget hck r hr
    · obtain ⟨task, -, -, policy, -, rfl⟩ := h.mem_rows hinv.definitions hr
      have := policy.one_le_max_attempts
      simp only [newTaskRun]
      omega
  · rcases h.mem_runs.mp hr with hr | rfl
    · exact hinv.good.runs r hr
    · simp [WorkflowRun.violates, h.pending.2.2]
  · rw [h.frame]
    exact hinv.good.attempts

/-- The new run has a row for each of its tasks, and the others keep theirs. -/
theorem CreatedRun.materialised (hinv : Inv checks db)
    (h : CreatedRun ids clock workflow (dependencies db workflow.id) db db' run rows)
    {run' : WorkflowRun} (hrun' : run' ∈ db'.workflow_runs.rows) :
    (∀ task ∈ db.tasks.rows, task.workflow_id = run'.workflow_id →
      ∃ r ∈ db'.task_runs.rows, r.run_id = run'.id ∧ r.task_id = task.id) ∧
    ∃ r ∈ db'.task_runs.rows, r.run_id = run'.id := by
  rcases h.mem_runs.mp hrun' with hrun' | rfl
  · obtain ⟨hall, r, hr, hid⟩ := hinv.materialised run' hrun'
    refine ⟨fun task htask hw => ?_, r, h.mem_task_runs.mpr (.inl hr), hid⟩
    obtain ⟨r, hr, h1, h2⟩ := hall task htask hw
    exact ⟨r, h.mem_task_runs.mpr (.inl hr), h1, h2⟩
  · have hrow : ∀ task ∈ db.tasks.rows, task.workflow_id = workflow.id →
        ∃ r ∈ db'.task_runs.rows, r.run_id = run'.id ∧ r.task_id = task.id := by
      intro task htask hw
      obtain ⟨policy, hr⟩ := h.exists_row hinv.definitions htask hw
      exact ⟨_, h.mem_task_runs.mpr (.inr hr), h.run_id.symm, rfl⟩
    refine ⟨fun task htask hw => hrow task htask (hw.trans h.workflow_id), ?_⟩
    obtain ⟨task, htask⟩ := List.exists_mem_of_ne_nil _ h.tasks_ne
    obtain ⟨hmem, hw⟩ := List.mem_filter.mp htask
    obtain ⟨r, hr, h1, -⟩ := hrow task hmem (by simpa using hw)
    exact ⟨r, hr, h1⟩

theorem CreatedRun.coherent (hinv : Inv checks db)
    (h : CreatedRun ids clock workflow (dependencies db workflow.id) db db' run rows)
    (run_id : UUID) : Precedence.Coherent db.parents (db'.status run_id) := by
  have hd := hinv.definitions
  by_cases hr : run_id = run.id
  · rw [hr, h.status_new hinv (h.unique hinv)]
    -- Both ends of an edge are in the new run, or neither is.
    refine Precedence.Coherent.start (fun p c hpc => ?_)
    obtain ⟨s, hs, t, ht, rfl, rfl, hw⟩ := hd.edges p c hpc
    simp only [decide_eq_true_eq]
    constructor
    · rintro ⟨task, htask, hwt, hid⟩
      rw [db.tasks.eq_of_key htask hs hid] at hwt
      exact ⟨t, ht, hw.symm.trans hwt, rfl⟩
    · rintro ⟨task, htask, hwt, hid⟩
      rw [db.tasks.eq_of_key htask ht hid] at hwt
      exact ⟨s, hs, hw.trans hwt, rfl⟩
  · rw [h.status_old hinv (h.unique hinv) hr]
    exact hinv.coherent run_id

/-- A new row counts all its parents, none of which is done yet. -/
theorem CreatedRun.counted (hinv : Inv checks db)
    (h : CreatedRun ids clock workflow (dependencies db workflow.id) db db' run rows)
    {r : TaskRun} (hr : r ∈ db'.task_runs.rows) (hs : r.state = .PENDING) :
    r.pending_deps = Precedence.unmet db.parents (db'.status r.run_id) r.task_id := by
  have hu' := h.unique hinv
  rcases h.mem_task_runs.mp hr with hr | hr
  · have hne : r.run_id ≠ run.id := by
      obtain ⟨run', hrun', -, -, -, hid, -⟩ := hinv.defined r hr
      exact fun he => h.new_run run' hrun' (hid.trans he)
    rw [h.status_old hinv hu' hne]
    exact hinv.counted r hr hs
  · obtain ⟨task, htask, hw, policy, -, rfl⟩ := h.mem_rows hinv.definitions hr
    have hnone : ∀ p, db'.status run.id p ≠ .done := by
      intro p hp
      rw [h.status_new hinv hu', Precedence.start] at hp
      split at hp
      · split at hp <;> cases hp
      · cases hp
    show ((db.parents task.id).card : ℤ)
      = (Precedence.unmet db.parents (db'.status ids.run_id) task.id : ℤ)
    rw [Precedence.unmet, Finset.filter_true_of_mem]
    intro p _
    rw [← h.run_id]
    exact hnone p

/-- **Submitting a run keeps the invariant.** -/
theorem CreatedRun.inv (hinv : Inv checks db) (hworkflow : workflow ∈ db.workflows.rows)
    (h : CreatedRun ids clock workflow (dependencies db workflow.id) db db' run rows) :
    Inv checks db' := by
  have hd := hinv.definitions
  have htasks : db'.tasks = db.tasks := by rw [h.frame]
  have hworkflows : db'.workflows = db.workflows := by rw [h.frame]
  have hedges : db'.task_dependencies = db.task_dependencies := by rw [h.frame]
  have hattempts : db'.task_attempts = db.task_attempts := by rw [h.frame]
  refine ⟨h.good hinv, hd.congr hworkflows htasks hedges, h.unique hinv, ?_, ?_, ?_, ?_, ?_, ?_⟩
  · intro r hr
    rw [htasks]
    rcases h.mem_task_runs.mp hr with hr | hr
    · obtain ⟨run', hrun', task, htask, policy, hrest⟩ := hinv.defined r hr
      exact ⟨run', h.mem_runs.mpr (.inl hrun'), task, htask, policy, hrest⟩
    · obtain ⟨task, htask, hw, policy, hpolicy, rfl⟩ := h.mem_rows hd hr
      exact ⟨run, h.mem_runs.mpr (.inr rfl), task, htask, policy, h.run_id, rfl,
        hw.trans h.workflow_id.symm, hpolicy, rfl⟩
  · rw [htasks]
    exact fun run' hrun' => h.materialised hinv hrun'
  · intro run' hrun'
    rw [hworkflows]
    rcases h.mem_runs.mp hrun' with hrun' | rfl
    · exact hinv.run_defined run' hrun'
    · exact ⟨workflow, hworkflow, h.workflow_id.symm⟩
  · intro a ha
    rw [hattempts] at ha
    obtain ⟨r, hr, h1, h2⟩ := hinv.numbered a ha
    exact ⟨r, h.mem_task_runs.mpr (.inl hr), h1, h2⟩
  · rw [Db.parents_congr hedges]
    exact h.coherent hinv
  · rw [Db.parents_congr hedges]
    exact fun r hr hs => h.counted hinv hr hs

end Submit

/-! ## Publishing -/

/-- **Publishing a workflow keeps the invariant:** its tasks and edges are new, so
no run has them. -/
theorem WorkflowRepository.Published.inv {db' : Db} {ids : WorkflowIds} {specs : List TaskSpec}
    {workflow : Workflow} (hinv : Inv checks db) (h : Published ids specs db db' workflow) :
    Inv checks db' := by
  have htask_runs : db'.task_runs = db.task_runs := by rw [h.frame]
  have hruns : db'.workflow_runs = db.workflow_runs := by rw [h.frame]
  have hattempts : db'.task_attempts = db.task_attempts := by rw [h.frame]
  have hstatus : db'.status = db.status := by
    funext run_id c
    unfold Db.status Db.row
    rw [htask_runs]
  -- A task with a row is an old one.
  have holdtask : ∀ r ∈ db.task_runs.rows, ∀ spec ∈ specs, ids.task_id spec.key ≠ r.task_id := by
    intro r hr spec hspec he
    obtain ⟨-, -, task, htask, -, -, hid, -⟩ := hinv.defined r hr
    exact h.new_tasks spec hspec task htask (hid.trans he.symm)
  have hparents : ∀ r ∈ db.task_runs.rows, db'.parents r.task_id = db.parents r.task_id := by
    intro r hr
    ext p
    rw [h.mem_parents]
    refine or_iff_left ?_
    rintro ⟨spec, hspec, he, -⟩
    exact holdtask r hr spec hspec he
  have hnone : ∀ run_id, ∀ k ∈ specs.map TaskSpec.key,
      db.status run_id (ids.task_id k) = .absent := by
    intro run_id k hk
    obtain ⟨spec, hspec, rfl⟩ := List.mem_map.mp hk
    exact Db.status_eq_absent.mpr (Db.row_eq_none.mpr (fun r hr _ he =>
      holdtask r hr spec hspec he.symm))
  refine ⟨⟨?_, ?_, ?_, ?_⟩, h.definitions hinv.definitions, ?_, ?_, ?_, ?_, ?_, ?_, ?_⟩
  · rw [htask_runs]
    exact hinv.good.lawful
  · rw [htask_runs]
    exact hinv.good.budget
  · rw [hruns]
    exact hinv.good.runs
  · rw [hattempts]
    exact hinv.good.attempts
  · unfold Db.RowsUnique
    rw [htask_runs]
    exact hinv.unique
  · intro r hr
    rw [htask_runs] at hr
    obtain ⟨run, hrun, task, htask, policy, hrest⟩ := hinv.defined r hr
    rw [hruns, h.tasks']
    exact ⟨run, hrun, task, List.mem_append_left _ htask, policy, hrest⟩
  · intro run hrun
    rw [hruns] at hrun
    obtain ⟨hall, hsome⟩ := hinv.materialised run hrun
    rw [htask_runs]
    refine ⟨fun task htask hw => ?_, hsome⟩
    rw [h.tasks', List.mem_append, List.mem_map] at htask
    rcases htask with htask | ⟨spec, -, rfl⟩
    · exact hall task htask hw
    · obtain ⟨w, hw', hid⟩ := hinv.run_defined run hrun
      exact absurd (hid.trans (hw.symm.trans h.workflow_id.symm)) (h.new_workflow w hw')
  · intro run hrun
    rw [hruns] at hrun
    obtain ⟨w, hw, hid⟩ := hinv.run_defined run hrun
    rw [h.workflows']
    exact ⟨w, List.mem_append_left _ hw, hid⟩
  · rw [hattempts, htask_runs]
    exact hinv.numbered
  · intro run_id
    rw [hstatus]
    refine (hinv.coherent run_id).extend ?_ ?_ ?_
    · intro c hc
      obtain ⟨r, hr, -, rfl, -⟩ := Db.exists_row_of_status hinv.unique rfl hc
      exact hparents r hr
    · intro c hc p hp
      rcases h.mem_parents.mp hp with hp | ⟨spec, hspec, -, k, hk, rfl⟩
      · exact ((hinv.coherent run_id).absent p c hp).mpr hc
      · exact hnone run_id k (h.checked.known spec hspec k hk)
    · intro c p hp
      exact h.mem_parents.mpr (Or.inl hp)
  · intro r hr hs
    rw [htask_runs] at hr
    rw [hstatus, hinv.counted r hr hs, Precedence.unmet, Precedence.unmet, hparents r hr]

/-! ## Every reachable database -/

/-- What a queue operation does to the task rows, by operation and by what it
finds. An operation that is too late, or that the schema refuses, does nothing. -/
inductive Outcome (checks : Bool) (db : Db) : Op → (TaskRun → TaskRun) → Prop where
  | claimed (lease_seconds : ℚ) (clock : Clock) (tie : UUID → ℕ) (worker_id : String) (limit : ℕ)
      (hbudget : checks = true → db.WithinBudget tie clock.utcnow limit) :
      Outcome checks db (.claim lease_seconds clock tie worker_id limit)
        (fun r => if picked tie clock.utcnow limit db r
          then TaskQueueRepository.claimed worker_id (clock.utcnow + lease_seconds) clock.now r
          else r)
  | refused (lease_seconds : ℚ) (clock : Clock) (tie : UUID → ℕ) (worker_id : String) (limit : ℕ)
      (hbudget : ¬ (checks = true → db.WithinBudget tie clock.utcnow limit)) :
      Outcome checks db (.claim lease_seconds clock tie worker_id limit) id
  | renewed (lease_seconds : ℚ) (clock : Clock) (task_run_id : UUID) (worker_id : String) :
      Outcome checks db (.renew lease_seconds clock task_run_id worker_id)
        (fun r => if heldBy task_run_id worker_id r
          then TaskQueueRepository.renewed (clock.utcnow + lease_seconds) r else r)
  | succeeded (clock : Clock) (task_run_id : UUID) (worker_id : String) (output : Option Dict)
      {row : TaskRun} (hrow : db.task_runs.get task_run_id = some row)
      (hheld : heldBy task_run_id worker_id row = true) :
      Outcome checks db (.success clock task_run_id worker_id output)
        (afterSuccess db row clock.now output)
  | lateSuccess (clock : Clock) (task_run_id : UUID) (worker_id : String) (output : Option Dict)
      (hlost : ∀ r ∈ db.task_runs.rows, heldBy task_run_id worker_id r = false) :
      Outcome checks db (.success clock task_run_id worker_id output) id
  | retried (clock : Clock) (uniform : ℚ → ℚ) (task_run_id : UUID) (worker_id : String)
      (error : String) (delay : ℚ) {row : TaskRun}
      (hrow : db.task_runs.get task_run_id = some row) (hworker : row.worker_id = some worker_id)
      (hlt : row.attempt < row.max_attempts) :
      Outcome checks db (.failure clock uniform task_run_id worker_id error)
        (fun r => if ownedBy task_run_id worker_id r
          then requeuedForRetry (clock.utcnow + delay) error r else r)
  | failed (clock : Clock) (uniform : ℚ → ℚ) (task_run_id : UUID) (worker_id : String)
      (error : String) (tasks : List UUID) {row : TaskRun}
      (hrow : db.task_runs.get task_run_id = some row) (hworker : row.worker_id = some worker_id)
      (hge : row.max_attempts ≤ row.attempt)
      (hsound : ∀ c ∈ tasks, Precedence.Below db.parents row.task_id c) :
      Outcome checks db (.failure clock uniform task_run_id worker_id error)
        (afterFailure row clock.now .DEAD_LETTER error tasks)
  | lateFailure (clock : Clock) (uniform : ℚ → ℚ) (task_run_id : UUID) (worker_id : String)
      (error : String)
      (hlost : ∀ row, db.task_runs.get task_run_id = some row → row.worker_id ≠ some worker_id) :
      Outcome checks db (.failure clock uniform task_run_id worker_id error) id
  | reaped (clock : Clock) :
      Outcome checks db (.reap clock)
        (fun r => if leaseExpired clock.utcnow r then TaskQueueRepository.reaped r else r)
  | cancelled (clock : Clock) (run_id : UUID) :
      Outcome checks db (.cancel clock run_id)
        (fun r => if cancellable run_id r then RunRepository.cancelled clock.now r else r)
  | refreshed (clock : Clock) (run_id : UUID) : Outcome checks db (.refresh clock run_id) id

/-- **Every queue operation has one of these outcomes,** and each of them is a
step of every run's execution. -/
theorem serve_outcome (hinv : Inv checks db) {op : Op} (hop : op.isQueue = true) :
    ∃ g, Outcome checks db op g ∧ QueueStep checks db (serve checks db op) g := by
  cases op with
  | publish => cases hop
  | submit => cases hop
  | claim lease_seconds clock tie worker_id limit =>
      by_cases hbudget : checks = true → db.WithinBudget tie clock.utcnow limit
      · obtain ⟨_, -, -, h⟩ := serve_claim hinv lease_seconds clock tie worker_id limit hbudget
        exact ⟨_, .claimed lease_seconds clock tie worker_id limit hbudget, h⟩
      · rw [(serve_claim_refused hinv lease_seconds clock tie worker_id limit hbudget).2]
        exact ⟨id, .refused lease_seconds clock tie worker_id limit hbudget, .refl hinv⟩
  | renew lease_seconds clock task_run_id worker_id =>
      exact ⟨_, .renewed lease_seconds clock task_run_id worker_id,
        serve_renew hinv lease_seconds clock task_run_id worker_id⟩
  | success clock task_run_id worker_id output =>
      by_cases hheld : ∃ row ∈ db.task_runs.rows, heldBy task_run_id worker_id row = true
      · obtain ⟨row, hmem, hheld⟩ := hheld
        have hrow := Table.get_eq_some.mpr ⟨hmem, (heldBy_iff.mp hheld).1⟩
        exact ⟨_, .succeeded clock task_run_id worker_id output hrow hheld,
          (serve_success_held hinv clock output hrow hheld).2⟩
      · push Not at hheld
        have hlost : ∀ r ∈ db.task_runs.rows, heldBy task_run_id worker_id r = false :=
          fun r hr => by simpa using hheld r hr
        rw [(serve_success_lost hinv clock output hlost).2]
        exact ⟨id, .lateSuccess clock task_run_id worker_id output hlost, .refl hinv⟩
  | failure clock uniform task_run_id worker_id error =>
      by_cases hheld : ∃ row, db.task_runs.get task_run_id = some row ∧
          row.worker_id = some worker_id
      · obtain ⟨row, hrow, hworker⟩ := hheld
        rcases lt_or_ge row.attempt row.max_attempts with hlt | hge
        · obtain ⟨delay, -, h⟩ := serve_failure_retry hinv clock uniform error hrow hworker hlt
          exact ⟨_, .retried clock uniform task_run_id worker_id error delay hrow hworker hlt, h⟩
        · obtain ⟨tasks, -, h, -, hsound⟩ :=
            serve_failure_terminal hinv clock uniform error hrow hworker hge
          exact ⟨_, .failed clock uniform task_run_id worker_id error tasks hrow hworker hge hsound,
            h⟩
      · push Not at hheld
        rw [(serve_failure_lost clock uniform error hheld).2]
        exact ⟨id, .lateFailure clock uniform task_run_id worker_id error hheld, .refl hinv⟩
  | reap clock => exact ⟨_, .reaped clock, serve_reap hinv clock⟩
  | cancel clock run_id => exact ⟨_, .cancelled clock run_id, serve_cancel hinv clock run_id⟩
  | refresh clock run_id => exact ⟨_, .refreshed clock run_id, serve_refresh hinv clock run_id⟩

/-- What a submission that returned has done. -/
theorem exec_submitRun {ids : RunIds} {clock : Clock} {workflow_id : UUID}
    {trigger_payload : Option Dict} {db' : Db} {run : WorkflowRun}
    (h : exec (store checks) (submitRun ids clock workflow_id trigger_payload) db
      = .ok (db', run)) :
    ∃ workflow ∈ db.workflows.rows, workflow.id = workflow_id ∧ ∃ rows,
      CreatedRun ids clock workflow (dependencies db workflow.id) db db' run rows := by
  unfold submitRun at h
  rw [exec_read] at h
  cases hw : db.workflows.get workflow_id with
  | none => simp [hw] at h
  | some workflow =>
      obtain ⟨hmem, hid⟩ := Table.get_eq_some.mp hw
      simp only [hw] at h
      exact ⟨workflow, hmem, hid, exec_create_run h⟩

/-- **A submission** creates a run, or does nothing. -/
theorem serve_submit (checks : Bool) (db : Db) (ids : RunIds) (clock : Clock) (workflow_id : UUID)
    (trigger_payload : Option Dict) :
    serve checks db (.submit ids clock workflow_id trigger_payload) = db ∨
      ∃ workflow ∈ db.workflows.rows, ∃ run rows,
        CreatedRun ids clock workflow (dependencies db workflow.id) db
          (serve checks db (.submit ids clock workflow_id trigger_payload)) run rows := by
  cases h : exec (store checks) (submitRun ids clock workflow_id trigger_payload) db with
  | error e =>
      rw [serve, commit_error h]
      exact .inl rfl
  | ok out =>
      obtain ⟨workflow, hmem, -, rows, hcreated⟩ := exec_submitRun h
      rw [serve, commit_ok h]
      exact .inr ⟨workflow, hmem, out.2, rows, hcreated⟩

/-- A row that is there after a submission was there, or is a new one. -/
theorem mem_task_runs_submit (hinv : Inv checks db) {ids : RunIds} {clock : Clock}
    {workflow_id : UUID} {trigger_payload : Option Dict} {r : TaskRun}
    (hr : r ∈ (serve checks db (.submit ids clock workflow_id trigger_payload)).task_runs.rows) :
    r ∈ db.task_runs.rows ∨ ∃ unmet policy task, r = newTaskRun ids clock unmet policy task := by
  rcases serve_submit checks db ids clock workflow_id trigger_payload with
    hsame | ⟨workflow, -, run, rows, hcreated⟩
  · rw [hsame] at hr
    exact .inl hr
  · rw [hcreated.task_runs', List.mem_append] at hr
    rcases hr with hr | hr
    · exact .inl hr
    · obtain ⟨task, -, -, policy, -, hnew⟩ := hcreated.mem_rows hinv.definitions hr
      exact .inr ⟨_, policy, task, hnew⟩

/-- **A publication** creates a workflow, or does nothing. -/
theorem serve_publish (checks : Bool) (db : Db) (ids : WorkflowIds) (now : Time) (name : String)
    (specs : List TaskSpec) (description : Option String) :
    serve checks db (.publish ids now name specs description) = db ∨
      ∃ workflow, Published ids specs db
        (serve checks db (.publish ids now name specs description)) workflow := by
  cases h : exec (store checks) (create ids now name specs description) db with
  | error e =>
      rw [serve, commit_error h]
      exact .inl rfl
  | ok out =>
      rw [serve, commit_ok h]
      exact .inr ⟨out.2, exec_create h⟩

/-- A publication touches the definitions and nothing else. -/
theorem serve_publish_frame (checks : Bool) (db : Db) (ids : WorkflowIds) (now : Time)
    (name : String) (specs : List TaskSpec) (description : Option String) :
    ∃ workflows tasks task_dependencies,
      serve checks db (.publish ids now name specs description) =
        { db with
          workflows := workflows, tasks := tasks, task_dependencies := task_dependencies } := by
  rcases serve_publish checks db ids now name specs description with hsame | ⟨_, hpublished⟩
  · exact ⟨db.workflows, db.tasks, db.task_dependencies, hsame⟩
  · exact ⟨_, _, _, hpublished.frame⟩

/-- **Every operation keeps the invariant.** -/
theorem serve_inv (hinv : Inv checks db) (op : Op) : Inv checks (serve checks db op) := by
  cases hop : op.isQueue with
  | true =>
      obtain ⟨g, -, hstep⟩ := serve_outcome hinv hop
      exact hstep.inv hinv
  | false =>
      cases op with
      | publish ids now name specs description =>
          rcases serve_publish checks db ids now name specs description with
            hsame | ⟨workflow, hpublished⟩
          · rw [hsame]
            exact hinv
          · exact hpublished.inv hinv
      | submit ids clock workflow_id trigger_payload =>
          rcases serve_submit checks db ids clock workflow_id trigger_payload with
            hsame | ⟨workflow, hmem, run, rows, hcreated⟩
          · rw [hsame]
            exact hinv
          · exact hcreated.inv hinv hmem
      | _ => cases hop

theorem Initial.inv (h : Initial db) : Inv checks db := by
  have hno : ∀ r, r ∉ db.task_runs.rows := by
    intro r hr
    rw [h.no_task_runs] at hr
    exact absurd hr List.not_mem_nil
  have hnorun : ∀ r, r ∉ db.workflow_runs.rows := by
    intro r hr
    rw [h.no_runs] at hr
    exact absurd hr List.not_mem_nil
  have hnoattempt : ∀ a, a ∉ db.task_attempts.rows := by
    intro a ha
    rw [h.no_attempts] at ha
    exact absurd ha List.not_mem_nil
  have habsent : ∀ run_id c, db.status run_id c = .absent := fun run_id c =>
    Db.status_eq_absent.mpr (Db.row_eq_none.mpr (fun r hr => absurd hr (hno r)))
  refine ⟨⟨fun r hr => absurd hr (hno r), fun _ r hr => absurd hr (hno r),
    fun r hr => absurd hr (hnorun r), fun a ha => absurd ha (hnoattempt a)⟩, h.definitions,
    fun r hr => absurd hr (hno r), fun r hr => absurd hr (hno r), fun r hr => absurd hr (hnorun r),
    fun r hr => absurd hr (hnorun r), fun a ha => absurd ha (hnoattempt a), fun run_id => ?_,
    fun r hr => absurd hr (hno r)⟩
  constructor <;> intros <;> simp_all

/-- **Every reachable database satisfies the invariant.** -/
theorem Reachable.inv (h : Reachable checks db) : Inv checks db :=
  Lts.Reach.invariant (fun _ hi => hi.inv)
    (fun db op db' _ hinv hstep => by rw [← hstep]; exact serve_inv hinv op) h

/-! ## Traces

Concrete runs are lists of operations, served one after the other. The two
workflows below are the ones they run: one task, and a task `b` after a task `a`,
neither of them ever retried. -/

/-- The database after some operations, from the empty one. -/
def served (checks : Bool) (ops : List Op) : Db := ops.foldl (serve checks) Db.empty

theorem reachable_served (checks : Bool) (ops : List Op) : Reachable checks (served checks ops) :=
  Lts.Reach.foldl (.start initial_empty) ops

/-- `{"type": "none"}`. -/
def noRetry : Dict := ⟨[("type", .str "none")], by decide⟩

/-- `{"type": "fixed", "attempts": 2}`. -/
def retryOnce : Dict := ⟨[("type", .str "fixed"), ("attempts", .int 2)], by decide⟩

def sampleTask (key : String) (depends_on : List String) (retry_policy : Dict) : TaskSpec where
  key := key
  executor := "noop"
  params := Dict.empty
  depends_on := depends_on
  retry_policy := retry_policy
  priority := 0
  timeout_seconds := 60

/-- The process and the database read the same time. -/
def clockAt (t : Time) : Clock := ⟨t, t⟩

/-- Workflow 1 with the single task 2, and its run 10 with the row 12. -/
def soloStart (retry_policy : Dict) : List Op :=
  [.publish ⟨1, fun _ => 2⟩ 0 "solo" [sampleTask "a" [] retry_policy] none,
    .submit ⟨10, fun task => 10 + task⟩ (clockAt 0) 1 none]

/-- Two tasks, the second after the first. -/
def chainSpecs (retry_policy : Dict) : List TaskSpec :=
  [sampleTask "a" [] retry_policy, sampleTask "b" ["a"] retry_policy]

/-- Workflow 1 with the tasks 2 and 3 of a chain, and its run 10 with the rows 12
and 13. -/
def chainStart (retry_policy : Dict) : List Op :=
  [.publish ⟨1, fun key => if key = "a" then 2 else 3⟩ 0 "chain" (chainSpecs retry_policy) none,
    .submit ⟨10, fun task => 10 + task⟩ (clockAt 0) 1 none]

/-- A worker takes at most one task, with a lease of 30 seconds. -/
def claimAt (t : Time) (worker_id : String) : Op := .claim 30 (clockAt t) (fun _ => 0) worker_id 1

end Conductor
