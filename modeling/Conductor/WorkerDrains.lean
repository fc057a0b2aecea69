/-
A worker that is left alone with the queue drains it.

`run_forever` never looks at dependencies or at retries: it claims what is due, executes
it and reports. That all tasks of all runs come to their end this way rests on what the
reports do to the queue. Here the worker polls for ever, with a clock that goes on. The
other processes may publish, cancel, renew, report and refresh as they like, but start no
run, claim nothing and reap nothing; and no executor does the harm that would end the loop: it
brings no U+0000, does not exit, and does not fail at a task whose policy overflows.

Then every claim that finds something lowers the potential of the queue, and nothing
raises it. Between two iterations nothing is `RUNNING`, so what is left is waiting for a
`READY` task, which is claimed when its time has come.
-/
import Conductor.FinishedRuns
import Conductor.RunForever

set_option autoImplicit false

open Relational Txn Progress

namespace Conductor

open RunRepository TaskQueueRepository WorkflowRepository

/-! ## Undisturbed polls -/

/-- The transaction starts no run, claims nothing and reaps nothing. -/
def Op.leavesAlone : Op → Bool
  | .claim .. | .reap .. | .submit .. => false
  | _ => true

/-- During the poll the others leave the queue to the worker, and the executors do no
harm. -/
structure Poll.Undisturbed (poll : Poll) : Prop where
  before : ∀ op ∈ poll.before, op.leavesAlone = true
  turns : ∀ task, (poll.turn task).Allows (fun op => op.leavesAlone = true)
  harmless : ∀ task, (poll.turn task).outcome.harms task = false

/-- The queue is within its budget, and what is running is the worker's. -/
structure Db.Owned (checks : Bool) (worker_id : String) (db : Db) : Prop where
  inv : Inv checks db
  budgeted : db.Budgeted
  running : ∀ r ∈ db.task_runs.rows, r.state = .RUNNING → r.worker_id = some worker_id

variable {checks : Bool} {db db' : Db} {settings : Settings} {worker_id : String}
  {claim_batch_size : ℕ} {turn : ClaimedTask → Turn} {stats : WorkerStats}

/-- The database goes on: it stays the worker's, and its rows wane. -/
def Onward (checks : Bool) (worker_id : String) (db db' : Db) : Prop :=
  db.Owned checks worker_id → db'.Owned checks worker_id ∧ db.Wanes db'

theorem Onward.refl (db : Db) : Onward checks worker_id db db :=
  fun h => ⟨h, .refl db⟩

theorem Onward.trans {db'' : Db} (h : Onward checks worker_id db db')
    (h' : Onward checks worker_id db' db'') : Onward checks worker_id db db'' := by
  intro howned
  obtain ⟨howned', hwanes⟩ := h howned
  obtain ⟨howned'', hwanes'⟩ := h' howned'
  exact ⟨howned'', hwanes.trans hwanes'⟩

/-- A transaction that gives nobody a task, and reaps none. -/
theorem onward_serve {op : Op} (hop : op.leavesAlone = true) :
    Onward checks worker_id db (serve checks db op) := by
  intro howned
  have hinv := howned.inv
  have hquiet : NoNewOwner db (serve checks db op) := by
    cases op with
    | publish ids now name specs description =>
        exact (quiet_publish ids now name specs description).2
    | submit | claim | reap => cases hop
    | renew | success | failure | cancel | refresh =>
        exact (quiet_queue hinv rfl (fun _ _ _ _ _ he => by cases he)).2
  have hspares : SparesLastAttempts db op := by
    cases op <;> trivial
  have hsubmits : op.submits = false := by
    cases op <;> first | rfl | cases hop
  refine ⟨⟨serve_inv hinv op, (budgeted_serve_iff hinv howned.budgeted op).mpr hspares,
    fun r' hr' hrunning => ?_⟩, serve_wanes hinv howned.budgeted hsubmits⟩
  -- A running row has an owner, and had it before.
  obtain ⟨w, hworker⟩ := Option.isSome_iff_exists.mp
    (((serve_inv hinv op).good.lawful r' hr').held hrunning).2.1
  obtain ⟨r, hr, -, howner, -⟩ := hquiet r' hr' w hworker
  have hrunning' := (hinv.good.lawful r hr).running_of_worker (by rw [howner]; rfl)
  rw [hworker, ← howner]
  exact howned.running r hr hrunning'

/-- Everything that takes place in an undisturbed poll besides its claim. -/
theorem carries_onward (checks : Bool) (settings : Settings) (worker_id : String) :
    Carries checks settings worker_id (fun op => op.leavesAlone = true)
      (Onward checks worker_id) where
  refl := Onward.refl
  trans _ _ _ := Onward.trans
  other db op _ hop := by
    unfold elsewhere
    split
    · exact .refl db
    · have hcases : pgServe checks db op = db ∨ pgServe checks db op = serve checks db op :=
        pgServe_cases db op
      rcases hcases with hsame | hserved
      · rw [hsame]
        exact .refl db
      · rw [hserved]
        exact onward_serve hop
  renew _ _ _ _ := onward_serve rfl
  complete db report hsound := by
    obtain ⟨-, -, htransact, -⟩ := exec_complete hsound.inv report
    have hreport : report.op.leavesAlone = true := by
      unfold Report.op
      split <;> rfl
    rw [htransact]
    exact (onward_serve hreport).trans (onward_serve rfl)

/-- A whole batch. -/
theorem Carries.executeAll {P : Op → Prop} {R : Db → Db → Prop}
    (h : Carries checks settings worker_id P R) (hsound : db.Sound checks) (stats : WorkerStats)
    (batch : List ClaimedTask) (hturns : ∀ task, (turn task).Allows P) (size : ℕ) :
    R db ((Iteration.ofCalls (Conductor.executeAll checks settings worker_id turn db stats batch)
      size).left db stats).1 := by
  induction batch generalizing db stats with
  | nil => exact h.refl db
  | cons task batch ih =>
      obtain ⟨hbefore, hafter⟩ := h.execute hsound stats (hturns task)
      rw [Conductor.executeAll]
      cases (Conductor.execute checks settings worker_id (turn task) db stats task).escaped with
      | some e => exact h.trans _ _ _ hbefore hafter
      | none =>
          have hsound' := (execute_spec settings worker_id turn hsound stats task).2.1
          exact h.trans _ _ _ (h.trans _ _ _ hbefore hafter) (ih hsound' _)

/-- A claim leaves the queue to its worker. -/
theorem onward_claim (lease_seconds : ℚ) (clock : Clock) (tie : UUID → ℕ) (limit : ℕ) :
    Onward checks worker_id db
      (serve checks db (.claim lease_seconds clock tie worker_id limit)) := by
  intro howned
  have hinv := howned.inv
  have hwanes : db.Wanes (serve checks db (.claim lease_seconds clock tie worker_id limit)) :=
    serve_wanes hinv howned.budgeted rfl
  obtain ⟨-, -, -, hstep⟩ := serve_claim hinv lease_seconds clock tie worker_id limit
    (fun _ => howned.budgeted.withinBudget tie clock.utcnow limit)
  refine ⟨⟨serve_inv hinv _, (budgeted_serve_iff hinv howned.budgeted _).mpr trivial,
    fun r' hr' hrunning => ?_⟩, hwanes⟩
  obtain ⟨r, hr, rfl⟩ := hstep.rewritten.mem_rows.mp hr'
  split at hrunning
  · rename_i hpicked
    rw [if_pos hpicked]
    rfl
  · rename_i hpicked
    rw [if_neg hpicked]
    exact howned.running r hr hrunning

/-! ## A claim on PostgreSQL -/

/-- A claim writes no text but the worker's id. -/
theorem clean_claim_batch (lease_seconds : ℚ) (clock : Clock) (tie : UUID → ℕ) (limit : ℕ)
    (hname : nulText worker_id = false) :
    (claim_batch lease_seconds clock tie worker_id limit).Writes CleanWrite := by
  refine .write (fun v hv => taskRuns_not_refused (fun r hr => ?_)) (fun d => ?_)
  · obtain ⟨old, hold, rfl⟩ := List.mem_map.mp hr
    have hclean := (Db.clean_iff.mp hv).2.2.2.1 old (List.mem_of_mem_filter hold)
    rw [TaskRun.hasNul_eq_false] at hclean ⊢
    exact ⟨hname, hclean.2⟩
  · split
    · exact .ret _
    · refine .read (fun v => (Prog.Writes.lift _).bind (fun results => ?_))
      unfold newTable
      split
      · refine .write (fun v hv => ?_) (fun _ => .ret _)
        rw [nulRefused_eq_none, Db.clean_iff]
        refine ⟨?_, ?_, ?_, ?_, fun a ha => ?_, ?_⟩
        case refine_5 =>
          obtain ⟨r, -, rfl⟩ := List.mem_map.mp ha
          rw [TaskAttempt.hasNul, Bool.or_eq_false_iff]
          exact ⟨hname, rfl⟩
        all_goals exact fun _ hx => absurd hx List.not_mem_nil
      · exact .raise _

/-- A worker with a clean name is not refused a claim within the budget. -/
theorem exec_pg_claim (hsound : db.Sound checks) (hb : db.Budgeted) (lease_seconds : ℚ)
    (clock : Clock) (tie : UUID → ℕ) (limit : ℕ) (hname : nulText worker_id = false) :
    ∃ batch, exec (postgres checks) (claim_batch lease_seconds clock tie worker_id limit) db
      = .ok (serve checks db (.claim lease_seconds clock tie worker_id limit), batch) := by
  obtain ⟨batch, hexec, -⟩ := serve_claim hsound.inv lease_seconds clock tie worker_id limit
    (fun _ => hb.withinBudget tie clock.utcnow limit)
  refine ⟨batch, ?_⟩
  rw [exec_postgres (clean_claim_batch lease_seconds clock tie limit hname) hsound.clean]
  exact hexec

/-! ## The polls -/

variable (stats) in
/-- An iteration goes on from the claim, and leaves what the claim left where it found
nothing. -/
theorem run_once_onward {clock : Clock} {tie : UUID → ℕ} {batch : List ClaimedTask}
    (hsound : db'.Sound checks)
    (hclaim : exec (postgres checks) (claim_batch settings.lease_seconds clock tie worker_id
      ((Option.none.filter (· ≠ 0)).getD claim_batch_size)) db = .ok (db', batch))
    (hnothing : batch = [] → db' = db)
    (hturns : ∀ task, (turn task).Allows (fun op => op.leavesAlone = true)) :
    Onward checks worker_id db' ((run_once checks settings claim_batch_size worker_id none clock tie
      turn db stats).left db stats).1 := by
  rw [run_once_of_claim hclaim turn stats]
  have hcarried := (carries_onward checks settings worker_id).executeAll hsound
    { stats with claimed := stats.claimed + batch.length } batch hturns batch.length
  cases batch with
  | nil =>
      rw [hnothing rfl]
      exact .refl db
  | cons task batch =>
      have hcalls := executeAll_ne_nil checks db' settings worker_id turn
        { stats with claimed := stats.claimed + (task :: batch).length } task batch
      rw [left_ofCalls hcalls _ db db' stats
        { stats with claimed := stats.claimed + (task :: batch).length }]
      exact hcarried

variable (stats) in
/-- An iteration whose executors do no harm returns. -/
theorem run_once_returns {clock : Clock} {tie : UUID → ℕ} {batch : List ClaimedTask}
    (hbefore : db.Sound checks) (hsound : db'.Sound checks)
    (hclaim : exec (postgres checks) (claim_batch settings.lease_seconds clock tie worker_id
      ((Option.none.filter (· ≠ 0)).getD claim_batch_size)) db = .ok (db', batch))
    (hharmless : ∀ task, (turn task).outcome.harms task = false) :
    (run_once checks settings claim_batch_size worker_id none clock tie turn db stats).returned
      = .ok batch.length := by
  rw [run_once_of_claim hclaim turn stats]
  refine ((through_iff hsound _ batch).mpr (fun call hcall => ?_)).returned
  exact call.not_poisoned
    (calls_describe hbefore.inv (exec_of_postgres hclaim).1 hsound _ call hcall)
    (hharmless call.task)

/-- What is known between two undisturbed polls. -/
structure Ready (checks : Bool) (worker_id : String) (s : Db × WorkerStats) : Prop where
  settled : Settled checks worker_id s
  owned : s.1.Owned checks worker_id

/-- **One undisturbed iteration** returns, and what it leaves comes after its claim. -/
theorem run_once_ready {poll : Poll} (hpoll : poll.Undisturbed)
    (hname : nulText worker_id = false)
    (h : Ready checks worker_id (db, stats)) (settings : Settings) (claim_batch_size : ℕ) :
    (∃ n, (run_once checks settings claim_batch_size worker_id none poll.clock poll.tie poll.turn
      db stats).returned = .ok n) ∧
    Ready checks worker_id ((run_once checks settings claim_batch_size worker_id none poll.clock
      poll.tie poll.turn db stats).left db stats) ∧
    (serve checks db (.claim settings.lease_seconds poll.clock poll.tie worker_id
      claim_batch_size)).Wanes ((run_once checks settings claim_batch_size worker_id none
        poll.clock poll.tie poll.turn db stats).left db stats).1 := by
  obtain ⟨batch, hclaim⟩ := exec_pg_claim h.settled.sound h.owned.budgeted settings.lease_seconds
    poll.clock poll.tie claim_batch_size hname
  obtain ⟨howned, -⟩ := onward_claim settings.lease_seconds poll.clock poll.tie claim_batch_size
    h.owned
  generalize serve checks db (.claim settings.lease_seconds poll.clock poll.tie worker_id
    claim_batch_size) = db' at hclaim howned ⊢
  obtain ⟨hstore, hclean⟩ := exec_of_postgres hclaim
  have hsound : db'.Sound checks := ⟨howned.inv, hclean h.settled.sound.clean⟩
  have hreturned :=
    run_once_returns stats h.settled.sound hsound hclaim hpoll.harmless
  obtain ⟨open_tasks, -, hbalanced, hopen⟩ := run_once_balanced settings h.settled
    claim_batch_size poll.clock poll.tie poll.turn
  obtain rfl := hopen _ hreturned
  have honward := run_once_onward stats hsound hclaim (fun hnil => by
    subst hnil
    exact claim_nothing h.settled.sound.inv hstore) hpoll.turns
  obtain ⟨howned', hwanes⟩ := honward howned
  exact ⟨⟨_, hreturned⟩, ⟨hbalanced, howned'⟩, hwanes⟩

/-- A loop that has not been left goes on from where it is. -/
theorem run_forever_append {idle_polls : ℕ} {polls : List Poll} (more : List Poll)
    (hgoing : (run_forever checks settings claim_batch_size worker_id db stats idle_polls
      polls).escaped = none) :
    let out := run_forever checks settings claim_batch_size worker_id db stats idle_polls polls
    run_forever checks settings claim_batch_size worker_id db stats idle_polls (polls ++ more)
      = run_forever checks settings claim_batch_size worker_id out.db out.stats out.idle_polls
        more := by
  induction polls generalizing db stats idle_polls with
  | nil => rfl
  | cons poll polls ih =>
      cases hreturned : (run_once checks settings claim_batch_size worker_id none poll.clock
          poll.tie poll.turn (poll.before.foldl (elsewhere checks worker_id) db)
          stats).returned with
      | error e =>
          simp only [run_forever, hreturned] at hgoing
          cases hgoing
      | ok n =>
          cases n with
          | zero =>
              simp only [List.cons_append, run_forever, hreturned] at hgoing ⊢
              exact ih hgoing
          | succ n =>
              simp only [List.cons_append, run_forever, hreturned] at hgoing ⊢
              exact ih hgoing

/-- Where the worker is after some polls of an infinite course of them. -/
def afterPolls (checks : Bool) (settings : Settings) (claim_batch_size : ℕ) (worker_id : String)
    (db : Db) (polls : ℕ → Poll) (n : ℕ) : Stopped :=
  run_forever checks settings claim_batch_size worker_id db ⟨0, 0, 0, 0⟩ 0
    ((List.range n).map polls)

variable {polls : ℕ → Poll}

/-- What an undisturbed worker has done after some polls. -/
structure Going (checks : Bool) (worker_id : String) (out : Stopped) : Prop where
  going : out.escaped = none
  ready : Ready checks worker_id (out.db, out.stats)

/-- **One poll.** The others act, the worker claims, and settles what it claimed. -/
theorem run_forever_one {poll : Poll} (hpoll : poll.Undisturbed)
    (hname : nulText worker_id = false) (h : Ready checks worker_id (db, stats))
    (settings : Settings) (claim_batch_size idle_polls : ℕ) :
    let out := run_forever checks settings claim_batch_size worker_id db stats idle_polls [poll]
    Going checks worker_id out ∧
    ∃ before : Db, before.Owned checks worker_id ∧ db.Wanes before ∧
      (serve checks before (.claim settings.lease_seconds poll.clock poll.tie worker_id
        claim_batch_size)).Wanes out.db := by
  obtain ⟨howned, hwaited⟩ := (carries_onward checks settings worker_id).meanwhile
    h.settled.sound hpoll.before h.owned
  have hready : Ready checks worker_id (poll.before.foldl (elsewhere checks worker_id) db, stats) :=
    ⟨h.settled.meanwhile settings poll.before, howned⟩
  obtain ⟨⟨n, hreturned⟩, hready', hwanes⟩ :=
    run_once_ready hpoll hname hready settings claim_batch_size
  cases n with
  | zero =>
      simp only [run_forever, hreturned]
      exact ⟨⟨rfl, hready'⟩, _, howned, hwaited, hwanes⟩
  | succ n =>
      simp only [run_forever, hreturned]
      exact ⟨⟨rfl, hready'⟩, _, howned, hwaited, hwanes⟩

theorem afterPolls_succ {n : ℕ}
    (hgoing : (afterPolls checks settings claim_batch_size worker_id db polls n).escaped = none) :
    let out := afterPolls checks settings claim_batch_size worker_id db polls n
    afterPolls checks settings claim_batch_size worker_id db polls (n + 1)
      = run_forever checks settings claim_batch_size worker_id out.db out.stats out.idle_polls
        [polls n] := by
  unfold afterPolls at hgoing ⊢
  rw [List.range_succ, List.map_append]
  exact run_forever_append [polls n] hgoing

/-! ## The queue drains -/

/-- Within the budget only a drained queue has no potential left. -/
theorem Db.Owned.drained_iff (h : db.Owned checks worker_id) :
    db.Drained ↔ db.potential = 0 := by
  have hsum : db.potential = 0 ↔ ∀ r ∈ db.task_runs.rows, r.potential = 0 := by
    unfold Db.potential
    rw [List.sum_eq_zero_iff]
    simp only [List.mem_map, forall_exists_index, and_imp, forall_apply_eq_imp_iff₂]
  rw [hsum]
  refine forall₂_congr (fun r hr => ⟨potential_of_terminal, fun hzero => ?_⟩)
  by_contra hactive
  rcases (h.inv.good.lawful r hr).active_cases (by simpa using hactive) with hs | hs | hs
  · rw [potential_of_pending hs] at hzero
    have := h.inv.pending_lt hr hs
    omega
  · rw [potential_of_ready hs] at hzero
    have := h.budgeted r hr hs
    omega
  · rw [potential_of_running hs] at hzero
    omega

section Drains

variable (hsound : db.Sound checks) (hb : db.Budgeted)
  (hidle : ∀ r ∈ db.task_runs.rows, r.state ≠ .RUNNING) (hname : nulText worker_id = false)
  (hpolls : ∀ n, (polls n).Undisturbed)

include hsound hb hidle hname hpolls

theorem afterPolls_going (settings : Settings) (claim_batch_size n : ℕ) :
    Going checks worker_id
      (afterPolls checks settings claim_batch_size worker_id db polls n) := by
  induction n with
  | zero =>
      have hnone : db.HoldsAtMost worker_id [] := by
        rintro task_run_id ⟨r, hr, hheld⟩
        exact absurd (heldBy_iff.mp hheld).2.2 (hidle r hr)
      exact ⟨rfl, ⟨hsound, hnone, rfl⟩, hsound.inv, hb,
        fun r hr hrunning => absurd hrunning (hidle r hr)⟩
  | succ n ih =>
      rw [afterPolls_succ ih.going]
      exact (run_forever_one (hpolls n) hname ih.ready settings claim_batch_size _).1

theorem afterPolls_step (settings : Settings) (claim_batch_size n : ℕ) :
    ∃ before : Db, before.Owned checks worker_id ∧
      (afterPolls checks settings claim_batch_size worker_id db polls n).db.Wanes before ∧
      (serve checks before (.claim settings.lease_seconds (polls n).clock (polls n).tie worker_id
        claim_batch_size)).Wanes
          (afterPolls checks settings claim_batch_size worker_id db polls (n + 1)).db := by
  have hgoing := afterPolls_going hsound hb hidle hname hpolls settings claim_batch_size n
  rw [afterPolls_succ hgoing.going]
  exact (run_forever_one (hpolls n) hname hgoing.ready settings claim_batch_size _).2

theorem afterPolls_wanes (settings : Settings) (claim_batch_size : ℕ) {n m : ℕ} (hnm : n ≤ m) :
    (afterPolls checks settings claim_batch_size worker_id db polls n).db.Wanes
      (afterPolls checks settings claim_batch_size worker_id db polls m).db := by
  refine related_of_steps (x := fun n =>
      (afterPolls checks settings claim_batch_size worker_id db polls n).db)
    Db.Wanes.refl (fun _ _ _ => Db.Wanes.trans) (fun n => ?_) hnm
  obtain ⟨before, howned, hwaited, hclaimed⟩ :=
    afterPolls_step hsound hb hidle hname hpolls settings claim_batch_size n
  exact (hwaited.trans (onward_claim _ _ _ _ howned).2).trans hclaimed

/-- Between two polls nothing is running. -/
theorem afterPolls_idle (settings : Settings) (claim_batch_size n : ℕ) :
    ∀ r ∈ (afterPolls checks settings claim_batch_size worker_id db polls n).db.task_runs.rows,
      r.state ≠ .RUNNING := by
  intro r hr hrunning
  have hready :=
    (afterPolls_going hsound hb hidle hname hpolls settings claim_batch_size n).ready
  have hheld : (afterPolls checks settings claim_batch_size worker_id db polls n).db.HeldBy
      worker_id r.id :=
    ⟨r, hr, heldBy_iff.mpr ⟨rfl, hready.owned.running r hr hrunning, hrunning⟩⟩
  cases hready.settled.holds r.id hheld

/-- A `READY` task lowers the potential in the end. -/
theorem afterPolls_progress (settings : Settings) (hsize : 0 < claim_batch_size)
    (htime : ∀ n (t : Time), ∃ m, n ≤ m ∧ t ≤ (polls m).clock.utcnow) {n : ℕ} {r : TaskRun}
    (hr : r ∈ (afterPolls checks settings claim_batch_size worker_id db polls n).db.task_runs.rows)
    (hready : r.state = .READY) :
    ∃ m, n ≤ m ∧
      (afterPolls checks settings claim_batch_size worker_id db polls m).db.potential
        < (afterPolls checks settings claim_batch_size worker_id db polls n).db.potential := by
  obtain ⟨m, hnm, hdue⟩ := htime n r.scheduled_at
  obtain ⟨before, howned, hwaited, hclaimed⟩ :=
    afterPolls_step hsound hb hidle hname hpolls settings claim_batch_size m
  have hwanes :=
    (afterPolls_wanes hsound hb hidle hname hpolls settings claim_batch_size hnm).trans hwaited
  obtain ⟨r', hr', hid⟩ := hwanes.exists_row hr
  have hrow := hwanes.row hr hr' hid
  refine ⟨m + 1, hnm.trans (Nat.le_succ m), hclaimed.le.trans_lt ?_⟩
  rcases hrow.le.lt_or_eq with hlt | heq
  · exact (onward_claim _ _ _ _ howned).2.le.trans_lt (hwanes.lt hr hr' hid hlt)
  -- The row has been left alone, and it is due.
  · obtain ⟨hready', hscheduled⟩ := hrow.ready heq hready
    rw [← hscheduled] at hdue
    exact (potential_claim howned.inv howned.budgeted hr' hready' hdue hsize).trans_le hwanes.le

/-- From any moment the worker comes to one where every task has ended. -/
theorem afterPolls_leadsTo (settings : Settings) (hsize : 0 < claim_batch_size)
    (htime : ∀ n (t : Time), ∃ m, n ≤ m ∧ t ≤ (polls m).clock.utcnow) :
    LeadsTo (fun n => (afterPolls checks settings claim_batch_size worker_id db polls n).db)
      (fun _ => True) Db.Drained := by
  refine LeadsTo.of_measure Db.potential (fun b n hn => ?_)
  obtain ⟨-, rfl⟩ := hn
  dsimp only
  by_cases hdrained : (afterPolls checks settings claim_batch_size worker_id db polls n).db.Drained
  · exact ⟨n, le_refl n, Or.inl hdrained⟩
  · have hinv :=
      (afterPolls_going hsound hb hidle hname hpolls settings claim_batch_size n).ready.owned.inv
    have hnone := afterPolls_idle hsound hb hidle hname hpolls settings claim_batch_size n
    unfold Db.Drained at hdrained
    push Not at hdrained
    obtain ⟨r, hr, hactive⟩ := hdrained
    -- What is left is `READY`, or waits for a task that is.
    have hready : ∃ s ∈ (afterPolls checks settings claim_batch_size worker_id db polls
        n).db.task_runs.rows, s.state = .READY := by
      rcases (hinv.good.lawful r hr).active_cases (by simpa using hactive) with hs | hs | hs
      · obtain ⟨s, hmem, -, -, hstate⟩ := hinv.active_above hr hs
        exact ⟨s, hmem, hstate.resolve_right (hnone s hmem)⟩
      · exact ⟨r, hr, hs⟩
      · exact absurd hs (hnone r hr)
    obtain ⟨s, hs, hstate⟩ := hready
    obtain ⟨m, hnm, hlt⟩ :=
      afterPolls_progress hsound hb hidle hname hpolls settings hsize htime hs hstate
    exact ⟨m, hnm, Or.inr ⟨trivial, hlt⟩⟩

end Drains

/-- **A worker drains the queue it is left alone with.** From a reachable database within
its budget, in which nothing is running, the loop goes on without an exception, and from
some poll on every task is terminal, and with them every run. -/
theorem worker_drains_queue (h : PgReachable checks db) (hb : db.Budgeted)
    (hidle : ∀ r ∈ db.task_runs.rows, r.state ≠ .RUNNING) (settings : Settings)
    (hsize : 0 < claim_batch_size) (hname : nulText worker_id = false)
    (hpolls : ∀ n, (polls n).Undisturbed)
    (htime : ∀ n (t : Time), ∃ m, n ≤ m ∧ t ≤ (polls m).clock.utcnow) :
    ∃ n, ∀ m, n ≤ m →
      let out := afterPolls checks settings claim_batch_size worker_id db polls m
      out.escaped = none ∧ (∀ r ∈ out.db.task_runs.rows, r.state.is_terminal = true) ∧
        ∀ run ∈ out.db.workflow_runs.rows,
          (derive_run_state (out.db.taskStates run.id)).is_terminal = true := by
  have hgoing := afterPolls_going h.sound hb hidle hname hpolls settings claim_batch_size
  have hstable : Stable
      (fun n => (afterPolls checks settings claim_batch_size worker_id db polls n).db)
      Db.Drained := by
    intro n hdrained
    have hle := (afterPolls_wanes h.sound hb hidle hname hpolls settings claim_batch_size
      (Nat.le_succ n)).le
    have hzero := (hgoing n).ready.owned.drained_iff.mp hdrained
    exact (hgoing (n + 1)).ready.owned.drained_iff.mpr (Nat.le_zero.mp (hle.trans_eq hzero))
  obtain ⟨n, hlater⟩ := (afterPolls_leadsTo h.sound hb hidle hname hpolls settings hsize
    htime).finally hstable trivial
  refine ⟨n, fun m hnm => ⟨(hgoing m).going, hlater m hnm, fun run hrun => ?_⟩⟩
  have hinv := (hgoing m).ready.owned.inv
  refine derive_is_terminal.mpr ⟨hinv.taskStates_ne_nil hrun, fun s hs => ?_⟩
  obtain ⟨r, hr, rfl⟩ := List.mem_map.mp hs
  exact hlater m hnm r (Db.mem_runTasks.mp hr).1

/-! ## A chain whose tasks fail once -/

/-- A poll every second. The first attempt at each task crashes its executor, and a
heartbeat wakes up during the second one. -/
def stubbornPoll (n : ℕ) : Poll :=
  ⟨[], clockAt n, id, fun task =>
    if task.attempt = 1 then ⟨[], .crashed "ValueError" "boom", [], clockAt n, id⟩
    else ⟨[.beat (clockAt n)], .returned Dict.empty, [], clockAt n, id⟩⟩

theorem stubbornPoll_undisturbed (n : ℕ) : (stubbornPoll n).Undisturbed where
  before _ hop := by cases hop
  turns task := by
    unfold stubbornPoll
    dsimp only
    split
    · exact ⟨fun op hop => absurd hop List.not_mem_nil, fun op hop => absurd hop List.not_mem_nil⟩
    · refine ⟨fun op hop => ?_, fun op hop => absurd hop List.not_mem_nil⟩
      cases List.mem_singleton.mp hop
  harmless task := by
    unfold stubbornPoll
    dsimp only
    split
    · rename_i hfirst
      show ((Result.failure "ValueError: boom").hasNul || task.overflows) = false
      rw [task.overflows_first hfirst, Bool.or_false]
      decide +kernel
    · show (Result.success (some Dict.empty)).hasNul = false
      decide +kernel

/-- Both tasks of the chain come to their end, the second after the first. -/
theorem worker_drains_queue_stubborn : ∃ n, ∀ m, n ≤ m →
    (afterPolls true Settings.default 10 "w1" (pgServed true (chainStart retryOnce)) stubbornPoll
      m).escaped = none ∧
    ∀ r ∈ (afterPolls true Settings.default 10 "w1" (pgServed true (chainStart retryOnce))
      stubbornPoll m).db.task_runs.rows, r.state.is_terminal = true := by
  obtain ⟨n, hlater⟩ := worker_drains_queue (pgReachable_served true (chainStart retryOnce))
    (by decide +kernel) (by decide +kernel) Settings.default (Nat.succ_pos 9)
    (by decide : nulText "w1" = false) stubbornPoll_undisturbed (fun n t => by
      obtain ⟨k, hk⟩ := exists_nat_ge t
      exact ⟨n + k, Nat.le_add_right n k, hk.trans (Nat.cast_le.mpr (Nat.le_add_left k n))⟩)
  exact ⟨n, fun m hnm => ⟨(hlater m hnm).1, (hlater m hnm).2.1⟩⟩

end Conductor
