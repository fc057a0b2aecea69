/-
No attempt is handed out twice, and no success is counted twice.

`FOR UPDATE SKIP LOCKED` is the reason the service gives for both, and the guard on
`worker_id` and `state` in every completion. Here the statements of any number of
workers, reapers and API processes are interleaved under READ COMMITTED, and the log
says what each process was told when its transaction committed.

A contract says what each call does to a row (`Call.Rewrites`): a claim takes a row
from `READY` and counts one attempt more, nobody else starts an attempt, and only a
report of the worker that has the row makes it `SUCCEEDED`. Because the rows of a
session are locked, this stays true of the committed row until the session commits,
and `Ledger` is what follows for the log.
-/
import Conductor.Lib.Contracts
import Conductor.Interleaving

set_option autoImplicit false

open Relational Txn

namespace Conductor

open RunRepository TaskQueueRepository

variable {checks : Bool}

/-! ## What the processes are receipt -/

/-- What a process gets back: whether its report or its renewal was accepted, and the
tasks it has claimed. -/
structure Answer where
  accepted : Bool
  claimed : List ClaimedTask

/-- A call with its whole answer. -/
def Call.reply : Call → Tx Answer
  | .claim lease_seconds clock tie worker_id limit => do
      let batch ← claim_batch lease_seconds clock tie worker_id limit
      return ⟨true, batch⟩
  | call => do
      let accepted ← call.body
      return ⟨accepted, []⟩

/-- The end of a transaction, with what its process was told. -/
abbrev Receipt := Record Db Exn Answer Call

/-- Interleavings of the queue's transactions, with the log of their ends. -/
def Witnessed (checks : Bool) : Logged Db Exn Answer Call → Prop :=
  Recorded (store checks) Call.reply
    (fun s => Requested checks (fun _ _ => True) s.committed ∧ s.sessions = [])
    (StepMeets (store checks) (fun db call => call.Sound db) anyWrite anyCommit)

/-- The tasks a committed claim hands out, each with the worker it goes to. -/
def handedOut (receipt : Receipt) : List (ClaimedTask × String) :=
  match receipt.call, receipt.ending with
  | .claim _ _ _ worker_id _, .committed answer _ =>
      answer.claimed.map (fun task => (task, worker_id))
  | _, _ => []

/-- The success report that a committed transaction accepts. -/
def acceptedSuccess (receipt : Receipt) : Option (Report × Option Dict) :=
  match receipt.call, receipt.ending with
  | .complete _ report, .committed answer _ =>
      match report.result with
      | .success output => if answer.accepted then some (report, output) else none
      | .failure _ => none
  | _, _ => none

/-! ## What a call does to a row -/

/-- The worker a call claims for. -/
def Call.claimsFor : Call → Option String
  | .claim _ _ _ worker_id _ => some worker_id
  | _ => none

/-- One write of a call to one row. Only claims start an attempt, and only the worker
that has the row completes it with success. -/
structure Call.Rewrites (call : Call) (r r' : TaskRun) : Prop where
  step : RowStep r r'
  claims : ∀ worker_id, call.claimsFor = some worker_id →
    r.state = .READY ∧ r'.state = .RUNNING ∧ r'.worker_id = some worker_id ∧
      r'.attempt = r.attempt + 1
  keeps : call.claimsFor = none → r'.state = .RUNNING →
    r.state = .RUNNING ∧ r'.worker_id = r.worker_id ∧ r'.attempt = r.attempt
  succeeds : r'.state = .SUCCEEDED → ∃ rounds report, call = .complete rounds report ∧
    r.state = .RUNNING ∧ r.id = report.task_run_id ∧ r.worker_id = some report.worker_id ∧
      r'.attempt = r.attempt ∧
      ∀ output, report.result = .success output → r'.output = some (output.getD Dict.empty)

/-- The rows `d` are rewritten rows of `v`, each by one step of the relation. -/
def RowsFrom (R : TaskRun → TaskRun → Prop) (v d : Db) : Prop :=
  ∀ r' ∈ d.task_runs.rows, ∃ r ∈ v.task_runs.rows, R r r'

/-- A statement that writes such rows does so whatever it waits for or steps over. -/
theorem RowsFrom.written {R : TaskRun → TaskRun → Prop} {kind : Kind} {stmt : Db → Db}
    (h : ∀ v, RowsFrom R v (stmt v)) (v₀ v : Db) (free : Lock → Bool) :
    RowsFrom R v (written (store checks) kind stmt v₀ v free) := by
  cases kind with
  | update => exact fun r' hr' => h v r' (List.mem_filter.mp hr').1
  | skipLocked =>
      intro r' hr'
      obtain ⟨r, hr, hR⟩ := h _ r' hr'
      exact ⟨r, (List.mem_filter.mp hr).1, hR⟩
  | insert => exact h v

theorem RowsFrom.of_empty {R : TaskRun → TaskRun → Prop} {v d : Db}
    (h : d.task_runs = Table.empty) : RowsFrom R v d := by
  intro r' hr'
  rw [h] at hr'
  cases hr'

theorem writes_rewrites {R : TaskRun → TaskRun → Prop} {p : Db → TaskRun → Bool}
    {f : TaskRun → TaskRun} {hf : ∀ r, (f r).id = r.id}
    (h : ∀ v, ∀ r ∈ v.task_runs.rows, p v r = true → R r (f r)) :
    (updateTaskRuns p f hf).Writes (RowsFrom R) := by
  refine .write (fun v r' hr' => ?_) (fun _ => .ret _)
  obtain ⟨r, hmem, rfl⟩ := List.mem_map.mp hr'
  obtain ⟨hr, hp⟩ := List.mem_filter.mp hmem
  exact ⟨r, hr, h v r hr hp⟩

/-- A rewrite into a state that is neither `RUNNING` nor `SUCCEEDED` is open to every call
but a claim. -/
theorem RowStep.rewrites {r r' : TaskRun} (h : RowStep r r') {call : Call}
    (hcall : call.claimsFor = none) (hrunning : r'.state ≠ .RUNNING)
    (hsucceeded : r'.state ≠ .SUCCEEDED) : call.Rewrites r r' :=
  ⟨h, fun w hw => (by rw [hcall] at hw; cases hw), fun _ he => absurd he hrunning,
    fun he => absurd he hsucceeded⟩

theorem writes_of_queue {P : TaskRun → Prop} {α : Type} {tx : Tx α} (h : tx.Writes (QueueWrite P))
    {call : Call} (hcall : call.claimsFor = none)
    (hP : ∀ r, P r → r.state ≠ .RUNNING ∧ r.state ≠ .SUCCEEDED) :
    tx.Writes (RowsFrom call.Rewrites) := by
  refine h.mono (fun v d hd r' hr' => ?_)
  obtain ⟨hr, r, hmem, hstep⟩ := hd.rows r' hr'
  exact ⟨r, hmem, hstep.rewrites hcall (hP r' hr).1 (hP r' hr).2⟩

theorem writes_refresh (clock : Clock) (run_id : UUID) (R : TaskRun → TaskRun → Prop) :
    (refresh_run_state clock run_id).Writes (RowsFrom R) :=
  .read (fun _ => .write (fun _ => .of_empty rfl) (fun _ => .ret _))

theorem claim_rewrites (lease_seconds : ℚ) (clock : Clock) (tie : UUID → ℕ) (worker_id : String)
    (limit : ℕ) : (claim_batch lease_seconds clock tie worker_id limit).Writes
      (RowsFrom (Call.claim lease_seconds clock tie worker_id limit).Rewrites) := by
  refine .write (fun v r' hr' => ?_) (fun d => ?_)
  · obtain ⟨r, hmem, rfl⟩ := List.mem_map.mp hr'
    obtain ⟨hr, hp⟩ := List.mem_filter.mp hmem
    have hready := picked_state hr hp
    refine ⟨r, hr, .claim _ _ _ hready, fun w hw => ?_, (fun h => by cases h), fun h => by cases h⟩
    exact ⟨hready, rfl, hw, rfl⟩
  · split
    · exact .ret _
    · refine .read (fun v => (Prog.Writes.lift _).bind (fun results => ?_))
      unfold newTable
      split
      · exact .write (fun _ => .of_empty rfl) (fun _ => .ret _)
      · exact .raise _

theorem success_rewrites (rounds : ℕ) (report : Report) (output : Option Dict)
    (hresult : report.result = .success output) :
    (record_success report.clock report.task_run_id report.worker_id output).Writes
      (RowsFrom (Call.complete rounds report).Rewrites) := by
  refine (writes_rewrites (fun v r _ hp => ?_)).bind (fun closed => ?_)
  · obtain ⟨hid, hworker, hrunning⟩ := heldBy_iff.mp hp
    refine ⟨.succeed _ _ hrunning, (fun _ h => by cases h), (fun _ h => by cases h), fun _ =>
      ⟨rounds, report, rfl, hrunning, hid, hworker, rfl, ?_⟩⟩
    intro output' he
    rw [hresult] at he
    cases he
    rfl
  · -- The attempt is closed and the children are counted down or released.
    have hchildren : (unblock_children report.task_run_id).Writes
        (RowsFrom (Call.complete rounds report).Rewrites) :=
      writes_of_queue (P := fun r => r.state = .PENDING ∨ r.state = .READY)
        (writes_unblock_children _ (fun _ h => h)) rfl
        (fun r hr => by rcases hr with hr | hr <;> rw [hr] <;> exact ⟨by decide, by decide⟩)
    have hclose : ∀ row : TaskRun, (close_attempt report.clock report.task_run_id row.attempt
        .SUCCEEDED none).Writes (RowsFrom (Call.complete rounds report).Rewrites) :=
      fun row => .write (fun _ => .of_empty rfl) (fun _ => .ret _)
    match closed with
    | [row] => exact (hclose row).bind (fun _ => hchildren.bind (fun _ => .ret _))
    | [] => exact .ret _
    | _ :: _ :: _ => exact .ret _

theorem failure_rewrites {call : Call} (hcall : call.claimsFor = none) (clock : Clock)
    (uniform : ℚ → ℚ) (rounds : ℕ) (task_run_id : UUID) (worker_id error : String) :
    (record_failure clock uniform rounds task_run_id worker_id error).Writes
      (RowsFrom call.Rewrites) := by
  have hclose : ∀ (row : TaskRun) (state : TaskState),
      (close_attempt clock row.id row.attempt state (some error)).Writes (RowsFrom call.Rewrites) :=
    fun row state => .write (fun _ => .of_empty rfl) (fun _ => .ret _)
  refine .read (fun v => ?_)
  cases v.task_runs.get task_run_id with
  | none => exact .ret _
  | some row =>
      dsimp only
      split
      · exact .ret _
      · split
        · exact .raise _
        · refine (Prog.Writes.lift _).bind (fun policy =>
            (Prog.Writes.lift _).bind (fun delay => ?_))
          cases delay with
          | none =>
              refine (writes_of_queue (writes_fail _ row _ _) hcall (fun r hr => ?_)).bind (fun _ =>
                (hclose row _).bind (fun _ => (writes_of_queue
                  (writes_block_descendants (P := fun r => r.state = .BLOCKED) _ _ _ (fun _ h => h))
                  hcall (fun r hr => ?_)).bind (fun _ => .ret _)))
              · rcases hr.1 with h | h <;> rw [h] <;> exact ⟨by decide, by decide⟩
              · rw [hr]
                exact ⟨by decide, by decide⟩
          | some delay =>
              refine (writes_of_queue (writes_retry _ row _ _) hcall (fun r hr => ?_)).bind
                (fun _ => (hclose row _).bind (fun _ => .ret _))
              rw [hr]
              exact ⟨by decide, by decide⟩

/-- **Every write of every call is one of its rewrites.** -/
theorem Call.writes (call : Call) : call.reply.Writes (RowsFrom call.Rewrites) := by
  cases call with
  | claim lease_seconds clock tie worker_id limit =>
      exact (claim_rewrites lease_seconds clock tie worker_id limit).bind (fun _ => .ret _)
  | renew lease_seconds clock task_run_id worker_id =>
      refine Prog.Writes.bind ((writes_rewrites (fun v r _ hp => ?_)).bind (fun _ => .ret _))
        (fun _ => .ret _)
      obtain ⟨-, -, hrunning⟩ := heldBy_iff.mp hp
      refine ⟨.renew _ hrunning, (fun _ h => by cases h), fun _ _ => ⟨hrunning, rfl, rfl⟩,
        fun h => ?_⟩
      rw [show (renewed (clock.utcnow + lease_seconds) r).state = r.state from rfl, hrunning] at h
      cases h
  | reap clock =>
      refine Prog.Writes.bind (Prog.Writes.bind ?_ (fun _ => .ret _)) (fun _ => .ret _)
      exact writes_of_queue (writes_reap_expired_leases clock) rfl
        (fun r hr => by rw [hr]; exact ⟨by decide, by decide⟩)
  | cancel clock run_id =>
      refine Prog.Writes.bind (Prog.Writes.bind (Prog.Writes.bind ?_ (fun _ =>
        (writes_refresh clock run_id _).bind (fun _ => .ret _))) (fun _ => .ret _))
        (fun _ => .ret _)
      exact writes_of_queue (writes_cancel clock.now run_id) rfl
        (fun r hr => by rw [hr.1]; exact ⟨by decide, by decide⟩)
  | complete rounds report =>
      refine Prog.Writes.bind (Prog.Writes.bind ?_ (fun _ =>
        (writes_refresh report.clock report.run_id _).bind (fun _ => .ret _))) (fun _ => .ret _)
      unfold recordResult_with
      cases hresult : report.result with
      | success output => exact success_rewrites rounds report output hresult
      | failure error => exact (failure_rewrites rfl _ _ _ _ _ _).bind (fun _ => .ret _)

/-! ## Rows of a session and rows of the database -/

/-- Rewrites of a call, one after the other. -/
abbrev Call.Rewritten (call : Call) := Relation.TransGen call.Rewrites

section Rewritten

variable {call : Call} {r r' : TaskRun}

theorem Call.Rewritten.steps (h : call.Rewritten r r') : RowSteps r r' := by
  induction h with
  | single h => exact .single h.step
  | tail _ h ih => exact ih.tail h.step

theorem Call.Rewritten.id_eq (h : call.Rewritten r r') : r'.id = r.id :=
  (RowStep.keeps_of_steps h.steps).1

theorem attempt_le_of_steps (h : RowSteps r r') : r.attempt ≤ r'.attempt := by
  induction h with
  | refl => exact le_refl _
  | tail _ hstep ih => exact ih.trans hstep.attempt_le

/-- A claim writes a row once. -/
theorem Call.Rewritten.claim (h : call.Rewritten r r') {worker_id : String}
    (hcall : call.claimsFor = some worker_id) :
    r.state = .READY ∧ r'.state = .RUNNING ∧ r'.worker_id = some worker_id ∧
      r'.attempt = r.attempt + 1 := by
  cases h with
  | single h => exact h.claims worker_id hcall
  | tail hbefore h =>
      -- The row before would have been written by the same claim, and be READY.
      exfalso
      have hready := (h.claims worker_id hcall).1
      cases hbefore with
      | single h' => rw [(h'.claims worker_id hcall).2.1] at hready; cases hready
      | tail _ h' => rw [(h'.claims worker_id hcall).2.1] at hready; cases hready

/-- Nobody but a claim brings a row to `RUNNING`, and a row that stays there keeps its worker
and its attempt. -/
theorem Call.Rewritten.keeps (h : call.Rewritten r r') (hcall : call.claimsFor = none)
    (hrunning : r'.state = .RUNNING) :
    r.state = .RUNNING ∧ r'.worker_id = r.worker_id ∧ r'.attempt = r.attempt := by
  induction h with
  | single h => exact h.keeps hcall hrunning
  | tail _ h ih =>
      obtain ⟨hm, hworker, hattempt⟩ := h.keeps hcall hrunning
      obtain ⟨hr, hworker', hattempt'⟩ := ih hm
      exact ⟨hr, hworker.trans hworker', hattempt.trans hattempt'⟩

/-- A row succeeds by a report of the worker that has it. -/
theorem Call.Rewritten.succeeds (h : call.Rewritten r r') (hsucceeded : r'.state = .SUCCEEDED) :
    ∃ rounds report, call = .complete rounds report ∧ r.state = .RUNNING ∧
      r.id = report.task_run_id ∧ r.worker_id = some report.worker_id ∧ r'.attempt = r.attempt ∧
      ∀ output, report.result = .success output → r'.output = some (output.getD Dict.empty) := by
  cases h with
  | single h => exact h.succeeds hsucceeded
  | tail hbefore h =>
      obtain ⟨rounds, report, rfl, hm, hid, hworker, hattempt, houtput⟩ := h.succeeds hsucceeded
      have hbefore : (Call.complete rounds report).Rewritten r _ := hbefore
      obtain ⟨hr, hworker', hattempt'⟩ := hbefore.keeps rfl hm
      exact ⟨rounds, report, rfl, hr, hbefore.id_eq.symm.trans hid, hworker'.symm.trans hworker,
        hattempt.trans hattempt', houtput⟩

end Rewritten

/-- What a session has written are rewrites of rows of the committed database. -/
def Tied (call : Call) (db own : Db) : Prop := RowsFrom call.Rewritten db own

theorem Tied.write {call : Call} {db own rows : Db} (h : Tied call db own)
    (hrows : RowsFrom call.Rewrites (own.overlay db) rows) : Tied call db (rows.overlay own) := by
  intro r' hr'
  rcases Table.mem_overlay.mp hr' with hr' | ⟨hr', -⟩
  · obtain ⟨r, hr, hR⟩ := hrows r' hr'
    rcases Table.mem_overlay.mp hr with hr | ⟨hr, -⟩
    · obtain ⟨r₀, hr₀, hR₀⟩ := h r hr
      exact ⟨r₀, hr₀, hR₀.tail hR⟩
    · exact ⟨r, hr, .single hR⟩
  · exact h r' hr'

/-- They are still that when another session commits: it has none of the rows. -/
theorem Tied.stable {call : Call} {db own own' : Db} (h : Tied call db own)
    (hdisjoint : ∀ l ∈ own.locks, l ∉ own'.locks) : Tied call (own'.overlay db) own := by
  intro r' hr'
  obtain ⟨r, hr, hR⟩ := h r' hr'
  refine ⟨r, Table.mem_overlay.mpr (Or.inr ⟨hr, Table.get_eq_none.mpr (fun x hx hk => ?_)⟩), hR⟩
  refine hdisjoint (.taskRun r'.id) (Db.mem_locks_taskRun hr') ?_
  rw [hR.id_eq, ← hk]
  exact Db.mem_locks_taskRun hx

/-! ## Answers -/

/-- What an answer says about the rows that were written. -/
structure Answers (call : Call) (answer : Answer) (own : Db) : Prop where
  claimed : ∀ worker_id, call.claimsFor = some worker_id →
    answer.claimed.map (fun task => (task.task_run_id, task.attempt)) =
      own.task_runs.rows.map (fun r => (r.id, r.attempt))
  accepted : ∀ rounds report output, call = .complete rounds report →
    report.result = .success output → answer.accepted = true →
    ∃ r ∈ own.task_runs.rows, r.id = report.task_run_id ∧ r.state = .SUCCEEDED

section Outlines

variable {db₀ : Db} {I : Db → Prop} {M : List (Event Db) → Db → Db → Prop}

/-- The batch is computed from the rows that were written. -/
theorem claimed_of_mapM {db : Db} {rows : List TaskRun} {batch : List ClaimedTask}
    (h : rows.mapM (toClaimedTask db) = .ok batch) :
    batch.map (fun task => (task.task_run_id, task.attempt)) =
      rows.map (fun r => (r.id, r.attempt)) := by
  have hpairs := mapM_ok_iff.mp h
  clear h
  induction hpairs with
  | nil => rfl
  | cons hok _ ih =>
      rw [List.map_cons, List.map_cons, ih]
      congr 1
      unfold toClaimedTask at hok
      split at hok
      · cases hok
      · cases hok
        rfl

theorem outline_claim (hI : ∀ db, I db → Evolves db₀ db) (lease_seconds : ℚ) (clock : Clock)
    (tie : UUID → ℕ) (worker_id : String) (limit : ℕ) :
    Outline (store checks) I (Anchored db₀) M (fun batch own _ =>
      batch.map (fun task => (task.task_run_id, task.attempt)) =
        own.task_runs.rows.map (fun r => (r.id, r.attempt)))
      (claim_batch lease_seconds clock tie worker_id limit) Db.empty [] := by
  intro db₁ db free rows _ _ hdb hJ _ hrows _
  have hqueue : QueueWrite (fun r => r.state = .RUNNING) (Db.empty.overlay db) rows := by
    rw [hrows]
    refine written_queueWrite (fun v => ?_) _ _ free
    cases writes_claim_batch lease_seconds clock tie worker_id limit with
    | write hstmt => exact hstmt v
  have hown : (rows.overlay Db.empty).task_runs.rows = rows.task_runs.rows :=
    Table.rows_overlay_of_new (fun _ _ => rfl)
  refine ⟨hJ.write (.of_queueWrite hqueue), ?_⟩
  dsimp only
  split
  · rename_i hempty
    show _ = (rows.overlay Db.empty).task_runs.rows.map _
    rw [hown, List.isEmpty_iff.mp hempty]
    rfl
  · intro db₂ hdb₂ hJ₂
    refine ⟨hJ₂.read (hI db₂ hdb₂), Outline.bind _ (Q := fun batch own _ =>
      own = rows.overlay Db.empty ∧ batch.map (fun task => (task.task_run_id, task.attempt)) =
        rows.task_runs.rows.map (fun r => (r.id, r.attempt)))
      (Outline.lift _ (fun batch hbatch => ⟨rfl, claimed_of_mapM hbatch⟩)) ?_⟩
    rintro batch own trace ⟨rfl, hbatch⟩
    -- The attempt rows go to another table.
    refine Outline.bind _ (outline_newTable (Q := fun _ own _ => own = rows.overlay Db.empty)
      (fun t _ => rfl)) ?_
    rintro attempts own trace rfl
    have hattempts : Based ((rows.overlay Db.empty).overlay db)
        { Db.empty with task_attempts := attempts } :=
      ⟨rfl, fun _ h => absurd h List.not_mem_nil, fun _ h => absurd h List.not_mem_nil⟩
    refine Outline.bind _ (outline_flush (Q := fun _ own _ =>
      own.task_runs = (rows.overlay Db.empty).task_runs) (fun db₃ hdb₃ hJ₃ _ => ?_) ?_) ?_
    · exact hJ₃.write
        ⟨rfl, fun _ h => absurd h List.not_mem_nil, fun _ h => absurd h List.not_mem_nil⟩
    · exact Table.empty_overlay _
    · rintro _ own trace htask_runs
      show _ = own.task_runs.rows.map _
      rw [htask_runs, hown]
      exact hbatch

/-- An accepted success has written the row, and nothing after it takes that back. -/
theorem outline_success (hlawful : ∀ r ∈ db₀.task_runs.rows, r.Lawful)
    (hI : ∀ db, I db → Evolves db₀ db) (clock : Clock) (task_run_id : UUID) (worker_id : String)
    (output : Option Dict) :
    Outline (store checks) I (Anchored db₀) M (fun accepted own _ =>
      own.workflow_runs = Table.empty ∧ (accepted = true →
        ∃ r ∈ own.task_runs.rows, r.id = task_run_id ∧ r.state = .SUCCEEDED))
      (record_success clock task_run_id worker_id output) Db.empty [] := by
  refine outline_update hlawful hI (P := fun r => r.state = .SUCCEEDED ∧ r.id = task_run_id)
    (writes_updateTaskRuns (fun _ r _ hp => ?_)) ?_
  · obtain ⟨hid, -, hrunning⟩ := heldBy_iff.mp hp
    exact ⟨⟨rfl, hid⟩, .succeed _ _ hrunning⟩
  · intro v₀ v free rows _ hrows hgrows
    match hclosed : rows.task_runs.rows with
    | [] => exact ⟨hgrows.runs, fun h => by cases h⟩
    | _ :: _ :: _ => exact ⟨hgrows.runs, fun h => by cases h⟩
    | [row] =>
        have hmem : row ∈ (rows.overlay Db.empty).task_runs.rows :=
          Table.mem_overlay.mpr (Or.inl (by rw [hclosed]; exact List.mem_singleton.mpr rfl))
        have hrow : row.state = .SUCCEEDED ∧ row.id = task_run_id := by
          rcases hgrows.rows row hmem with h | ⟨h, -⟩
          · cases h
          · exact h
        have hterminal : row.state.is_terminal = true := by rw [hrow.1]; rfl
        refine Outline.bind _ (outline_of_writes hlawful hI
          (writes_close_attempt (P := fun _ => True) _ _ _ _ _) _ _) ?_
        rintro _ own₁ trace₁ ⟨hgrows₁, -⟩
        refine Outline.bind _ (outline_of_writes hlawful hI
          (writes_unblock_children (P := fun _ => True) task_run_id (fun _ _ => trivial)) _ _) ?_
        rintro _ own₂ trace₂ ⟨hgrows₂, -⟩
        refine ⟨(hgrows₂.runs.trans hgrows₁.runs).trans hgrows.runs,
          fun _ => ⟨row, ?_, hrow.2, hrow.1⟩⟩
        exact hgrows₂.final row (hgrows₁.final row hmem hterminal) hterminal

/-- **The statements of every call, with its answer.** -/
theorem outline_reply (hlawful : ∀ r ∈ db₀.task_runs.rows, r.Lawful)
    (hI : ∀ db, I db → Evolves db₀ db) {call : Call} (hsound : call.Sound db₀) :
    Outline (store checks) I (Anchored db₀) M (fun answer own _ => Answers call answer own)
      call.reply Db.empty [] := by
  -- Only claims and successes have something to say.
  have hother : ∀ (call : Call), call.Sound db₀ → call.claimsFor = none →
      (∀ rounds report output, call = .complete rounds report →
        report.result ≠ .success output) →
      Outline (store checks) I (Anchored db₀) M (fun answer own _ => Answers call answer own)
        (call.body >>= fun accepted => .ret ⟨accepted, []⟩) Db.empty [] := by
    intro call hsound hcall hresult
    refine Outline.bind _ (outline_body hlawful hI hsound (K := False) (fun hk => hk.elim)) ?_
    intro accepted own trace _
    refine ⟨fun w hw => ?_, fun rounds report output he hr _ => ?_⟩
    · rw [hcall] at hw
      cases hw
    · exact absurd hr (hresult rounds report output he)
  cases call with
  | claim lease_seconds clock tie worker_id limit =>
      refine Outline.bind _ (outline_claim hI lease_seconds clock tie worker_id limit) ?_
      intro batch own trace hbatch
      exact ⟨fun _ _ => hbatch, fun _ _ _ he => by cases he⟩
  | renew => exact hother _ hsound rfl (fun _ _ _ he => by cases he)
  | reap => exact hother _ hsound rfl (fun _ _ _ he => by cases he)
  | cancel => exact hother _ hsound rfl (fun _ _ _ he => by cases he)
  | complete rounds report =>
      cases hresult : report.result with
      | failure error =>
          refine hother _ hsound rfl (fun _ report' output he => ?_)
          cases he
          rw [hresult]
          exact fun h => by cases h
      | success output =>
          have hbody : Outline (store checks) I (Anchored db₀) M (fun accepted own _ =>
              accepted = true → ∃ r ∈ own.task_runs.rows, r.id = report.task_run_id ∧
                r.state = .SUCCEEDED) (Call.complete rounds report).body Db.empty [] := by
            refine Outline.bind _ (Q := fun accepted own _ => own.workflow_runs = Table.empty ∧
              (accepted = true → ∃ r ∈ own.task_runs.rows, r.id = report.task_run_id ∧
                r.state = .SUCCEEDED)) ?_ ?_
            · unfold recordResult_with
              rw [hresult]
              exact outline_success hlawful hI _ _ _ _
            · rintro accepted own trace ⟨hruns, haccepted⟩
              refine Outline.bind _ (outline_refresh hI report.clock report.run_id hruns trace) ?_
              rintro _ own' trace' ⟨hsame, -⟩ htrue
              rw [hsame]
              exact haccepted htrue
          refine Outline.bind _ hbody ?_
          intro accepted own trace haccepted
          refine ⟨(fun _ hw => by cases hw), fun rounds' report' output' he _ htrue => ?_⟩
          cases he
          exact haccepted htrue

end Outlines

/-! ## The contract -/

section Contract

variable {db₀ : Db}

/-- The annotations of all calls. -/
def answering (checks : Bool) (hlawful : ∀ r ∈ db₀.task_runs.rows, r.Lawful) :
    Discipline (store checks) Call.reply (fun db call => call.Sound db) anyWrite anyCommit where
  I := Evolves db₀
  J := Anchored db₀
  Q := fun call answer own _ => Answers call answer own
  begins := by
    intro db call hdb hsound
    refine ⟨.start db₀ db, outline_reply hlawful (fun _ h => h) ?_⟩
    cases call with
    | complete rounds report =>
        obtain ⟨r, hr, hid, hrun⟩ := hsound
        obtain ⟨r₀, hr₀, hsteps⟩ := hdb.row_before hr
        obtain ⟨k1, k2, -⟩ := RowStep.keeps_of_steps hsteps
        exact ⟨r₀, hr₀, k1.symm.trans hid, k2.symm.trans hrun⟩
    | _ => trivial
  commits := fun _ _ _ _ _ hdb hJ _ _ => hdb.trans hJ.based.evolves
  stable := fun _ _ _ _ _ _ h h' hdisjoint => h.commit h' hdisjoint

/-- What each call does to the rows it has locked. -/
def rewriting (checks : Bool) (hlawful : ∀ r ∈ db₀.task_runs.rows, r.Lawful) :
    Contract (answering checks hlawful) where
  P := fun call => RowsFrom call.Rewrites
  K := Tied
  writes := Call.writes
  empty := fun _ _ _ h => absurd h List.not_mem_nil
  write := fun _ _ _ _ _ _ _ _ _ _ hstmt hK => hK.write (RowsFrom.written hstmt _ _ _)
  stable := fun _ _ _ _ _ _ _ _ _ hdisjoint hK => hK.stable hdisjoint

end Contract

/-! ## The ledger -/

/-- The last time that a task run was handed out. -/
def lastHandedOut (log : List Receipt) (task_run_id : UUID) : Option (ClaimedTask × String) :=
  ((log.flatMap handedOut).filter (fun p => p.1.task_run_id = task_run_id)).getLast?

/-- The worker that has a task run, and the attempt it makes: as the last claim of the log
says, or before the first one as the row said at the start. -/
def lastHolder (db₀ : Db) (log : List Receipt) (task_run_id : UUID) : Option (String × ℤ) :=
  match lastHandedOut log task_run_id with
  | some p => some (p.2, p.1.attempt)
  | none => (db₀.task_runs.get task_run_id).bind (fun r =>
      r.worker_id.map (fun worker_id => (worker_id, r.attempt)))

/-- What becomes of an accepted success: it comes from the worker that has the row and
counts for its attempt, its output is the one that stays, and the row is neither handed out
nor completed again. -/
structure Counted (db₀ db : Db) (before after : List Receipt) (report : Report)
    (output : Option Dict) : Prop where
  row : ∃ r ∈ db.task_runs.rows, r.id = report.task_run_id ∧ r.state = .SUCCEEDED ∧
    r.output = some (output.getD Dict.empty) ∧
    lastHolder db₀ before report.task_run_id = some (report.worker_id, r.attempt)
  handed : ∀ p ∈ after.flatMap handedOut, p.1.task_run_id ≠ report.task_run_id
  accepted : ∀ receipt ∈ after, ∀ report' output',
    acceptedSuccess receipt = some (report', output') → report'.task_run_id ≠ report.task_run_id

/-- The committed database against the log. -/
structure Ledger (db₀ db : Db) (log : List Receipt) : Prop where
  increasing : (log.flatMap handedOut).Pairwise (fun p q =>
    p.1.task_run_id = q.1.task_run_id → p.1.attempt < q.1.attempt)
  reached : ∀ p ∈ log.flatMap handedOut, ∃ r ∈ db.task_runs.rows,
    r.id = p.1.task_run_id ∧ p.1.attempt ≤ r.attempt
  holder : ∀ r ∈ db.task_runs.rows, r.state = .RUNNING → ∃ worker_id,
    r.worker_id = some worker_id ∧ lastHolder db₀ log r.id = some (worker_id, r.attempt)
  counted : ∀ before receipt after report output, log = before ++ receipt :: after →
    acceptedSuccess receipt = some (report, output) → Counted db₀ db before after report output

/-- A claim that is told its batch was a claim, and the batch are the rows it wrote. -/
theorem mem_handedOut {i : ℕ} {call : Call} {answer : Answer} {rows : Db}
    (h : Answers call answer rows) {p : ClaimedTask × String}
    (hp : p ∈ handedOut ⟨i, call, .committed answer rows⟩) : call.claimsFor = some p.2 ∧
      ∃ r ∈ rows.task_runs.rows, r.id = p.1.task_run_id ∧ r.attempt = p.1.attempt := by
  cases call with
  | claim lease_seconds clock tie worker_id limit =>
      obtain ⟨task, htask, rfl⟩ := List.mem_map.mp hp
      refine ⟨rfl, ?_⟩
      have hpair := List.mem_map_of_mem
        (f := fun task : ClaimedTask => (task.task_run_id, task.attempt)) htask
      rw [h.claimed worker_id rfl] at hpair
      obtain ⟨r, hr, he⟩ := List.mem_map.mp hpair
      exact ⟨r, hr, (Prod.mk.inj he).1, (Prod.mk.inj he).2⟩
  | renew => cases hp
  | reap => cases hp
  | cancel => cases hp
  | complete => cases hp

/-- Every row that a claim writes is handed out, and once. -/
theorem handedOut_ids {i : ℕ} {call : Call} {answer : Answer} {rows : Db}
    (h : Answers call answer rows) {worker_id : String} (hcall : call.claimsFor = some worker_id) :
    (handedOut ⟨i, call, .committed answer rows⟩).map (fun p => p.1.task_run_id) =
      rows.task_runs.rows.map TaskRun.id := by
  cases call with
  | claim lease_seconds clock tie worker_id' limit =>
      have hpairs := congrArg (List.map Prod.fst) (h.claimed worker_id' rfl)
      rw [List.map_map, List.map_map] at hpairs
      simp only [handedOut, List.map_map]
      exact hpairs
  | renew => cases hcall
  | reap => cases hcall
  | cancel => cases hcall
  | complete => cases hcall

theorem handedOut_eq_nil {receipt : Receipt} (h : receipt.call.claimsFor = none) :
    handedOut receipt = [] := by
  obtain ⟨i, call, ending⟩ := receipt
  cases call with
  | claim => cases h
  | renew => rfl
  | reap => rfl
  | cancel => rfl
  | complete => rfl

theorem acceptedSuccess_eq {i : ℕ} {call : Call} {answer : Answer} {rows : Db} {report : Report}
    {output : Option Dict}
    (h : acceptedSuccess ⟨i, call, .committed answer rows⟩ = some (report, output)) :
    ∃ rounds, call = .complete rounds report ∧ report.result = .success output ∧
      answer.accepted = true := by
  cases call with
  | complete rounds report' =>
      simp only [acceptedSuccess] at h
      split at h
      · rename_i output' hresult
        split at h
        · rename_i haccepted
          cases h
          exact ⟨rounds, rfl, hresult, haccepted⟩
        · cases h
      · cases h
  | claim => cases h
  | renew => cases h
  | reap => cases h
  | cancel => cases h

theorem lastHandedOut_append (log : List Receipt) (receipt : Receipt) (task_run_id : UUID)
    (h : ∀ p ∈ handedOut receipt, p.1.task_run_id ≠ task_run_id) :
    lastHandedOut (log ++ [receipt]) task_run_id = lastHandedOut log task_run_id := by
  have hnone : (handedOut receipt).filter (fun p => p.1.task_run_id = task_run_id) = [] :=
    List.filter_eq_nil_iff.mpr (fun p hp => by simpa using h p hp)
  unfold lastHandedOut
  rw [List.flatMap_append, List.flatMap_singleton, List.filter_append, hnone, List.append_nil]

theorem lastHandedOut_mem (log : List Receipt) {receipt : Receipt} {task_run_id : UUID}
    (h : ∃ p ∈ handedOut receipt, p.1.task_run_id = task_run_id) :
    ∃ p ∈ handedOut receipt, p.1.task_run_id = task_run_id ∧
      lastHandedOut (log ++ [receipt]) task_run_id = some p := by
  obtain ⟨q, hq, hid⟩ := h
  have hne : (handedOut receipt).filter (fun p => p.1.task_run_id = task_run_id) ≠ [] :=
    List.ne_nil_of_mem (List.mem_filter.mpr ⟨hq, decide_eq_true hid⟩)
  have hlast := List.getLast?_eq_some_getLast hne
  obtain ⟨hmem, hid'⟩ := List.mem_filter.mp (List.getLast_mem hne)
  refine ⟨_, hmem, of_decide_eq_true hid', ?_⟩
  unfold lastHandedOut
  rw [List.flatMap_append, List.flatMap_singleton, List.filter_append,
    List.getLast?_append_of_ne_nil _ hne]
  exact hlast

section Commit

variable {db₀ db rows : Db} {log : List Receipt} {i : ℕ} {call : Call} {answer : Answer}

/-- The row of the database under a row that the session has written. -/
theorem Tied.row (htied : Tied call db rows) {r r' : TaskRun} (hr : r ∈ db.task_runs.rows)
    (hr' : r' ∈ rows.task_runs.rows) (hid : r'.id = r.id) : call.Rewritten r r' := by
  obtain ⟨r₁, hr₁, hR⟩ := htied r' hr'
  rw [← db.task_runs.eq_of_key hr₁ hr (hR.id_eq.symm.trans hid)]
  exact hR

/-- A claim takes rows that are `READY`, and counts on from the attempt they had. -/
theorem Tied.handedOut (htied : Tied call db rows) (hanswers : Answers call answer rows)
    {p : ClaimedTask × String} (hp : p ∈ handedOut ⟨i, call, .committed answer rows⟩) {r : TaskRun}
    (hr : r ∈ db.task_runs.rows) (hid : r.id = p.1.task_run_id) :
    r.state = .READY ∧ p.1.attempt = r.attempt + 1 := by
  obtain ⟨hcall, r', hr', hid', hattempt⟩ := mem_handedOut hanswers hp
  obtain ⟨hready, -, -, hnext⟩ := (htied.row hr hr' (hid'.trans hid.symm)).claim hcall
  exact ⟨hready, hattempt.symm.trans hnext⟩

theorem Ledger.commit_increasing (h : Ledger db₀ db log) (htied : Tied call db rows)
    (hanswers : Answers call answer rows) :
    ((log ++ [(⟨i, call, .committed answer rows⟩ : Receipt)]).flatMap Conductor.handedOut).Pairwise
      (fun p q => p.1.task_run_id = q.1.task_run_id → p.1.attempt < q.1.attempt) := by
  rw [List.flatMap_append, List.flatMap_singleton]
  refine List.pairwise_append.mpr ⟨h.increasing, ?_, fun p hp q hq hid => ?_⟩
  · -- Within one batch every task run occurs once.
    cases hcall : call.claimsFor with
    | none => rw [handedOut_eq_nil hcall]; exact List.Pairwise.nil
    | some worker_id =>
        have hnodup : ((Conductor.handedOut ⟨i, call, .committed answer rows⟩).map
            (fun p => p.1.task_run_id)).Nodup := by
          rw [handedOut_ids hanswers hcall]
          exact rows.task_runs.nodup
        exact (List.pairwise_map.mp hnodup).imp (fun hne he => absurd he hne)
  · obtain ⟨r, hr, hrid, hle⟩ := h.reached p hp
    obtain ⟨-, hnext⟩ := htied.handedOut hanswers hq hr (hrid.trans hid)
    omega

theorem Ledger.commit_reached (h : Ledger db₀ db log) (hbased : Based db rows)
    (hanswers : Answers call answer rows) :
    ∀ p ∈ (log ++ [(⟨i, call, .committed answer rows⟩ : Receipt)]).flatMap Conductor.handedOut,
      ∃ r ∈ (rows.overlay db).task_runs.rows, r.id = p.1.task_run_id ∧ p.1.attempt ≤ r.attempt := by
  intro p hp
  rw [List.flatMap_append, List.flatMap_singleton] at hp
  rcases List.mem_append.mp hp with hp | hp
  · obtain ⟨r, hr, hid, hle⟩ := h.reached p hp
    obtain ⟨r', hr', hsteps⟩ := hbased.evolves.row_after hr
    exact ⟨r', hr', (RowStep.keeps_of_steps hsteps).1.trans hid,
      hle.trans (attempt_le_of_steps hsteps)⟩
  · obtain ⟨-, r, hr, hid, hattempt⟩ := mem_handedOut hanswers hp
    exact ⟨r, Table.mem_overlay.mpr (Or.inl hr), hid, hattempt.ge⟩

theorem Ledger.commit_holder (h : Ledger db₀ db log) (htied : Tied call db rows)
    (hanswers : Answers call answer rows) :
    ∀ r ∈ (rows.overlay db).task_runs.rows, r.state = .RUNNING → ∃ worker_id,
      r.worker_id = some worker_id ∧
        lastHolder db₀ (log ++ [(⟨i, call, .committed answer rows⟩ : Receipt)]) r.id =
          some (worker_id, r.attempt) := by
  intro r' hr' hrunning
  by_cases hhanded : ∃ p ∈ Conductor.handedOut ⟨i, call, .committed answer rows⟩,
      p.1.task_run_id = r'.id
  · -- Handed out just now: the row is the one that the claim has written.
    obtain ⟨p, hmem, hid, hp⟩ := lastHandedOut_mem log hhanded
    obtain ⟨hcall, r, hr, hrid, hattempt⟩ := mem_handedOut hanswers hmem
    have he : r = r' := (rows.overlay db).task_runs.eq_of_key
      (Table.mem_overlay.mpr (Or.inl hr)) hr' (hrid.trans hid)
    obtain ⟨r₀, -, hR⟩ := htied r hr
    rw [← he] at hp ⊢
    refine ⟨p.2, (hR.claim hcall).2.2.1, ?_⟩
    rw [lastHolder, hp, hattempt]
  · push Not at hhanded
    rw [lastHolder, lastHandedOut_append _ _ _ hhanded]
    rcases Table.mem_overlay.mp hr' with hr' | ⟨hr', -⟩
    · -- Written, but not by a claim: the worker and the attempt are the old ones.
      have hcall : call.claimsFor = none := by
        cases hcall : call.claimsFor with
        | none => rfl
        | some worker_id =>
            have hmem := List.mem_map_of_mem (f := TaskRun.id) hr'
            rw [← handedOut_ids (i := i) hanswers hcall] at hmem
            obtain ⟨q, hq, hid⟩ := List.mem_map.mp hmem
            exact absurd hid (hhanded q hq)
      obtain ⟨r, hr, hR⟩ := htied r' hr'
      obtain ⟨hrunning₀, hworker, hattempt⟩ := hR.keeps hcall hrunning
      rw [hR.id_eq, hworker, hattempt]
      exact h.holder r hr hrunning₀
    · exact h.holder r' hr' hrunning

/-- What has been counted stays counted. -/
theorem Counted.commit {before after : List Receipt} {report : Report} {output : Option Dict}
    (h : Counted db₀ db before after report output) (hlawful : ∀ r ∈ db.task_runs.rows, r.Lawful)
    (hbased : Based db rows) (htied : Tied call db rows) (hanswers : Answers call answer rows) :
    Counted db₀ (rows.overlay db) before (after ++ [⟨i, call, .committed answer rows⟩]) report
      output := by
  obtain ⟨r, hr, hid, hsucceeded, hrest⟩ := h.row
  have hterminal : r.state.is_terminal = true := by rw [hsucceeded]; rfl
  refine ⟨⟨r, hbased.evolves.final hr (hlawful r hr) hterminal, hid, hsucceeded, hrest⟩,
    fun p hp => ?_, fun receipt hreceipt report' output' haccepted => ?_⟩
  · rw [List.flatMap_append, List.flatMap_singleton] at hp
    rcases List.mem_append.mp hp with hp | hp
    · exact h.handed p hp
    · intro he
      have hready := (htied.handedOut hanswers hp hr (hid.trans he.symm)).1
      rw [hsucceeded] at hready
      cases hready
  · rcases List.mem_append.mp hreceipt with hreceipt | hreceipt
    · exact h.accepted receipt hreceipt report' output' haccepted
    · rw [List.mem_singleton.mp hreceipt] at haccepted
      obtain ⟨rounds, rfl, hresult, htrue⟩ := acceptedSuccess_eq haccepted
      obtain ⟨r', hr', hid', hsucceeded'⟩ :=
        hanswers.accepted rounds report' output' rfl hresult htrue
      intro he
      have hR := htied.row hr hr' (hid'.trans (he.trans hid.symm))
      obtain ⟨-, -, -, hrunning, -⟩ := hR.succeeds hsucceeded'
      rw [hsucceeded] at hrunning
      cases hrunning

/-- A success that is accepted now comes from the worker that has the row. -/
theorem Ledger.commit_accepted (h : Ledger db₀ db log) (htied : Tied call db rows)
    (hanswers : Answers call answer rows) {report : Report} {output : Option Dict}
    (haccepted : acceptedSuccess ⟨i, call, .committed answer rows⟩ = some (report, output)) :
    Counted db₀ (rows.overlay db) log [] report output := by
  obtain ⟨rounds, rfl, hresult, htrue⟩ := acceptedSuccess_eq haccepted
  obtain ⟨r', hr', hid, hsucceeded⟩ := hanswers.accepted rounds report output rfl hresult htrue
  obtain ⟨r, hr, hR⟩ := htied r' hr'
  obtain ⟨_, _, he, hrunning, hrid, hworker, hattempt, houtput⟩ := hR.succeeds hsucceeded
  cases he
  refine ⟨⟨r', Table.mem_overlay.mpr (Or.inl hr'), hid, hsucceeded, houtput output hresult, ?_⟩,
    fun _ hp => absurd hp List.not_mem_nil, fun _ ht => absurd ht List.not_mem_nil⟩
  obtain ⟨worker_id, hholder, hheld⟩ := h.holder r hr hrunning
  rw [hworker] at hholder
  cases hholder
  rw [← hrid, hattempt]
  exact hheld

/-- **A commit keeps the ledger.** -/
theorem Ledger.commit (h : Ledger db₀ db log) (hlawful : ∀ r ∈ db.task_runs.rows, r.Lawful)
    (hbased : Based db rows) (htied : Tied call db rows) (hanswers : Answers call answer rows) :
    Ledger db₀ (rows.overlay db) (log ++ [(⟨i, call, .committed answer rows⟩ : Receipt)]) := by
  refine ⟨h.commit_increasing htied hanswers, h.commit_reached hbased hanswers,
    h.commit_holder htied hanswers, fun before receipt after report output hlog haccepted => ?_⟩
  rcases List.eq_nil_or_concat' after with rfl | ⟨after, last, rfl⟩
  · obtain ⟨rfl, hlast⟩ := List.append_inj' hlog rfl
    cases hlast
    exact h.commit_accepted htied hanswers haccepted
  · rw [← List.cons_append, ← List.append_assoc] at hlog
    obtain ⟨rfl, hlast⟩ := List.append_inj' hlog rfl
    cases hlast
    exact (h.counted before receipt after report output rfl haccepted).commit hlawful hbased htied
      hanswers

end Commit

/-- A transaction that does not commit leaves nothing behind. -/
theorem Ledger.broken {db₀ db : Db} {log : List Receipt} (h : Ledger db₀ db log) {receipt : Receipt}
    (hended : ∀ answer rows, receipt.ending ≠ .committed answer rows) :
    Ledger db₀ db (log ++ [receipt]) := by
  obtain ⟨i, call, ending⟩ := receipt
  have hnone : handedOut ⟨i, call, ending⟩ = [] ∧ acceptedSuccess ⟨i, call, ending⟩ = none := by
    cases ending with
    | committed answer rows => exact absurd rfl (hended answer rows)
    | failed e => cases call <;> exact ⟨rfl, rfl⟩
    | lost => cases call <;> exact ⟨rfl, rfl⟩
  have hhanded : (log ++ [(⟨i, call, ending⟩ : Receipt)]).flatMap handedOut =
      log.flatMap handedOut := by
    rw [List.flatMap_append, List.flatMap_singleton, hnone.1, List.append_nil]
  refine ⟨by rw [hhanded]; exact h.increasing, by rw [hhanded]; exact h.reached,
    fun r hr hrunning => ?_, fun before receipt after report output hlog haccepted => ?_⟩
  · have hfree : ∀ p ∈ handedOut ⟨i, call, ending⟩, p.1.task_run_id ≠ r.id := by
      rw [hnone.1]
      exact fun _ hp => absurd hp List.not_mem_nil
    rw [lastHolder, lastHandedOut_append _ _ _ hfree]
    exact h.holder r hr hrunning
  · rcases List.eq_nil_or_concat' after with rfl | ⟨after, last, rfl⟩
    · obtain ⟨rfl, hlast⟩ := List.append_inj' hlog rfl
      cases hlast
      rw [hnone.2] at haccepted
      cases haccepted
    · rw [← List.cons_append, ← List.append_assoc] at hlog
      obtain ⟨rfl, hlast⟩ := List.append_inj' hlog rfl
      cases hlast
      obtain ⟨hrow, hhanded', haccepted'⟩ :=
        h.counted before receipt after report output rfl haccepted
      refine ⟨hrow, fun p hp => ?_, fun receipt' hreceipt report' output' he => ?_⟩
      · rw [List.flatMap_append, List.flatMap_singleton, hnone.1, List.append_nil] at hp
        exact hhanded' p hp
      · rcases List.mem_append.mp hreceipt with hreceipt | hreceipt
        · exact haccepted' receipt' hreceipt report' output' he
        · rw [List.mem_singleton.mp hreceipt, hnone.2] at he
          cases he

/-- The interleavings that start on one database. -/
def WitnessedFrom (checks : Bool) (db₀ : Db) : Logged Db Exn Answer Call → Prop :=
  Recorded (store checks) Call.reply (· = ⟨db₀, []⟩)
    (StepMeets (store checks) (fun db call => call.Sound db) anyWrite anyCommit)

theorem Witnessed.exists_start {s : Logged Db Exn Answer Call} (h : Witnessed checks s) :
    ∃ db₀, Requested checks (fun _ _ => True) db₀ ∧ WitnessedFrom checks db₀ s := by
  obtain ⟨s₀, ⟨hrequested, hsessions⟩, hs⟩ := Recorded.exists_start h
  refine ⟨s₀.committed, hrequested, ?_⟩
  rwa [show s₀ = ⟨s₀.committed, []⟩ by rw [← hsessions]] at hs

theorem WitnessedFrom.witnessed {db₀ : Db} (hdb₀ : Requested checks (fun _ _ => True) db₀)
    {s : Logged Db Exn Answer Call} (h : WitnessedFrom checks db₀ s) : Witnessed checks s := by
  induction h with
  | start hi => exact .start ⟨by rw [hi.1]; exact ⟨hdb₀, rfl⟩, hi.2⟩
  | next _ hc hstep ih => exact .next ih hc hstep

/-- The ledger of every interleaving. -/
theorem WitnessedFrom.ledger {db₀ : Db} (hdb₀ : Requested checks (fun _ _ => True) db₀)
    {s : Logged Db Exn Answer Call} (h : WitnessedFrom checks db₀ s) :
    Ledger db₀ s.sys.committed s.log := by
  have hlawful := hdb₀.inv.good.lawful
  refine (rewriting checks hlawful).logged store_lawful
    (fun s hs => by rw [hs]; exact ⟨.refl _, rfl⟩) (fun s hs => ?_)
    (fun db log receipt hledger hended => hledger.broken hended) ?_ h
  · subst hs
    refine ⟨List.Pairwise.nil, fun _ hp => absurd hp List.not_mem_nil, fun r hr hrunning => ?_,
      fun before receipt after _ _ he => by simp at he⟩
    -- Nothing has been handed out yet: the row says who has it.
    obtain ⟨worker_id, hworker⟩ := Option.isSome_iff_exists.mp ((hlawful r hr).held hrunning).2.1
    refine ⟨worker_id, hworker, ?_⟩
    show (db₀.task_runs.get r.id).bind _ = _
    rw [Table.get_of_mem hr, Option.bind_some, hworker]
    rfl
  · intro db log i call answer rows trace hdb hJ hanswers htied _ hledger
    exact hledger.commit (hdb.lawful hlawful) hJ.based htied hanswers

/-! ## Exactly once -/

/-- **No attempt is handed out twice.** However the statements of claims, renewals, reaps,
reports and cancels interleave, the attempts of a task run that committed claims hand out
count up: no two of them hand out the same attempt, to the same worker or to two. -/
theorem attempts_handed_out_once {s : Logged Db Exn Answer Call} (h : Witnessed checks s) :
    (s.log.flatMap handedOut).Pairwise (fun p q =>
      p.1.task_run_id = q.1.task_run_id → p.1.attempt < q.1.attempt) := by
  obtain ⟨db₀, hdb₀, h⟩ := h.exists_start
  exact (h.ledger hdb₀).increasing

/-- **A success counts once, and for the worker that has the row.** Whatever the
interleaving, an accepted success report comes from the worker to whom the row was handed
out last, before the start or since, and counts for that attempt; its output stays in the
row; and the row is neither handed out nor completed with success afterwards. -/
theorem successes_counted_once {db₀ : Db} (hdb₀ : Requested checks (fun _ _ => True) db₀)
    {s : Logged Db Exn Answer Call} (h : WitnessedFrom checks db₀ s)
    {before after : List Receipt} {receipt : Receipt} {report : Report} {output : Option Dict}
    (hlog : s.log = before ++ receipt :: after)
    (haccepted : acceptedSuccess receipt = some (report, output)) :
    Counted db₀ s.sys.committed before after report output :=
  (h.ledger hdb₀).counted before receipt after report output hlog haccepted

/-- The system after the steps of a schedule, with its log. -/
def witnessed (checks : Bool) (db : Db) (schedule : List (Label Call Lock)) :
    Logged Db Exn Answer Call :=
  schedule.foldl (Logged.step (store checks) Call.reply) ⟨⟨db, []⟩, []⟩

theorem witnessedFrom_after {db : Db} {schedule : List (Label Call Lock)}
    (h : Lts.Meets (Logged.step (store checks) Call.reply)
      (fun s => StepMeets (store checks) (fun db call => call.Sound db) anyWrite anyCommit s.sys)
      ⟨⟨db, []⟩, []⟩ schedule) : WitnessedFrom checks db (witnessed checks db schedule) :=
  Lts.ReachVia.foldl (.start ⟨rfl, rfl⟩) h

/-- A run with one task that may be tried twice. -/
def readySolo : Db := transacted true ((soloStart retryOnce).map .op)

theorem requested_readySolo : Requested true (fun _ _ => True) readySolo :=
  Lts.ReachVia.foldl (.start initial_empty) (by decide +kernel)

/-- Two workers claim at once, and the second steps over the row that the first has
locked. The first is presumed dead, the second gets the next attempt, and then both report
that they are done. -/
def reclaimed : List (Label Call Lock) :=
  List.flatten [
    [.begin (.claim 30 (clockAt 0) (fun _ => 0) "w1" 1),
      .begin (.claim 30 (clockAt 0) (fun _ => 0) "w2" 1)],
    writeAt 0, writeAt 1, [proceed 0], writeAt 0, [.commit 1, .commit 0],
    [.begin (.reap (clockAt 100))], writeAt 2, writeAt 2, [.commit 2],
    [.begin (.claim 30 (clockAt 150) (fun _ => 0) "w2" 1)], writeAt 3, [proceed 3], writeAt 3,
    [.commit 3],
    [.begin (.complete 2 ⟨12, 10, "w1", .success none, clockAt 160, fun x => x⟩),
      .begin (.complete 2 ⟨12, 10, "w2", .success none, clockAt 160, fun x => x⟩)],
    writeAt 4, writeAt 5, [proceed 4], writeAt 4, [.commit 4], writeAt 5, [proceed 5], writeAt 5,
    writeAt 5, [proceed 5], writeAt 5, [.commit 5]]

theorem attempts_handed_out_once_reclaimed :
    ((witnessed true readySolo reclaimed).log.flatMap handedOut).Pairwise (fun p q =>
      p.1.task_run_id = q.1.task_run_id → p.1.attempt < q.1.attempt) ∧
    ((witnessed true readySolo reclaimed).log.flatMap handedOut).map
      (fun p => (p.1.task_run_id, p.1.attempt, p.2)) = [(12, 1, "w1"), (12, 2, "w2")] :=
  ⟨attempts_handed_out_once
      ((witnessedFrom_after (by decide +kernel)).witnessed requested_readySolo),
    by decide +kernel⟩

/-- The report of the first worker is turned down; that of the second, the last of the six
transactions, is counted for the second attempt. -/
theorem successes_counted_once_reclaimed : ∃ before receipt report output,
    (witnessed true readySolo reclaimed).log = before ++ [receipt] ∧ before.length = 5 ∧
    acceptedSuccess receipt = some (report, output) ∧ report.worker_id = "w2" ∧
    Counted readySolo (witnessed true readySolo reclaimed).sys.committed before [] report
      output := by
  have hlength : (witnessed true readySolo reclaimed).log.length = 6 := by decide +kernel
  have hworker : ((witnessed true readySolo reclaimed).log.getLast?.bind acceptedSuccess).map
      (fun p => p.1.worker_id) = some "w2" := by decide +kernel
  obtain ⟨⟨report, output⟩, hbind, hw⟩ := Option.map_eq_some_iff.mp hworker
  obtain ⟨receipt, hlast, haccepted⟩ := Option.bind_eq_some_iff.mp hbind
  have hlog := List.dropLast_append_getLast? receipt hlast
  refine ⟨_, receipt, report, output, hlog.symm, ?_, haccepted, hw, ?_⟩
  · rw [List.length_dropLast, hlength]
  · exact successes_counted_once requested_readySolo (witnessedFrom_after (by decide +kernel))
      hlog.symm haccepted

end Conductor
