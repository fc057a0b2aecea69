/-
Failure reports and lost leases.

`record_failure` reads the row, decides on that reading what to do, and then issues
a guarded update and more. Nobody looks at how many rows the guarded update
matched. If the lease is lost between the read and the update, the report is not
discarded: it answers with a state, and when retries are exhausted it goes on to
block the descendants of a task that has not failed.

With the lease still in hand at the guarded update everything is as it should be:
a blocked task has a failed task above it, in every interleaving.
-/
import Conductor.Interleaving

set_option autoImplicit false

open Relational Txn

namespace Conductor

open RunRepository TaskQueueRepository

variable {checks : Bool} {db : Db}

/-! ## The condition -/

/-- At the guarded update of a failure report, the second statement after a read that
saw the row in the worker's hands, the worker still has the row: when the statement
starts, and on the row version it rewrites. -/
def LeaseHeld : Call → List (Event Db) → Db → Db → Prop
  | .complete _ report, [.saw seen], started, view =>
      match report.result with
      | .failure _ => Owned report.task_run_id report.worker_id seen →
          Owned report.task_run_id report.worker_id started ∧
            Owned report.task_run_id report.worker_id view
      | .success _ => True
  | _, _, _, _ => True

instance : ∀ (call : Call) (trace : List (Event Db)) (started view : Db),
    Decidable (LeaseHeld call trace started view)
  | .complete _ ⟨task_run_id, _, worker_id, .failure _, _, _⟩, [.saw seen], started, view =>
      inferInstanceAs (Decidable (Owned task_run_id worker_id seen →
        Owned task_run_id worker_id started ∧ Owned task_run_id worker_id view))
  | .complete _ ⟨_, _, _, .success _, _, _⟩, [.saw _], _, _ => inferInstanceAs (Decidable True)
  | .complete .., [], _, _ | .complete .., .wrote .. :: _, _, _ | .complete .., .saw _ :: _ :: _, _, _
  | .claim .., _, _, _ | .renew .., _, _, _ | .reap .., _, _, _ | .cancel .., _, _, _ =>
      inferInstanceAs (Decidable True)

/-! ## What is promised -/

/-- Every blocked task row has a failed task row strictly above it in its run. -/
def Db.Justified (db : Db) : Prop :=
  ∀ r ∈ db.task_runs.rows, r.state = .BLOCKED → ∃ f ∈ db.task_runs.rows,
    (f.state = .DEAD_LETTER ∨ f.state = .FAILED) ∧ f.run_id = r.run_id ∧
      Precedence.Below db.parents f.task_id r.task_id

/-- A failure report that has come to its end: if its guarded update matched no row,
it has written no task row and answers `None`. -/
def Discards (report : Report) (t : Session Db Exn Bool Call) : Prop :=
  ∀ rows a, guarded report t.trace = some rows → t.result = some a →
    rows.task_runs.rows = [] → a = false ∧ t.own.task_runs.rows = []

/-! ## Blocked rows -/

theorem Inv.justified (hinv : Inv checks db) : db.Justified := by
  intro r hr hb
  have hstatus := Db.status_of_mem hinv.unique hr
  rw [hb] at hstatus
  obtain ⟨t, hbelow, hfailed⟩ := (hinv.coherent r.run_id).blocked _ hstatus
  obtain ⟨f, hf, hrun, rfl, hstate⟩ := Db.exists_row_of_status hinv.unique hfailed (by decide)
  exact ⟨f, hf, (TaskState.status_eq_failed.mp hstate).symm, hrun, hbelow⟩

/-- A commit keeps blocked rows justified: it brings its failed row along, and no
failed row is ever taken back. -/
theorem justified_commit {db₀ own : Db} (hlawful : ∀ r ∈ db₀.task_runs.rows, r.Lawful)
    (hdb : Evolves db₀ db) (hbased : Based db own) (h : db.Justified)
    (hown : ∀ r ∈ own.task_runs.rows, r.state = .BLOCKED → ∃ f ∈ own.task_runs.rows,
      (f.state = .DEAD_LETTER ∨ f.state = .FAILED) ∧ f.run_id = r.run_id ∧
        Precedence.Below db₀.parents f.task_id r.task_id) : (own.overlay db).Justified := by
  intro r hr hb
  rcases Table.mem_overlay.mp hr with hr | ⟨hr, -⟩
  · obtain ⟨f, hf, hstate, hrun, hbelow⟩ := hown r hr hb
    rw [(hdb.trans hbased.evolves).parents]
    exact ⟨f, Table.mem_overlay.mpr (Or.inl hf), hstate, hrun, hbelow⟩
  · obtain ⟨f, hf, hstate, hrun, hbelow⟩ := h r hr hb
    have hterminal : f.state.is_terminal = true := by
      rcases hstate with h | h <;> rw [h] <;> rfl
    rw [hbased.evolves.parents]
    exact ⟨f, hbased.evolves.final hf (hdb.lawful hlawful f hf) hterminal, hstate, hrun, hbelow⟩

/-! ## All interleavings -/

/-- With every lease held at its guarded update, blocked rows are justified and no
guarded update matches nothing. -/
theorem Interleaved.justified {s : Queue} (h : Interleaved checks LeaseHeld anyCommit s) :
    s.committed.Justified ∧ ∀ i t rounds report rows a, s.session i = some t →
      t.call = .complete rounds report → t.result = some a →
      guarded report t.trace = some rows → rows.task_runs.rows ≠ [] := by
  obtain ⟨hjustified, db₀, -, -, hpost⟩ := h.rule (K := True) (P := Db.Justified)
    (fun _ rounds report error hresult seen v₀ v howned hM => by
      simp only [LeaseHeld, hresult] at hM
      exact hM howned)
    (fun db₀ hdb₀ => hdb₀.inv.justified)
    (fun db₀ db call a own trace hdb₀ hdb hjustified hanchored hpost _ =>
      justified_commit hdb₀.inv.good.lawful hdb hanchored.based hjustified (hpost.blocked trivial))
  refine ⟨hjustified, fun i t rounds report rows a ht hcall hresult hguarded => ?_⟩
  obtain ⟨-, hpost⟩ := hpost i t a ht hresult
  exact (hpost.answer rounds report rows hcall hguarded).2 trivial

/-- Whatever the others do, a failure report that has run its guarded update does not
answer `None`. -/
theorem Interleaved.answers {s : Queue} (h : Interleaved checks anyWrite anyCommit s) {i : ℕ}
    {t : Session Db Exn Bool Call} {rounds : ℕ} {report : Report} {rows : Db} {a : Bool}
    (ht : s.session i = some t) (hcall : t.call = .complete rounds report)
    (hresult : t.result = some a) (hguarded : guarded report t.trace = some rows) : a = true := by
  obtain ⟨-, db₀, -, -, hpost⟩ := h.rule (K := False) (P := fun _ => True) (fun hk => hk.elim)
    (fun _ _ => trivial) (fun _ _ _ _ _ _ _ _ _ _ _ _ => trivial)
  obtain ⟨-, hpost⟩ := hpost i t a ht hresult
  exact (hpost.answer rounds report rows hcall hguarded).1

/-- **Lost failures are discarded exactly when none are lost.**

* In every interleaving in which the lease is held at every guarded update, a
  failure report whose guarded update matched no row writes no task row and answers
  `None`, and every blocked task row has a failed one strictly above it in its run.
* In any interleaving, a failure report that has run its guarded update and come to
  its end is such a report exactly when the update matched its row. -/
theorem lost_failures_discarded :
    (∀ s : Queue, Interleaved checks LeaseHeld anyCommit s → s.committed.Justified ∧
      ∀ i t rounds report, s.session i = some t → t.call = .complete rounds report →
        Discards report t) ∧
    (∀ s : Queue, Interleaved checks anyWrite anyCommit s →
      ∀ i t rounds report rows, s.session i = some t → t.call = .complete rounds report →
        t.result.isSome = true → guarded report t.trace = some rows →
        (Discards report t ↔ rows.task_runs.rows ≠ [])) := by
  refine ⟨fun s h => ⟨h.justified.1, fun i t rounds report ht hcall => ?_⟩,
    fun s h i t rounds report rows ht hcall hresult hguarded => ⟨fun hdiscards hempty => ?_,
      fun hmatched rows' a hguarded' _ hempty => ?_⟩⟩
  · intro rows a hguarded hresult hempty
    exact absurd hempty (h.justified.2 i t rounds report rows a ht hcall hresult hguarded)
  · obtain ⟨a, hresult⟩ := Option.isSome_iff_exists.mp hresult
    obtain ⟨hfalse, -⟩ := hdiscards rows a hguarded hresult hempty
    rw [h.answers ht hcall hresult hguarded] at hfalse
    cases hfalse
  · rw [hguarded] at hguarded'
    rw [Option.some.inj hguarded'] at hmatched
    exact absurd hempty hmatched

/-- A chain of two tasks without retries, the first claimed by `w1`. -/
def claimedChain : Db := transacted true ((chainStart noRetry ++ [claimAt 0 "w1"]).map .op)

theorem requested_claimedChain : Requested true (fun _ _ => True) claimedChain :=
  Lts.ReachVia.foldl (.start initial_empty) (by decide +kernel)

/-- `w1` reports that the first task failed. -/
def failedReport : Report := ⟨12, 10, "w1", .failure "boom", clockAt 200, fun x => x⟩

/-- The statements of that report after its first read, to its end: the guarded
update, the attempt, the walk over one level, the refresh. -/
def failedStatements : List (Label Call Lock) :=
  writeAt 0 ++ writeAt 0 ++ [proceed 0, proceed 0] ++ writeAt 0 ++ [proceed 0, proceed 0] ++ writeAt 0

/-- A reap takes the lease between the first read of the report and its guarded
update. -/
def lostLease : List (Label Call Lock) :=
  [.begin (.complete 2 failedReport), proceed 0, .begin (.reap (clockAt 100))] ++ writeAt 1 ++
    writeAt 1 ++ [.commit 1] ++ failedStatements

/-- The report nevertheless answers that the task has failed, and blocks the second
task below a first task that is ready to be claimed again. -/
theorem lost_lease_blocks_children :
    Interleaved true anyWrite anyCommit (Queue.after true claimedChain lostLease) ∧
    Interleaved true anyWrite anyCommit (Queue.after true claimedChain (lostLease ++ [.commit 0])) ∧
    (∃ t, (Queue.after true claimedChain lostLease).session 0 = some t ∧
      ¬ Discards failedReport t) ∧
    (Queue.after true claimedChain (lostLease ++ [.commit 0])).committed.task_runs.rows.map
      TaskRun.state = [.READY, .BLOCKED] ∧
    ¬ (Queue.after true claimedChain (lostLease ++ [.commit 0])).committed.Justified := by
  have hstates : (Queue.after true claimedChain (lostLease ++ [.commit 0])).committed.task_runs.rows.map
      TaskRun.state = [.READY, .BLOCKED] := by decide +kernel
  have hanswer : ((Queue.after true claimedChain lostLease).session 0).bind (fun t =>
      (guarded failedReport t.trace).bind (fun rows => t.result.map (fun a =>
        (rows.task_runs.rows.isEmpty, a)))) = some (true, true) := by decide +kernel
  refine ⟨interleaved_after requested_claimedChain (by decide +kernel),
    interleaved_after requested_claimedChain (by decide +kernel), ?_, hstates, fun hjustified => ?_⟩
  · obtain ⟨t, ht, hanswer⟩ := Option.bind_eq_some_iff.mp hanswer
    obtain ⟨rows, hrows, hanswer⟩ := Option.bind_eq_some_iff.mp hanswer
    obtain ⟨a, ha, hpair⟩ := Option.map_eq_some_iff.mp hanswer
    obtain ⟨hempty, rfl⟩ := Prod.mk.inj hpair
    refine ⟨t, ht, fun hdiscards => ?_⟩
    exact absurd (hdiscards rows true hrows ha (List.isEmpty_iff.mp hempty)).1 (by decide)
  · -- There is a blocked row and no failed one.
    have hblocked : TaskState.BLOCKED ∈ (Queue.after true claimedChain
        (lostLease ++ [.commit 0])).committed.task_runs.rows.map TaskRun.state := by
      rw [hstates]
      decide
    obtain ⟨r, hr, hb⟩ := List.mem_map.mp hblocked
    obtain ⟨f, hf, hstate, -⟩ := hjustified r hr hb
    have hfailed := List.mem_map_of_mem (f := TaskRun.state) hf
    rw [hstates] at hfailed
    rcases hstate with h | h <;> rw [h] at hfailed <;> revert hfailed <;> decide

/-- The same report with nobody in between: the second task is blocked because the
first has failed. -/
theorem lost_failures_discarded_chain :
    (Queue.after true claimedChain (([.begin (.complete 2 failedReport), proceed 0] ++
      failedStatements ++ [.commit 0]))).committed.Justified ∧
    (Queue.after true claimedChain (([.begin (.complete 2 failedReport), proceed 0] ++
      failedStatements ++ [.commit 0]))).committed.task_runs.rows.map TaskRun.state
        = [.DEAD_LETTER, .BLOCKED] :=
  ⟨(lost_failures_discarded.1 _
    (interleaved_after requested_claimedChain (by decide +kernel))).1, by decide +kernel⟩

end Conductor
