/-
`scheduler/reaper.py`: how long a dead worker keeps its tasks.

The reaper "turns a worker was killed from data loss into a delay bounded by the lease
duration", and sweeps several times per lease so that the delay is not twice as long. Here
every transaction has its moment, the hosts read clocks that may be off by some `skew`, and
`run_forever` is the loop that it is: it waits, sweeps, and after a sweep that raised it
sleeps for another interval.

A row is `RUNNING` with the lease of the claim or of the renewal that came last, and the
last sweep has left no lease that was over then. That is the bound. It is not early either:
a sweep takes a task only from a worker that has been silent for its lease.
-/
import Mathlib.Algebra.Order.AbsoluteValue.Basic
import Conductor.Heartbeat
import Conductor.Lifecycle
import Conductor.Lib.Rounds

set_option autoImplicit false

open Relational Txn Rounds

namespace Conductor

open RunRepository TaskQueueRepository WorkflowRepository

variable {checks : Bool} {db : Db}

/-! ## The reaper -/

/-- How long `run_forever` waits between sweeps. -/
def Reaper.interval (settings : Settings) : ℚ := max 1 (settings.lease_seconds / 3)

/-- The moments at which the sweeps of `run_forever` commit. -/
def Reaper.run_forever (settings : Settings) (start : Time) (rounds : List Round) : List Time :=
  successes (interval settings) start rounds

/-! ## Transactions in time -/

/-- A transaction, and when it commits. -/
structure Timed where
  moment : Time
  request : Request

/-- The database after these transactions. -/
def Db.through (checks : Bool) (db : Db) (events : List Timed) : Db :=
  events.foldl (fun db e => transact checks db e.request) db

/-- A lease that a worker asks for, of one task or of those that it claims. -/
structure Lease where
  worker_id : String
  task_run_id : Option UUID
  utcnow : Time
  lease_seconds : ℚ

def Request.lease : Request → Option Lease
  | .op (.claim lease_seconds clock _ worker_id _) =>
      some ⟨worker_id, none, clock.utcnow, lease_seconds⟩
  | .op (.renew lease_seconds clock task_run_id worker_id) =>
      some ⟨worker_id, some task_run_id, clock.utcnow, lease_seconds⟩
  | _ => none

/-- What a sweep takes for the present. -/
def Request.sweep : Request → Option Time
  | .op (.reap clock) => some clock.utcnow
  | _ => none

/-- The row is held by the lease that the request asked for. -/
def Request.Grants (request : Request) (r : TaskRun) : Prop :=
  ∃ lease ∈ request.lease, (∀ id ∈ lease.task_run_id, r.id = id) ∧
    r.worker_id = some lease.worker_id ∧
      r.lease_expires_at = some (lease.utcnow + lease.lease_seconds)

/-- Transactions one after the other, by clocks that are off by `skew` at most, of workers
that have the same settings. -/
structure Timeline (settings : Settings) (skew : ℚ) (events : List Timed) : Prop where
  ordered : events.Pairwise (fun a b => a.moment ≤ b.moment)
  leases : ∀ e ∈ events, ∀ lease ∈ e.request.lease,
    |lease.utcnow - e.moment| ≤ skew ∧ lease.lease_seconds = settings.lease_seconds
  sweeps : ∀ e ∈ events, ∀ t ∈ e.request.sweep, |t - e.moment| ≤ skew

/-! ## Where a lease comes from -/

/-- A row that an operation leaves `RUNNING` is one that it gave a lease, or untouched. -/
theorem Outcome.grants {op : Op} {g : TaskRun → TaskRun} (hout : Outcome checks db op g)
    {r : TaskRun} (hrunning : (g r).state = .RUNNING) :
    (Request.op op).Grants (g r) ∨ g r = r := by
  have hite : ∀ {p : Bool} {f : TaskRun → TaskRun}, (f r).state ≠ .RUNNING →
      (if p then f r else r).state = .RUNNING → (if p then f r else r) = r := by
    intro p f hf h
    cases p with
    | true => exact absurd h hf
    | false => rfl
  cases hout with
  | refused => exact Or.inr rfl
  | lateSuccess => exact Or.inr rfl
  | lateFailure => exact Or.inr rfl
  | refreshed => exact Or.inr rfl
  | claimed lease_seconds clock tie worker_id limit =>
      dsimp only
      split
      · exact Or.inl ⟨_, rfl, nofun, rfl, rfl⟩
      · exact Or.inr rfl
  | renewed lease_seconds clock task_run_id worker_id =>
      dsimp only
      split
      · rename_i hheld
        obtain ⟨hid, hworker, -⟩ := heldBy_iff.mp hheld
        exact Or.inl ⟨_, rfl, fun id he => hid.trans (Option.some.inj he), hworker, rfl⟩
      · exact Or.inr rfl
  | succeeded clock task_run_id worker_id output =>
      refine Or.inr ?_
      unfold afterSuccess at hrunning ⊢
      split at hrunning
      · cases hrunning
      · rw [if_neg ‹_›]
        unfold afterUnblock at hrunning ⊢
        split at hrunning
        -- A waiting child stays in `PENDING` or becomes `READY`.
        · rename_i hwaiting
          rcases unblocked_state r (waitingChild_state hwaiting) with h | h <;>
            rw [h] at hrunning <;> cases hrunning
        · rw [if_neg ‹_›]
  | retried => exact Or.inr (hite (fun h => by cases h) hrunning)
  | failed clock uniform task_run_id worker_id error tasks =>
      refine Or.inr ?_
      unfold afterFailure at hrunning ⊢
      split at hrunning
      · cases hrunning
      · rw [if_neg ‹_›]
        exact hite (fun h => by cases h) hrunning
  | reaped => exact Or.inr (hite (fun h => by cases h) hrunning)
  | cancelled => exact Or.inr (hite (fun h => by cases h) hrunning)

theorem grants_serve (hinv : Inv checks db) (op : Op) {r' : TaskRun}
    (hr' : r' ∈ (serve checks db op).task_runs.rows) (hrunning : r'.state = .RUNNING) :
    (Request.op op).Grants r' ∨ r' ∈ db.task_runs.rows := by
  cases hop : op.isQueue with
  | true =>
      obtain ⟨g, hout, hstep⟩ := serve_outcome hinv hop
      obtain ⟨r, hr, rfl⟩ := hstep.rewritten.mem_rows.mp hr'
      rcases hout.grants hrunning with hgrants | hsame
      · exact Or.inl hgrants
      · rw [hsame]
        exact Or.inr hr
  | false =>
      cases op with
      | publish ids now name specs description =>
          obtain ⟨_, _, _, hserve⟩ := serve_publish_frame checks db ids now name specs description
          rw [hserve] at hr'
          exact Or.inr hr'
      | submit ids clock workflow_id trigger_payload =>
          rcases mem_task_runs_submit hinv hr' with hr' | ⟨unmet, policy, task, rfl⟩
          · exact Or.inr hr'
          -- A new row is `READY` or waits.
          · unfold newTaskRun at hrunning
            dsimp only at hrunning
            split at hrunning <;> cases hrunning
      | _ => cases hop

/-- **One transaction.** -/
theorem grants_transact (hinv : Inv checks db) (request : Request) {r : TaskRun}
    (hr : r ∈ (transact checks db request).task_runs.rows) (hrunning : r.state = .RUNNING) :
    request.Grants r ∨ r ∈ db.task_runs.rows := by
  cases request with
  | op op => exact grants_serve hinv op hr hrunning
  | complete report =>
      obtain ⟨-, -, htransact, -⟩ := exec_complete hinv report
      rw [htransact] at hr
      -- A report and a refresh give no lease.
      have hreport : ¬ (Request.op report.op).Grants r := by
        rintro ⟨lease, hlease, -⟩
        unfold Report.op at hlease
        split at hlease <;> cases hlease
      rcases grants_serve (serve_inv hinv report.op) _ hr hrunning with ⟨_, hlease, -⟩ | hr
      · cases hlease
      · exact Or.inr ((grants_serve hinv _ hr hrunning).resolve_left hreport)

/-- What a sweep leaves `RUNNING` has a lease that is not over. -/
theorem lease_of_swept (hinv : Inv checks db) (clock : Clock) {r : TaskRun}
    (hr : r ∈ (serve checks db (.reap clock)).task_runs.rows) (hrunning : r.state = .RUNNING) :
    ∃ lease, r.lease_expires_at = some lease ∧ clock.utcnow ≤ lease := by
  have hlawful := (serve_inv hinv (.reap clock)).good.lawful r hr
  obtain ⟨lease, hlease⟩ := Option.isSome_iff_exists.mp (hlawful.held hrunning).1
  refine ⟨lease, hlease, le_of_not_gt (fun hover => ?_)⟩
  obtain ⟨s, hs, rfl⟩ := (serve_reap hinv clock).rewritten.mem_rows.mp hr
  have hexpired : leaseExpired clock.utcnow s = false := by
    by_contra htrue
    rw [if_pos (Bool.of_not_eq_false htrue)] at hrunning
    cases hrunning
  rw [if_neg (by rw [hexpired]; decide)] at hlease hrunning
  rw [leaseExpired, hrunning, hlease] at hexpired
  have hnot : decide (lease < clock.utcnow) = false := hexpired
  exact of_decide_eq_false hnot hover

/-! ## Whole runs -/

theorem Db.through_inv (hinv : Inv checks db) (events : List Timed) :
    Inv checks (db.through checks events) := by
  induction events generalizing db with
  | nil => exact hinv
  | cons e rest ih => exact ih (transact_inv hinv e.request)

theorem Db.through_append (db : Db) (events events' : List Timed) :
    db.through checks (events ++ events') = (db.through checks events).through checks events' :=
  List.foldl_append

/-- A row that is `RUNNING` was given its lease since, or is as it was. -/
theorem grants_through (hinv : Inv checks db) {events : List Timed} {r : TaskRun}
    (hr : r ∈ (db.through checks events).task_runs.rows) (hrunning : r.state = .RUNNING) :
    (∃ e ∈ events, e.request.Grants r) ∨ r ∈ db.task_runs.rows := by
  induction events generalizing db with
  | nil => exact Or.inr hr
  | cons e rest ih =>
      rcases ih (transact_inv hinv e.request) hr with ⟨e', he', hgrants⟩ | hr
      · exact Or.inl ⟨e', List.mem_cons_of_mem e he', hgrants⟩
      · exact (grants_transact hinv e.request hr hrunning).imp_left
          (fun hgrants => ⟨e, List.mem_cons_self, hgrants⟩)

/-! ## Not too late, and not too early -/

section Window

variable {settings : Settings} {skew : ℚ} {events : List Timed}

/-- A lease ends about `lease_seconds` after it was asked for. -/
theorem Timeline.lease_bounds (h : Timeline settings skew events) {e : Timed} (he : e ∈ events)
    {r : TaskRun} (hgrants : e.request.Grants r) {lease_end : Time}
    (hlease : r.lease_expires_at = some lease_end) :
    lease_end ≤ e.moment + settings.lease_seconds + skew ∧
      e.moment + settings.lease_seconds ≤ lease_end + skew := by
  obtain ⟨lease, hmem, -, -, hgiven⟩ := hgrants
  obtain ⟨hskew, hseconds⟩ := h.leases e he lease hmem
  obtain rfl : lease.utcnow + lease.lease_seconds = lease_end :=
    Option.some.inj (hgiven.symm.trans hlease)
  obtain ⟨hlow, hhigh⟩ := abs_le.mp hskew
  rw [hseconds]
  exact ⟨by linarith, by linarith⟩

/-- With a sweep not long ago, the lease of a `RUNNING` row was asked for not long ago. -/
theorem heard_of_since (hinit : Initial db) (h : Timeline settings skew events) {sweep : Timed}
    (hsweep : sweep ∈ events) {clock : Clock} (hreap : sweep.request = .op (.reap clock))
    {r : TaskRun} (hr : r ∈ (db.through checks events).task_runs.rows)
    (hrunning : r.state = .RUNNING) : ∃ e ∈ events, e.request.Grants r ∧
      sweep.moment ≤ e.moment + settings.lease_seconds + 2 * skew := by
  obtain ⟨before, after, rfl⟩ := List.append_of_mem hsweep
  have hinv : Inv checks (db.through checks before) := Db.through_inv hinit.inv before
  have hswept : Inv checks (transact checks (db.through checks before) sweep.request) :=
    transact_inv hinv _
  have hskew := abs_le.mp (h.sweeps sweep hsweep clock.utcnow (by rw [hreap]; rfl))
  have hlong := settings.lease_positive
  rw [Db.through_append] at hr
  rcases grants_through hswept hr hrunning with ⟨e, he, hgrants⟩ | hr
  · -- It was asked for after the sweep.
    have hlater : sweep.moment ≤ e.moment := by
      have hordered := (List.pairwise_append.mp h.ordered).2.1
      exact (List.pairwise_cons.mp hordered).1 e he
    refine ⟨e, List.mem_append_right _ (List.mem_cons_of_mem _ he), hgrants, ?_⟩
    linarith
  · -- Or before, and then the sweep has found that it is not over.
    rw [hreap] at hr hswept
    obtain ⟨lease_end, hlease, hover⟩ := lease_of_swept hinv clock hr hrunning
    have hgranted : ∃ e ∈ before, e.request.Grants r := by
      rcases grants_transact hinv _ hr hrunning with ⟨_, hnone, -⟩ | hr
      · cases hnone
      · refine (grants_through hinit.inv hr hrunning).resolve_right (fun hold => ?_)
        rw [hinit.no_task_runs] at hold
        cases hold
    obtain ⟨e, he, hgrants⟩ := hgranted
    have hmem : e ∈ before ++ sweep :: after := List.mem_append_left _ he
    obtain ⟨hbound, -⟩ := h.lease_bounds hmem hgrants hlease
    exact ⟨e, hmem, hgrants, by linarith⟩

/-- A sweep takes a task from a worker whose lease is over, and makes it `READY`. -/
theorem silent_of_swept (hinit : Initial db) {before after : List Timed} {sweep : Timed}
    (h : Timeline settings skew (before ++ sweep :: after)) {clock : Clock}
    (hreap : sweep.request = .op (.reap clock)) {r : TaskRun}
    (hr : r ∈ (db.through checks before).task_runs.rows) (hrunning : r.state = .RUNNING)
    (hgone : r ∉ (db.through checks (before ++ [sweep])).task_runs.rows) :
    reaped r ∈ (db.through checks (before ++ [sweep])).task_runs.rows ∧
      ∀ e ∈ before, e.request.Grants r →
        e.moment + settings.lease_seconds < sweep.moment + 2 * skew := by
  have hinv : Inv checks (db.through checks before) := Db.through_inv hinit.inv before
  have hrewritten := (serve_reap hinv clock).rewritten
  have hthrough : db.through checks (before ++ [sweep]) =
      serve checks (db.through checks before) (.reap clock) := by
    rw [Db.through_append]
    show transact checks _ sweep.request = _
    rw [hreap]
    rfl
  rw [hthrough] at hgone ⊢
  have hexpired : leaseExpired clock.utcnow r = true := by
    by_contra hfalse
    refine hgone (hrewritten.mem_rows.mpr ⟨r, hr, ?_⟩)
    rw [if_neg hfalse]
  refine ⟨hrewritten.mem_rows.mpr ⟨r, hr, ?_⟩, fun e he hgrants => ?_⟩
  · rw [if_pos hexpired]
  · obtain ⟨lease_end, hlease⟩ := Option.isSome_iff_exists.mp
      ((hinv.good.lawful r hr).held hrunning).1
    have hover : lease_end < clock.utcnow := by
      rw [leaseExpired, hrunning, hlease] at hexpired
      have hlt : decide (lease_end < clock.utcnow) = true := hexpired
      exact of_decide_eq_true hlt
    have hmem : sweep ∈ before ++ sweep :: after :=
      List.mem_append_right _ List.mem_cons_self
    obtain ⟨-, hbound⟩ := h.lease_bounds (List.mem_append_left _ he) hgrants hlease
    have hskew := abs_le.mp (h.sweeps sweep hmem clock.utcnow (by rw [hreap]; rfl))
    linarith

/-- **Recovery after a crash.** While `run_forever` goes on, with sweeps that are at most
`slack` late and long and at most `f` failures in a row, a `RUNNING` task has a worker that
was heard of within a lease and the longest time between two sweeps; a worker that is dead
for longer holds nothing. And no task is taken from a worker that was heard of within a
lease; the one that is taken is `READY` again. -/
theorem dead_workers_hold_nothing (hinit : Initial db) (h : Timeline settings skew events)
    {slack : ℚ} (hslack : 0 ≤ slack) {start T : Time} {f : ℕ} {rounds : List Round}
    (hrounds : ∀ r ∈ rounds, r.Within slack) (hfails : FailsAtMost f f rounds)
    (hlong : start + gap (Reaper.interval settings) slack f ≤ T)
    (hup : T ≤ finish (Reaper.interval settings) start rounds)
    (hsweeps : ∀ s ∈ Reaper.run_forever settings start rounds, s ≤ T →
      ∃ e ∈ events, e.moment = s ∧ ∃ clock, e.request = .op (.reap clock)) :
    (∀ r ∈ (db.through checks events).task_runs.rows, r.state = .RUNNING →
      ∃ e ∈ events, e.request.Grants r ∧
        T ≤ e.moment + settings.lease_seconds + gap (Reaper.interval settings) slack f
          + 2 * skew) ∧
    (∀ worker_id dead, (∀ e ∈ events, ∀ lease ∈ e.request.lease,
        lease.worker_id = worker_id → e.moment ≤ dead) →
      dead + settings.lease_seconds + gap (Reaper.interval settings) slack f + 2 * skew < T →
      ∀ r ∈ (db.through checks events).task_runs.rows, r.worker_id ≠ some worker_id) ∧
    ∀ before sweep after, events = before ++ sweep :: after →
      ∀ clock, sweep.request = .op (.reap clock) →
      ∀ r ∈ (db.through checks before).task_runs.rows, r.state = .RUNNING →
      r ∉ (db.through checks (before ++ [sweep])).task_runs.rows →
      reaped r ∈ (db.through checks (before ++ [sweep])).task_runs.rows ∧
        ∀ e ∈ before, e.request.Grants r →
          e.moment + settings.lease_seconds < sweep.moment + 2 * skew := by
  have hinterval : 0 < Reaper.interval settings := lt_of_lt_of_le one_pos (le_max_left _ _)
  obtain ⟨s, hs, hbefore, hrecent⟩ :=
    exists_success hinterval hslack hrounds hfails hlong hup
  obtain ⟨sweep, hsweep, rfl, clock, hreap⟩ := hsweeps s hs hbefore
  have hheard : ∀ r ∈ (db.through checks events).task_runs.rows, r.state = .RUNNING →
      ∃ e ∈ events, e.request.Grants r ∧
        T ≤ e.moment + settings.lease_seconds + gap (Reaper.interval settings) slack f
          + 2 * skew := by
    intro r hr hrunning
    obtain ⟨e, he, hgrants, hbound⟩ := heard_of_since hinit h hsweep hreap hr hrunning
    exact ⟨e, he, hgrants, by linarith⟩
  refine ⟨hheard, fun worker_id dead hsilent hlate r hr hworker => ?_, ?_⟩
  · have hlawful := (Db.through_inv hinit.inv events).good.lawful r hr
    have hrunning := hlawful.running_of_worker (by rw [hworker]; rfl)
    obtain ⟨e, he, ⟨lease, hlease, hid, hgiven, huntil⟩, hbound⟩ := hheard r hr hrunning
    have hmoment := hsilent e he lease hlease (Option.some.inj (hgiven.symm.trans hworker))
    linarith
  · rintro before sweep' after rfl clock' hreap' r hr hrunning hgone
    exact silent_of_swept hinit h hreap' hr hrunning hgone

end Window

/-! ## A crash -/

/-- A worker dies with the task that it claims at 0, and the reaper sweeps every 20 s. -/
def crashed : List Timed :=
  (soloStart noRetry ++ [Op.claim 60 (clockAt 0) (fun _ => 0) "w1" 1]).map
      (fun op => ⟨0, .op op⟩) ++
    [20, 40, 60, 80].map (fun t => ⟨t, .op (.reap (clockAt t))⟩)

def punctual : List Round := List.replicate 5 ⟨0, 0, false⟩

theorem timeline_crashed : Timeline .default 0 crashed where
  ordered := by decide +kernel
  leases := by decide +kernel
  sweeps := by decide +kernel

theorem dead_workers_hold_nothing_crashed :
    (Db.empty.through true crashed).task_runs.rows.map (fun r => (r.id, r.state, r.attempt))
      = [(12, .READY, 1)] ∧
    ∀ r ∈ (Db.empty.through true crashed).task_runs.rows, r.worker_id ≠ some "w1" := by
  have hrounds : ∀ r ∈ punctual, r.Within 0 := by
    intro r hr
    rw [List.eq_of_mem_replicate hr]
    exact ⟨le_refl _, le_refl _, by decide +kernel⟩
  have hsweeps : ∀ s ∈ Reaper.run_forever .default 0 punctual, s ≤ 81 →
      s ∈ ([20, 40, 60, 80] : List ℚ) := by decide +kernel
  have hfails : FailsAtMost 0 0 punctual := by decide +kernel
  have hlong : 0 + gap (Reaper.interval .default) 0 0 ≤ 81 := by decide +kernel
  have hup : 81 ≤ finish (Reaper.interval .default) 0 punctual := by decide +kernel
  obtain ⟨-, hdead, -⟩ := dead_workers_hold_nothing initial_empty timeline_crashed (le_refl 0)
    hrounds hfails hlong hup (fun s hs hle => ⟨⟨s, .op (.reap (clockAt s))⟩,
      List.mem_append_right _ (List.mem_map_of_mem (hsweeps s hs hle)), rfl, clockAt s, rfl⟩)
  exact ⟨by decide +kernel, hdead "w1" 0 (by decide +kernel) (by decide +kernel)⟩

end Conductor
