/-
`GET /runs?state=…`: following the pages of a list that changes under the reader.

Without a filter a page can only gain rows between two requests (`Pages`). With one it can
lose them too: a run leaves `RUNNING` while a client is half way through the running runs,
and another enters. The cursor is the position of the last row of a page and not a count of
rows, so neither shifts anything. No run is listed twice, and a run that is in the state all
the time is listed.

What may happen between two requests is whatever the service does (`Traffic`): the
statements of all its transactions in any interleaving, those of `POST /runs` among them.
-/
import Conductor.Traffic

set_option autoImplicit false

open Relational Txn

namespace Conductor

open RunRepository TaskQueueRepository WorkflowRepository

variable {checks : Bool} {db : Db}

/-! ## Following the pages -/

/-- A run that passes the filters of a list. -/
def Wanted (state : Option RunState) (workflow_id : Option UUID) (run : WorkflowRun) : Prop :=
  (∀ st ∈ state, run.state = st) ∧ ∀ w ∈ workflow_id, run.workflow_id = w

/-- The rows that are listed. -/
def wantedRows (state : Option RunState) (workflow_id : Option UUID) (db : Db) :
    List WorkflowRun :=
  db.workflow_runs.rows.filter (fun run =>
    state.all (fun s => decide (run.state = s)) &&
      workflow_id.all (fun w => decide (run.workflow_id = w)))

theorem mem_wantedRows {state : Option RunState} {workflow_id : Option UUID} {run : WorkflowRun} :
    run ∈ wantedRows state workflow_id db ↔
      run ∈ db.workflow_runs.rows ∧ Wanted state workflow_id run := by
  simp [wantedRows, Wanted, Option.all_eq_true]

/-- **A list that changes under its reader.** Following `next_cursor` through the runs that
pass the filters, whatever the service does between two requests: nothing is raised, the
runs come in strictly descending order and none comes twice, each passed the filters when
its page was read, and when the cursor comes to `None` every run has come that passed them
all the time. It does so before there are more full pages than runs. -/
theorem feed_neither_skips_nor_repeats {lib : Stdlib} {limit : ℕ} (hlimit : 1 ≤ limit)
    {course : ℕ → Service} (hstart : Running checks (course 0))
    (hcourse : ∀ k, Service.Leads checks (course k) (course (k + 1)))
    (hlib : ∀ k, ∀ run ∈ (course k).committed.workflow_runs.rows,
      lib.Inverts run.created_at run.id)
    (state : Option RunState) (workflow_id : Option UUID) (rounds : ℕ) :
    ∃ items ended, follow (fun k cursor => RunRepository.list_page lib (course k).committed limit
        cursor state workflow_id) rounds 0 none = .ok (items, ended) ∧
      items.Pairwise (fun a b => position WorkflowRun.created_at WorkflowRun.id b <
        position WorkflowRun.created_at WorkflowRun.id a) ∧
      (items.map WorkflowRun.id).Nodup ∧
      (∀ run ∈ items, ∃ k < rounds, run ∈ (course k).committed.workflow_runs.rows ∧
        Wanted state workflow_id run) ∧
      (ended = true → ∀ run_id, (∀ k, ∃ run ∈ (course k).committed.workflow_runs.rows,
        run.id = run_id ∧ Wanted state workflow_id run) → run_id ∈ items.map WorkflowRun.id) ∧
      ((course rounds).committed.workflow_runs.rows.length < rounds * limit → ended = true) := by
  have hrunning : ∀ k, Running checks (course k) := by
    intro k
    induction k with
    | zero => exact hstart
    | succ k ih => exact ih.leads (hcourse k)
  have hkeeps : OnlyInserts WorkflowRun.created_at WorkflowRun.id
      (fun k => (course k).committed.workflow_runs.rows) := by
    intro k run hrun
    obtain ⟨run', hrun', hsteps⟩ := ((hrunning k).keeps (hcourse k)).runs run hrun
    obtain ⟨hid, -, hcreated⟩ := RunStep.keeps_of_steps hsteps
    exact ⟨run', hrun', hid, hcreated⟩
  have hids : ∀ k, ((wantedRows state workflow_id (course k).committed).map WorkflowRun.id).Nodup :=
    fun k => (course k).committed.workflow_runs.nodup.sublist (List.filter_sublist.map _)
  have hkeys : ∀ k, ((wantedRows state workflow_id (course k).committed).map
      (position WorkflowRun.created_at WorkflowRun.id)).Nodup := fun k => nodup_positions (hids k)
  have hinverts : ∀ k, ∀ run ∈ wantedRows state workflow_id (course k).committed,
      lib.Inverts run.created_at run.id := fun k run hrun => hlib k run (mem_wantedRows.mp hrun).1
  have hfollow : follow _ _ _ none = .ok (Keyset.follow _ _ _ _ _ none) :=
    follow_eq hlimit hids hinverts rounds 0 (rfl : startOf lib none = .ok none)
  obtain ⟨hsorted, hfound⟩ := Keyset.follow_descends hlimit hkeys rounds 0 none
  have hmem : ∀ run ∈ (Keyset.follow (position WorkflowRun.created_at WorkflowRun.id) limit
      (fun k => wantedRows state workflow_id (course k).committed) rounds 0 none).1, ∃ k < rounds,
      run ∈ (course k).committed.workflow_runs.rows ∧ Wanted state workflow_id run := by
    intro run hrun
    obtain ⟨⟨k, -, hk, hrow⟩, -⟩ := hfound run hrun
    exact ⟨k, by omega, mem_wantedRows.mp hrow⟩
  -- A run has one position, whenever it is read.
  have hposition : ∀ {j k : ℕ} {a b : WorkflowRun}, a ∈ (course j).committed.workflow_runs.rows →
      b ∈ (course k).committed.workflow_runs.rows → a.id = b.id →
      position WorkflowRun.created_at WorkflowRun.id a =
        position WorkflowRun.created_at WorkflowRun.id b :=
    fun ha hb hid => hkeeps.position_eq (fun k => (course k).committed.workflow_runs.nodup)
      ha hb hid
  have hnodup : ((Keyset.follow (position WorkflowRun.created_at WorkflowRun.id) limit
      (fun k => wantedRows state workflow_id (course k).committed) rounds 0
      none).1.map WorkflowRun.id).Nodup := by
    refine List.pairwise_map.mpr (hsorted.imp_of_mem (fun {a b} ha hb hlt hid => ?_))
    obtain ⟨j, -, hj, -⟩ := hmem a ha
    obtain ⟨k, -, hk, -⟩ := hmem b hb
    rw [hposition hj hk hid] at hlt
    exact lt_irrefl _ hlt
  refine ⟨_, _, hfollow, hsorted, hnodup, hmem, fun hend run_id hstays => ?_, fun hmany => ?_⟩
  · obtain ⟨run, hrun, rfl, -⟩ := hstays 0
    have hthere : ∀ k, ∃ run' ∈ wantedRows state workflow_id (course k).committed,
        position WorkflowRun.created_at WorkflowRun.id run' =
          position WorkflowRun.created_at WorkflowRun.id run := by
      intro k
      obtain ⟨run', hrun', hid, hwanted⟩ := hstays k
      exact ⟨run', mem_wantedRows.mpr ⟨hrun', hwanted⟩, hposition hrun' hrun hid⟩
    obtain ⟨listed, hlisted, hkey⟩ := Keyset.follow_lists hlimit hkeys (fun k _ => by
        obtain ⟨run', hrun', hsame⟩ := hthere k
        exact ⟨run', hrun', hsame, rfl⟩) hend
    exact List.mem_map.mpr ⟨listed, hlisted, congrArg (fun p => (ofLex p).2) hkey⟩
  · -- Full pages of different runs, all of which are still there, would be too many.
    cases hended : (Keyset.follow (position WorkflowRun.created_at WorkflowRun.id) limit
        (fun k => wantedRows state workflow_id (course k).committed) rounds 0 none).2 with
    | true => rfl
    | false =>
        exfalso
        have hfull := Keyset.le_length_follow hended
        have hsub : (Keyset.follow (position WorkflowRun.created_at WorkflowRun.id) limit
              (fun k => wantedRows state workflow_id (course k).committed) rounds 0
              none).1.map WorkflowRun.id ⊆
            (course rounds).committed.workflow_runs.rows.map WorkflowRun.id := by
          intro id hid
          obtain ⟨run, hrun, rfl⟩ := List.mem_map.mp hid
          obtain ⟨k, hk, hrow, -⟩ := hmem run hrun
          obtain ⟨run', hrun', hid', -⟩ := hkeeps.later hk.le hrow
          exact List.mem_map.mpr ⟨run', hrun', hid'⟩
        have hle := (List.subperm_of_subset hnodup hsub).length_le
        rw [List.length_map, List.length_map] at hle
        omega

/-! ## A run that leaves the list -/

/-- Workflow 7 with the task 8, its runs 1 and 2 of one instant, and both tasks claimed. -/
def twoRuns : Service :=
  Service.after true .unused
    (Deed.wholly (.publish ⟨⟨7, fun _ => 8⟩, 0, "solo", [sampleTask "a" [] noRetry], none⟩) 4 0 ++
      Deed.wholly (.submit ⟨1, fun task => 10 + task⟩ (clockAt 0) 7 none) 4 1 ++
      Deed.wholly (.submit ⟨2, fun task => 20 + task⟩ (clockAt 0) 7 none) 4 2 ++
      Deed.wholly (.queue (.claim 30 (clockAt 0) (fun _ => 0) "w1" 1)) 4 3 ++
      Deed.wholly (.queue (.claim 30 (clockAt 0) (fun _ => 0) "w2" 1)) 4 4)

/-- Run 2 is finished while a client has read the first page. -/
def finishedRun : Service :=
  Service.after true twoRuns
    (Deed.wholly (.queue (.complete 0 ⟨28, 2, "w2", .success none, clockAt 1, fun x => x⟩)) 8 5)

def feedCourse (k : ℕ) : Service := if k = 0 then twoRuns else finishedRun

theorem feedCourse_leads (k : ℕ) : Service.Leads true (feedCourse k) (feedCourse (k + 1)) := by
  cases k with
  | zero => exact Service.leads_after twoRuns _
  | succ k => exact Sys.Leads.refl finishedRun

/-- Pages of one run each, of the runs that are recorded as `PENDING`. -/
theorem feed_neither_skips_nor_repeats_finished :
    (follow (fun k cursor => RunRepository.list_page sampleLib (feedCourse k).committed 1 cursor
        (some .PENDING) none) 3 0 none).toOption.map
      (fun out => (out.1.map WorkflowRun.id, out.2)) = some ([2, 1], true) ∧
    finishedRun.committed.workflow_runs.rows.map (fun run => (run.id, run.state))
      = [(1, .PENDING), (2, .SUCCEEDED)] ∧
    ∃ items ended, follow (fun k cursor => RunRepository.list_page sampleLib
        (feedCourse k).committed 1 cursor (some .PENDING) none) 3 0 none = .ok (items, ended) ∧
      (items.map WorkflowRun.id).Nodup := by
  have hpositions : ∀ s ∈ [twoRuns, finishedRun], ∀ run ∈ s.committed.workflow_runs.rows,
      (run.created_at, run.id) ∈ samplePositions := by
    decide +kernel
  have hlib : ∀ k, ∀ run ∈ (feedCourse k).committed.workflow_runs.rows,
      sampleLib.Inverts run.created_at run.id := by
    intro k run hrun
    have hs : feedCourse k ∈ [twoRuns, finishedRun] := by
      unfold feedCourse
      split <;> simp
    exact sampleLib_inverts (hpositions _ hs run hrun)
  have hstart : Running true (feedCourse 0) := running_unused.leads (Service.leads_after _ _)
  obtain ⟨items, ended, hfollow, -, hnodup, -⟩ := feed_neither_skips_nor_repeats (Nat.le_refl 1)
    hstart feedCourse_leads hlib (some .PENDING) none 3
  exact ⟨by decide +kernel, by decide +kernel, items, ended, hfollow, hnodup⟩

end Conductor
