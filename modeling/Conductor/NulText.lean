/-
Texts that PostgreSQL does not store.

A `text` or `JSONB` column cannot hold U+0000: a statement that writes such a value is
refused. `postgres` is the database of the other files with this one more reason to
refuse a write, so the transactions run on it as they stand. It never holds U+0000, and
a transaction that brings none is carried out as before.
-/
import Conductor.Requests

set_option autoImplicit false

open Relational Txn

namespace Conductor

open RunRepository TaskQueueRepository WorkflowRepository

/-! ## Where U+0000 can be -/

/-- The text has a U+0000 in it. -/
def nulText (s : String) : Bool := s.toList.any (fun c => c.toNat = 0)

mutual

/-- A JSON value with U+0000 in one of its strings or keys. -/
def Json.hasNul : Json → Bool
  | .null | .bool _ | .int _ | .float _ => false
  | .str s => nulText s
  | .list xs => nulValues xs
  | .object fields => nulFields fields

def nulValues : List Json → Bool
  | [] => false
  | x :: xs => x.hasNul || nulValues xs

def nulFields : List (String × Json) → Bool
  | [] => false
  | field :: fields => nulField field || nulFields fields

def nulField : String × Json → Bool
  | (key, x) => nulText key || x.hasNul

end

/-- A JSON object with U+0000 in a key or in a value. -/
def Dict.hasNul (d : Dict) : Bool := nulFields d.items

/-- The texts of a workflow are its name and its description. -/
def Workflow.hasNul (w : Workflow) : Bool := nulText w.name || w.description.any nulText

/-- A task brings the texts of its definition. -/
def Task.hasNul (t : Task) : Bool :=
  nulText t.key || nulText t.executor || t.params.hasNul || t.retry_policy.hasNul

/-- A run brings the payload that has triggered it. -/
def WorkflowRun.hasNul (r : WorkflowRun) : Bool := r.trigger_payload.hasNul

/-- A task run has texts from its worker: the name, the last error, the output. -/
def TaskRun.hasNul (r : TaskRun) : Bool :=
  r.worker_id.any nulText || r.last_error.any nulText || r.output.any Dict.hasNul

/-- So has an attempt. -/
def TaskAttempt.hasNul (a : TaskAttempt) : Bool := nulText a.worker_id || a.error.any nulText

/-- Both texts of a key come from the client. -/
def IdempotencyKey.hasNul (k : IdempotencyKey) : Bool := nulText k.key || nulText k.request_hash

/-- Some row has U+0000 in a text or JSONB column. -/
def Db.hasNul (db : Db) : Bool :=
  db.workflows.rows.any Workflow.hasNul || db.tasks.rows.any Task.hasNul ||
  db.workflow_runs.rows.any WorkflowRun.hasNul || db.task_runs.rows.any TaskRun.hasNul ||
  db.task_attempts.rows.any TaskAttempt.hasNul ||
  db.idempotency_keys.rows.any IdempotencyKey.hasNul

/-! ## The database that refuses it -/

/-- The rows of a write that PostgreSQL refuses for their texts. -/
def nulRefused (d : Db) : Option Exn := if d.hasNul then some .DataError else none

/-- The database, refusing U+0000. -/
def postgres (checks : Bool) : Txn.Store Db Exn Lock := (store checks).refusing nulRefused

/-- U+0000 is nowhere in the database. -/
def Db.Clean (db : Db) : Prop := db.hasNul = false

variable {checks : Bool} {db db' : Db}

/-- What is not refused is clean. -/
theorem nulRefused_eq_none {d : Db} : nulRefused d = none ↔ d.Clean := by
  unfold nulRefused Db.Clean
  cases d.hasNul with
  | true => exact iff_of_false (fun h => by cases h) (fun h => by cases h)
  | false => exact iff_of_true rfl rfl

theorem Db.clean_iff : db.Clean ↔
    (∀ w ∈ db.workflows.rows, w.hasNul = false) ∧ (∀ t ∈ db.tasks.rows, t.hasNul = false) ∧
    (∀ r ∈ db.workflow_runs.rows, r.hasNul = false) ∧
    (∀ r ∈ db.task_runs.rows, r.hasNul = false) ∧
    (∀ a ∈ db.task_attempts.rows, a.hasNul = false) ∧
    (∀ k ∈ db.idempotency_keys.rows, k.hasNul = false) := by
  simp only [Db.Clean, Db.hasNul, Bool.or_eq_false_iff, List.any_eq_false, Bool.not_eq_true,
    and_assoc]

/-- Clean rows over a clean database leave it clean. -/
theorem Db.Clean.overlay {d : Db} (hdb : db.Clean) (hd : d.Clean) : (d.overlay db).Clean := by
  rw [Db.clean_iff] at hdb hd ⊢
  obtain ⟨hw, ht, hr, hq, ha, hk⟩ := hdb
  obtain ⟨hw', ht', hr', hq', ha', hk'⟩ := hd
  refine ⟨fun x hx => ?_, fun x hx => ?_, fun x hx => ?_, fun x hx => ?_, fun x hx => ?_,
    fun x hx => ?_⟩
  · exact (Table.mem_overlay.mp hx).elim (hw' x) (fun h => hw x h.1)
  · exact (Table.mem_overlay.mp hx).elim (ht' x) (fun h => ht x h.1)
  · exact (Table.mem_overlay.mp hx).elim (hr' x) (fun h => hr x h.1)
  · exact (Table.mem_overlay.mp hx).elim (hq' x) (fun h => hq x h.1)
  · exact (Table.mem_overlay.mp hx).elim (ha' x) (fun h => ha x h.1)
  · exact (Table.mem_overlay.mp hx).elim (hk' x) (fun h => hk x h.1)

/-- What PostgreSQL has not refused keeps a clean view clean. -/
theorem clean_keep (v d : Db) (hv : v.Clean) (hd : nulRefused d = none) :
    ((store checks).overlay d v).Clean :=
  hv.overlay (nulRefused_eq_none.mp hd)

/-- Whatever PostgreSQL carries out, it carries out as the database does, and goes on to
hold no U+0000. -/
theorem exec_of_postgres {α : Type} {tx : Tx α} {a : α}
    (h : exec (postgres checks) tx db = .ok (db', a)) :
    exec (store checks) tx db = .ok (db', a) ∧ (db.Clean → db'.Clean) :=
  ⟨exec_of_refusing (store checks) h,
    fun hdb => exec_refusing_keeps (I := Db.Clean) (store checks) clean_keep hdb h⟩

/-! ## Transactions that bring no U+0000 -/

/-- Rows written by a statement that saw no U+0000 have none. -/
def CleanWrite (v d : Db) : Prop := v.Clean → nulRefused d = none

/-- A transaction that brings no U+0000 is carried out as without the refusal. -/
theorem exec_postgres {α : Type} {tx : Tx α} (htx : tx.Writes CleanWrite) (hdb : db.Clean) :
    exec (postgres checks) tx db = exec (store checks) tx db :=
  htx.exec_refusing (store checks) clean_keep hdb

/-- A row is clean if all three of its texts are. -/
theorem TaskRun.hasNul_eq_false {r : TaskRun} : r.hasNul = false ↔
    r.worker_id.any nulText = false ∧ r.last_error.any nulText = false ∧
      r.output.any Dict.hasNul = false := by
  simp only [TaskRun.hasNul, Bool.or_eq_false_iff, and_assoc]

section Clean

/-- Written task rows without U+0000 are not refused for their texts. -/
theorem taskRuns_not_refused {t : Table UUID TaskRun TaskRun.id}
    (h : ∀ r ∈ t.rows, r.hasNul = false) :
    nulRefused { Db.empty with task_runs := t } = none := by
  rw [nulRefused_eq_none, Db.clean_iff]
  refine ⟨?_, ?_, ?_, h, ?_, ?_⟩
  all_goals exact fun _ hx => absurd hx List.not_mem_nil

/-- Rewriting task rows so that clean ones stay clean. -/
theorem clean_updateTaskRuns {p : Db → TaskRun → Bool} {f : TaskRun → TaskRun}
    {hf : ∀ r, (f r).id = r.id} (h : ∀ r : TaskRun, r.hasNul = false → (f r).hasNul = false) :
    (updateTaskRuns p f hf).Writes CleanWrite := by
  refine .write (fun v hv => taskRuns_not_refused (fun r hr => ?_)) (fun d => .ret _)
  obtain ⟨old, hold, rfl⟩ := List.mem_map.mp hr
  exact h old ((Db.clean_iff.mp hv).2.2.2.1 old (List.mem_of_mem_filter hold))

/-- Rewriting task rows without touching their texts. -/
theorem clean_sameTexts {p : Db → TaskRun → Bool} {f : TaskRun → TaskRun}
    {hf : ∀ r, (f r).id = r.id} (h : ∀ r, (f r).worker_id = r.worker_id ∧
      (f r).last_error = r.last_error ∧ (f r).output = r.output) :
    (updateTaskRuns p f hf).Writes CleanWrite := by
  refine clean_updateTaskRuns (fun r hr => ?_)
  obtain ⟨hworker, herror, houtput⟩ := h r
  unfold TaskRun.hasNul
  rw [hworker, herror, houtput]
  exact hr

/-- An attempt is closed with a cut of the error. -/
theorem clean_close_attempt (clock : Clock) (task_run_id : UUID) (attempt : ℤ)
    (state : TaskState) {error : Option String}
    (herror : ∀ e, error = some e → nulText (pySlice e 4000) = false) :
    (close_attempt clock task_run_id attempt state error).Writes CleanWrite := by
  refine .write (fun v hv => ?_) (fun d => .ret _)
  rw [nulRefused_eq_none, Db.clean_iff]
  refine ⟨?_, ?_, ?_, ?_, fun a ha => ?_, ?_⟩
  case refine_5 =>
    obtain ⟨old, hold, rfl⟩ := List.mem_map.mp ha
    have hclean := (Db.clean_iff.mp hv).2.2.2.2.1 old (List.mem_of_mem_filter hold)
    rw [TaskAttempt.hasNul, Bool.or_eq_false_iff] at hclean ⊢
    refine ⟨hclean.1, ?_⟩
    show ((error.filter (· ≠ "")).map (pySlice · 4000)).any nulText = false
    cases hcut : error.filter (· ≠ "") with
    | none => rfl
    | some e => exact herror e (Option.filter_eq_some_iff.mp hcut).1
  all_goals exact fun _ hx => absurd hx List.not_mem_nil

/-- The state of a run is no text. -/
theorem clean_refresh_run_state (clock : Clock) (run_id : UUID) :
    (refresh_run_state clock run_id).Writes CleanWrite := by
  refine .read (fun db => .write (fun v hv => ?_) (fun d => .ret _))
  rw [nulRefused_eq_none, Db.clean_iff]
  refine ⟨?_, ?_, fun r hr => ?_, ?_, ?_, ?_⟩
  case refine_3 =>
    obtain ⟨old, hold, rfl⟩ := List.mem_map.mp hr
    exact (Db.clean_iff.mp hv).2.2.1 old (List.mem_of_mem_filter hold)
  all_goals exact fun _ hx => absurd hx List.not_mem_nil

/-- Counters and states are no texts either. -/
theorem clean_unblock_children (task_run_id : UUID) :
    (unblock_children task_run_id).Writes CleanWrite := by
  refine .read (fun v => ?_)
  cases v.task_runs.get task_run_id with
  | none => exact .ret _
  | some row =>
      exact (clean_sameTexts (f := decremented) (fun _ => ⟨rfl, rfl, rfl⟩)).bind (fun _ =>
        (clean_sameTexts (f := released) (fun _ => ⟨rfl, rfl, rfl⟩)).bind (fun _ => .ret _))

theorem clean_blockLoop (now : Time) (run_id : UUID) (rounds : ℕ) (frontier : List UUID) :
    (blockLoop now run_id rounds frontier).Writes CleanWrite := by
  induction rounds generalizing frontier with
  | zero =>
      cases frontier with
      | nil => exact .ret _
      | cons => exact .raise _
  | succ rounds ih =>
      cases frontier with
      | nil => exact .ret _
      | cons task tasks =>
          refine .read (fun v => ?_)
          dsimp only
          split
          · exact .ret _
          · refine (clean_sameTexts (f := blocked now) (fun _ => ⟨rfl, rfl, rfl⟩)).bind
              (fun rows => ?_)
            split
            · exact .ret _
            · exact ih _

theorem clean_block_descendants (clock : Clock) (rounds : ℕ) (task_run_id : UUID) :
    (block_descendants clock rounds task_run_id).Writes CleanWrite := by
  refine .read (fun v => ?_)
  cases v.task_runs.get task_run_id with
  | none => exact .ret _
  | some row => exact clean_blockLoop clock.now row.run_id rounds [row.task_id]

/-- A heartbeat writes no text. -/
theorem clean_renew_lease (lease_seconds : ℚ) (clock : Clock) (task_run_id : UUID)
    (worker_id : String) :
    (renew_lease lease_seconds clock task_run_id worker_id).Writes CleanWrite :=
  (clean_sameTexts (f := renewed (clock.utcnow + lease_seconds)) (fun _ => ⟨rfl, rfl, rfl⟩)).bind
    (fun _ => .ret _)

/-- A success writes its output. -/
theorem clean_record_success (clock : Clock) (task_run_id : UUID) (worker_id : String)
    {output : Option Dict} (houtput : (output.getD Dict.empty).hasNul = false) :
    (record_success clock task_run_id worker_id output).Writes CleanWrite := by
  refine (clean_updateTaskRuns (fun r hr => ?_)).bind (fun closed => ?_)
  · rw [TaskRun.hasNul_eq_false] at hr ⊢
    exact ⟨rfl, hr.2.1, houtput⟩
  · match closed with
    | [row] =>
        exact (clean_close_attempt _ _ _ _ (fun _ h => by cases h)).bind (fun _ =>
          (clean_unblock_children task_run_id).bind (fun _ => .ret _))
    | [] => exact .ret _
    | _ :: _ :: _ => exact .ret _

/-- A failure writes its error twice, cut to 4000 characters: into the row and into the
attempt. -/
theorem clean_record_failure (clock : Clock) (uniform : ℚ → ℚ) (rounds : ℕ) (task_run_id : UUID)
    (worker_id : String) {error : String} (herror : nulText (pySlice error 4000) = false) :
    (record_failure clock uniform rounds task_run_id worker_id error).Writes CleanWrite := by
  have hattempt : ∀ e, some error = some e → nulText (pySlice e 4000) = false := by
    rintro e ⟨⟩
    exact herror
  refine .read (fun v => ?_)
  cases v.task_runs.get task_run_id with
  | none => exact .ret _
  | some row =>
      dsimp only
      split
      · exact .ret _
      · split
        · exact .raise _
        · refine (Prog.Writes.lift _).bind (fun policy => ?_)
          refine (Prog.Writes.lift _).bind (fun delay => ?_)
          -- Both branches write the error into the row and into its attempt.
          cases delay with
          | none =>
              refine (clean_updateTaskRuns (fun r hr => ?_)).bind (fun _ =>
                (clean_close_attempt _ _ _ _ hattempt).bind (fun _ =>
                  (clean_block_descendants _ _ _).bind (fun _ => .ret _)))
              rw [TaskRun.hasNul_eq_false] at hr ⊢
              exact ⟨rfl, herror, hr.2.2⟩
          | some delay =>
              refine (clean_updateTaskRuns (fun r hr => ?_)).bind (fun _ =>
                (clean_close_attempt _ _ _ _ hattempt).bind (fun _ => .ret _))
              rw [TaskRun.hasNul_eq_false] at hr ⊢
              exact ⟨rfl, herror, hr.2.2⟩

/-- Clean rows can be inserted. -/
theorem clean_insertRows {d : Db} {handler : Exn → Exn} (hd : d.Clean) :
    (insertRows d handler).Writes CleanWrite :=
  .write (fun _ _ => nulRefused_eq_none.mpr hd) (fun _ => .ret _)

theorem clean_workflows {t : Table UUID Workflow Workflow.id}
    (h : ∀ w ∈ t.rows, w.hasNul = false) : ({ Db.empty with workflows := t } : Db).Clean := by
  rw [Db.clean_iff]
  refine ⟨h, ?_, ?_, ?_, ?_, ?_⟩
  all_goals exact fun _ hx => absurd hx List.not_mem_nil

theorem clean_tasks {t : Table UUID Task Task.id} (h : ∀ task ∈ t.rows, task.hasNul = false) :
    ({ Db.empty with tasks := t } : Db).Clean := by
  rw [Db.clean_iff]
  refine ⟨?_, h, ?_, ?_, ?_, ?_⟩
  all_goals exact fun _ hx => absurd hx List.not_mem_nil

theorem clean_workflow_runs {t : Table UUID WorkflowRun WorkflowRun.id}
    (h : ∀ run ∈ t.rows, run.hasNul = false) :
    ({ Db.empty with workflow_runs := t } : Db).Clean := by
  rw [Db.clean_iff]
  refine ⟨?_, ?_, h, ?_, ?_, ?_⟩
  all_goals exact fun _ hx => absurd hx List.not_mem_nil

theorem clean_idempotency_keys {t : Table String IdempotencyKey IdempotencyKey.key}
    (h : ∀ key ∈ t.rows, key.hasNul = false) :
    ({ Db.empty with idempotency_keys := t } : Db).Clean := by
  rw [Db.clean_iff]
  refine ⟨?_, ?_, ?_, ?_, ?_, h⟩
  all_goals exact fun _ hx => absurd hx List.not_mem_nil

/-- A run starts with the text of its payload, and no other. -/
theorem clean_create_run (ids : RunIds) (clock : Clock) (workflow : Workflow)
    (dependencies : OrderedDict String (List String)) (trigger_payload : Option Dict)
    (hpayload : (trigger_payload.getD Dict.empty).hasNul = false) :
    (RunRepository.create_run ids clock workflow dependencies trigger_payload).Writes
      CleanWrite := by
  refine writes_newTable (P := fun r => r.hasNul = false) (fun r hr => ?_) (fun t ht => ?_)
  · rw [List.mem_singleton.mp hr]
    exact hpayload
  refine (clean_insertRows (clean_workflow_runs ht)).bind (fun _ => ?_)
  refine Prog.Writes.bind (.read (fun _ => .ret _)) (fun tasks => ?_)
  cases hrows : tasks.mapM (fun task => do
      let unmet := ((OrderedDict.lookup dependencies task.key).getD []).length
      let policy ← build_policy (some task.retry_policy)
      return newTaskRun ids clock unmet policy task) with
  | error e => exact .raise _
  | ok rows =>
      have hclean : ∀ r ∈ rows, r.hasNul = false := by
        intro r hr
        obtain ⟨task, -, policy, -, rfl⟩ := exists_left_of_forall₂ (mapM_newRow.mp hrows) hr
        rfl
      show ((if tasks.isEmpty = true then _ else _ : Tx WorkflowRun)).Writes CleanWrite
      split
      · exact .raise _
      · refine writes_newTable hclean (fun t ht => ?_)
        exact (clean_insertRows (nulRefused_eq_none.mp (taskRuns_not_refused ht))).bind
          (fun _ => .ret _)

/-- The texts of a task as it is published. -/
def TaskSpec.hasNul (spec : TaskSpec) : Bool :=
  nulText spec.key || nulText spec.executor || spec.params.hasNul || spec.retry_policy.hasNul

/-- A workflow without U+0000. -/
theorem clean_create (ids : WorkflowIds) (now : Time) {name : String} {specs : List TaskSpec}
    {description : Option String} (hname : nulText name = false)
    (hspecs : ∀ spec ∈ specs, spec.hasNul = false)
    (hdescription : description.any nulText = false) :
    (create ids now name specs description).Writes CleanWrite := by
  refine (Prog.Writes.lift _).bind (fun _ => Prog.Writes.bind (.read (fun _ => .ret _))
    (fun version => ?_))
  refine writes_newTable (P := fun w => w.hasNul = false) (fun w hw => ?_) (fun t ht => ?_)
  · rw [List.mem_singleton.mp hw, Workflow.hasNul, Bool.or_eq_false_iff]
    exact ⟨hname, hdescription⟩
  refine (clean_insertRows (clean_workflows ht)).bind (fun _ => ?_)
  refine writes_newTable (P := fun task => task.hasNul = false) (fun task htask => ?_)
    (fun t ht => ?_)
  · obtain ⟨spec, hspec, rfl⟩ := List.mem_map.mp htask
    exact hspecs spec hspec
  refine (clean_insertRows (clean_tasks ht)).bind (fun _ => ?_)
  refine writes_newTable (P := fun _ => True) (fun _ _ => trivial) (fun t _ => ?_)
  -- Edges have no texts.
  have hedges : ({ Db.empty with task_dependencies := t } : Db).Clean := rfl
  exact (clean_insertRows hedges).bind (fun _ => .ret _)

/-- What a report writes has a U+0000 in it: the whole output of a success, the first
4000 characters of an error. -/
def Result.hasNul : Result → Bool
  | .success output => (output.getD Dict.empty).hasNul
  | .failure error => nulText (pySlice error 4000)

/-- A report brings one text, its output or its error. -/
theorem clean_complete (rounds : ℕ) {report : Report} (hresult : report.result.hasNul = false) :
    (complete rounds report).Writes CleanWrite := by
  have hrecord : (recordResult rounds report).Writes CleanWrite := by
    unfold recordResult recordResult_with
    cases hr : report.result with
    | success output =>
        rw [hr] at hresult
        exact clean_record_success _ _ _ hresult
    | failure error =>
        rw [hr] at hresult
        exact (clean_record_failure _ _ _ _ _ hresult).bind (fun _ => .ret _)
  exact hrecord.bind (fun _ => (clean_refresh_run_state _ _).bind (fun _ => .ret _))

end Clean

end Conductor
