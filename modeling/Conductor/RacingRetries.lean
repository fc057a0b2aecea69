/-
Retries of a submission that overlap.

A client that got no answer sends the request again, with the same key and the same
body. When the first request has committed, the retry finds the key and replies with
the run. When it has not, both miss the key, and they meet at its insert: the later
one is refused there, and nothing catches the `IntegrityError`.

Below: in every interleaving in which no key insert ends on a key that was committed
since the lookup, and for a request without U+0000, every request that completes replies
200 or 201 with the same run. For the rest nothing can go wrong: the workflow was
published, so it has tasks and their retry policies build, and the ids of a request are
drawn by `uuid.uuid4()`, so they are nobody else's.
-/
import Conductor.Idempotency
import Conductor.Postgres

set_option autoImplicit false

open Relational Txn

namespace Conductor

open RunRepository TaskQueueRepository WorkflowRepository

variable {checks : Bool} {db db' : Db}

/-! ## Published workflows can be run -/

/-- Every workflow has a task, and every retry policy builds. -/
structure Db.Runnable (db : Db) : Prop where
  policies : ∀ task ∈ db.tasks.rows, ∃ policy, build_policy (some task.retry_policy) = .ok policy
  tasks : ∀ w ∈ db.workflows.rows, ∃ task ∈ db.tasks.rows, task.workflow_id = w.id

theorem Db.Runnable.of_eq (h : db.Runnable) (hw : db'.workflows = db.workflows)
    (ht : db'.tasks = db.tasks) : db'.Runnable := by
  refine ⟨?_, ?_⟩
  · rw [ht]
    exact h.policies
  · rw [hw, ht]
    exact h.tasks

/-- `create` does not publish an empty workflow. -/
theorem create_specs_ne {ids : WorkflowIds} {now : Time} {name : String} {specs : List TaskSpec}
    {description : Option String} {workflow : Workflow}
    (h : exec (store checks) (create ids now name specs description) db = .ok (db', workflow)) :
    specs ≠ [] := by
  rintro rfl
  obtain ⟨_, _, hlift, -⟩ := (exec_bind_ok _).mp h
  obtain ⟨_, hcheck, -⟩ := (exec_lift_ok _).mp hlift
  cases hcheck

theorem runnable_publish (h : db.Runnable) (ids : WorkflowIds) (now : Time) (name : String)
    (specs : List TaskSpec) (description : Option String) :
    (serve checks db (.publish ids now name specs description)).Runnable := by
  cases hexec : exec (store checks) (create ids now name specs description) db with
  | error e =>
      rw [serve, commit_error hexec]
      exact h
  | ok out =>
      have hpublished := exec_create hexec
      rw [serve, commit_ok hexec]
      refine ⟨fun task htask => ?_, fun w hw => ?_⟩
      · rw [hpublished.tasks', List.mem_append] at htask
        rcases htask with htask | htask
        · exact h.policies task htask
        · obtain ⟨spec, hspec, rfl⟩ := List.mem_map.mp htask
          exact hpublished.checked.policies spec hspec
      · rw [hpublished.workflows', List.mem_append] at hw
        rw [hpublished.tasks']
        rcases hw with hw | hw
        · obtain ⟨task, htask, hid⟩ := h.tasks w hw
          exact ⟨task, List.mem_append_left _ htask, hid⟩
        · rw [List.mem_singleton.mp hw]
          obtain ⟨spec, hspec⟩ := List.exists_mem_of_ne_nil specs (create_specs_ne hexec)
          exact ⟨newTask ids spec, List.mem_append_right _ (List.mem_map_of_mem hspec),
            hpublished.workflow_id.symm⟩

theorem runnable_serve (hinv : Inv checks db) (h : db.Runnable) (op : Op) :
    (serve checks db op).Runnable := by
  cases hop : op.isQueue with
  | true =>
      obtain ⟨g, -, hstep⟩ := serve_outcome hinv hop
      exact h.of_eq hstep.rewritten.workflows hstep.rewritten.tasks
  | false =>
      cases op with
      | publish ids now name specs description =>
          exact runnable_publish h ids now name specs description
      | submit ids clock workflow_id trigger_payload =>
          rcases serve_submit checks db ids clock workflow_id trigger_payload with
            hsame | ⟨workflow, -, run, rows, hcreated⟩
          · rw [hsame]
            exact h
          · exact h.of_eq (by rw [hcreated.frame]) (by rw [hcreated.frame])
      | _ => cases hop

theorem runnable_transact (hinv : Inv checks db) (h : db.Runnable) (request : Request) :
    (transact checks db request).Runnable := by
  cases request with
  | op op => exact runnable_serve hinv h op
  | complete report =>
      obtain ⟨-, -, hserve, -⟩ := exec_complete hinv report
      rw [hserve]
      exact runnable_serve (serve_inv hinv report.op) (runnable_serve hinv h report.op) _

/-- One transaction after the other, from the empty database. -/
theorem runnable_foldl (checks : Bool) {step : Db → Request → Db}
    (hstep : ∀ db request, step db request = db ∨ step db request = transact checks db request)
    (requests : List Request) :
    Inv checks (requests.foldl step Db.empty) ∧ (requests.foldl step Db.empty).Runnable := by
  have hfold : ∀ db : Db, Inv checks db → db.Runnable →
      Inv checks (requests.foldl step db) ∧ (requests.foldl step db).Runnable := by
    induction requests with
    | nil => exact fun db hinv h => ⟨hinv, h⟩
    | cons request requests ih =>
        intro db hinv h
        rcases hstep db request with hsame | htransact
        · rw [List.foldl_cons, hsame]
          exact ih db hinv h
        · rw [List.foldl_cons, htransact]
          exact ih _ (transact_inv hinv request) (runnable_transact hinv h request)
  exact hfold Db.empty initial_empty.inv
    ⟨fun _ h => absurd h List.not_mem_nil, fun _ h => absurd h List.not_mem_nil⟩

/-- **Whatever the service has done, its workflows can be run.** -/
theorem runnable_transacted (checks : Bool) (requests : List Request) :
    Inv checks (transacted checks requests) ∧ (transacted checks requests).Runnable :=
  runnable_foldl checks (fun _ _ => .inr rfl) requests

/-! ## Flushes that do not fail -/

section Flushes

variable {I : Db → Prop} {J : Db → Db → List (Event Db) → Prop} {F : Db → Prop}
  {M : List (Event Db) → Db → Db → Prop} {own : Db} {trace : List (Event Db)}

/-- Inserting rows that pass the constraints. -/
theorem unfailing_insertRows {d : Db} {handler : Exn → Exn}
    {Q : Unit → Db → List (Event Db) → Prop}
    (hvalid : ∀ db₁ db, I db → J db own trace → F db →
      M trace (own.overlay db₁) (own.overlay db) →
      (store checks).validate .insert (own.overlay db) d = none)
    (hQ : Q () (d.overlay own) (.wrote d :: trace)) :
    Unfailing (store checks) I J M F Q (insertRows d handler) own trace := by
  intro db₁ db free rows _ _ hI hJ hF hM hrows
  cases hrows
  exact ⟨hvalid db₁ db hI hJ hF hM, hQ⟩

theorem unfailing_newTable {κ ρ : Type} {key : ρ → κ} [DecidableEq κ] {e : Exn} {rows : List ρ}
    (h : (rows.map key).Nodup) :
    Unfailing (store checks) I J M F (fun (t : Table κ ρ key) own' trace' =>
      t.rows = rows ∧ own' = own ∧ trace' = trace) (newTable key e rows) own trace := by
  unfold newTable
  rw [dif_pos h]
  exact ⟨rfl, rfl, rfl⟩

end Flushes

namespace Api

/-! ## The conditions -/

/-- Ids that are in no table. -/
structure NewIds (db : Db) (ids : RunIds) : Prop where
  run : ∀ run ∈ db.workflow_runs.rows, run.id ≠ ids.run_id
  rows : ∀ r ∈ db.task_runs.rows, r.run_id ≠ ids.run_id ∧
    ∀ task ∈ db.tasks.rows, r.id ≠ ids.task_run_id task.id
  distinct : (db.tasks.rows.map (fun task => ids.task_run_id task.id)).Nodup

instance (db : Db) (ids : RunIds) : Decidable (NewIds db ids) :=
  decidable_of_iff ((∀ run ∈ db.workflow_runs.rows, run.id ≠ ids.run_id) ∧
      (∀ r ∈ db.task_runs.rows, r.run_id ≠ ids.run_id ∧
        ∀ task ∈ db.tasks.rows, r.id ≠ ids.task_run_id task.id) ∧
      (db.tasks.rows.map (fun task => ids.task_run_id task.id)).Nodup)
    ⟨fun h => ⟨h.1, h.2.1, h.2.2⟩, fun h => ⟨h.run, h.rows, h.distinct⟩⟩

/-- Two requests that have no id in common. -/
def Apart (db : Db) (ids ids' : RunIds) : Prop :=
  ids.run_id ≠ ids'.run_id ∧ ∀ task ∈ db.tasks.rows, ∀ task' ∈ db.tasks.rows,
    ids.task_run_id task.id ≠ ids'.task_run_id task'.id

instance (db : Db) (ids ids' : RunIds) : Decidable (Apart db ids ids') :=
  inferInstanceAs (Decidable (_ ∧ _))

/-- The session has written its task rows: its next write is the key. -/
def tasksWritten (trace : List (Event Db)) : Bool :=
  trace.any (fun event =>
    match event with
    | .wrote rows => !rows.task_runs.rows.isEmpty
    | .saw _ => false)

/-- At the end of the key insert nobody has committed the key. -/
def KeyFree (post : PostRun) (trace : List (Event Db)) (_ view : Db) : Prop :=
  tasksWritten trace = true → ∀ key ∈ post.idempotency_key,
    view.idempotency_keys.get key = none

instance (post : PostRun) (trace : List (Event Db)) (started view : Db) :
    Decidable (KeyFree post trace started view) :=
  inferInstanceAs (Decidable (_ → ∀ key ∈ post.idempotency_key, _))

/-- A workflow that a body names. -/
def Names (body : RunCreate) (w : Workflow) : Prop :=
  w.name = body.workflow_name ∧ ∀ version ∈ body.workflow_version, w.version = version

/-- What the requests have in common: the key and the body. -/
def SameRequest (key : String) (body : RunCreate) (post : PostRun) : Prop :=
  post.idempotency_key = some key ∧ post.body = body

/-! ## No statement fails -/

section Unfailing

variable {fingerprint : RunCreate → String} {db₀ own : Db} {H : IdempotencyKey → Prop}
  {M : List (Event Db) → Db → Db → Prop} {F : Db → Prop} {trace : List (Event Db)}

/-- A session sees the tasks of the start. -/
theorem tasks_view (hkept : Kept db₀ H db) (hheld : Held db own trace) :
    (own.overlay db).tasks = db₀.tasks := by
  show own.tasks.overlay db.tasks = db₀.tasks
  rw [hheld.tasks, Table.empty_overlay, hkept.tasks]

theorem workflows_view (hkept : Kept db₀ H db) (hheld : Held db own trace) :
    (own.overlay db).workflows = db₀.workflows := by
  show own.workflows.overlay db.workflows = db₀.workflows
  rw [hheld.workflows, Table.empty_overlay, hkept.workflows]

/-- Every task row that a session sees is for a task that it sees. -/
theorem defined_view (hinv : Inv checks db₀) (hkept : Kept db₀ H db) (hheld : Held db own trace)
    (hown : ∀ r ∈ own.task_runs.rows, ∃ task ∈ db₀.tasks.rows, task.id = r.task_id) :
    ∀ r ∈ (own.overlay db).task_runs.rows,
      ((own.overlay db).tasks.get r.task_id).isSome = true := by
  intro r hr
  have htask : ∃ task ∈ db₀.tasks.rows, task.id = r.task_id := by
    rcases Table.mem_overlay.mp hr with hr | ⟨hr, -⟩
    · exact hown r hr
    · rcases hkept.defined r hr with hr | htask
      · obtain ⟨-, -, task, htask, -, -, hid, -⟩ := hinv.defined r hr
        exact ⟨task, htask, hid⟩
      · exact htask
  obtain ⟨task, htask, hid⟩ := htask
  rw [tasks_view hkept hheld, Table.get_eq_some.mpr ⟨htask, hid⟩]
  rfl

/-- Rows with their tasks can be rendered. -/
theorem to_response_ok {loaded : LoadedRun}
    (h : ∀ r task, (r, task) ∈ loaded.task_runs → task.isSome = true) :
    ∃ response, to_response loaded = .ok response := by
  obtain ⟨tasks, htasks⟩ := exists_forall₂ (R := fun p response => toTaskResponse p = .ok response)
    (l := loaded.task_runs) (fun p hp => by
      obtain ⟨r, task⟩ := p
      cases task with
      | none => exact absurd (h r none hp) (by simp)
      | some task => exact ⟨_, rfl⟩)
  unfold to_response
  rw [mapM_ok_iff.mpr htasks]
  exact ⟨_, rfl⟩

/-- A read. -/
theorem unfailing_read {α : Type} {k : Db → Tx α} {Q : α → Db → List (Event Db) → Prop}
    (h : ∀ db, Kept db₀ H db → Held db own trace → Unfailing (store checks) (Kept db₀ H) Held M F Q
      (k (own.overlay db)) own (.saw (own.overlay db) :: trace)) :
    Unfailing (store checks) (Kept db₀ H) Held M F Q (.read k) own trace :=
  fun db hkept hheld _ => h db hkept hheld

/-- A run that is there is loaded, and can be rendered. -/
theorem unfailing_get_with_tasks (hinv : Inv checks db₀) {run_id : UUID}
    (hown : ∀ r ∈ own.task_runs.rows, ∃ task ∈ db₀.tasks.rows, task.id = r.task_id)
    (hrun : ∀ db, Kept db₀ H db → Held db own trace →
      ((own.overlay db).workflow_runs.get run_id).isSome = true) :
    Unfailing (store checks) (Kept db₀ H) Held M F (fun loaded own' _ => own' = own ∧
      ∃ l response, loaded = some l ∧ to_response l = .ok response)
      (get_with_tasks run_id) own trace := by
  refine unfailing_read (fun db hkept hheld => ?_)
  have hsome := hrun db hkept hheld
  cases hget : (own.overlay db).workflow_runs.get run_id with
  | none =>
      rw [hget] at hsome
      cases hsome
  | some run =>
      refine unfailing_read (fun db' hkept' hheld' => ?_)
      let loaded : LoadedRun := ⟨run, ((own.overlay db').runTasks run_id).map (fun r =>
        (r, (own.overlay db').tasks.get r.task_id))⟩
      have hdefined : ∀ r task, (r, task) ∈ loaded.task_runs → task.isSome = true := by
        intro r task hmem
        obtain ⟨r', hr', he⟩ := List.mem_map.mp hmem
        cases he
        exact defined_view hinv hkept' hheld' hown r (List.mem_filter.mp hr').1
      obtain ⟨response, hresponse⟩ := to_response_ok hdefined
      exact ⟨rfl, loaded, response, rfl, hresponse⟩

/-- A retry that finds the key finds its run. -/
theorem unfailing_replay (hinv : Inv checks db₀) {post : PostRun} {key : String}
    (hkey : post.idempotency_key = some key)
    (hH : ∀ row, H row → row.key = key → row.request_hash = fingerprint post.body) :
    Unfailing (store checks) (Kept db₀ H) Held M F (fun _ own' _ => own' = Db.empty)
      (replay fingerprint post) Db.empty trace := by
  unfold replay
  rw [hkey]
  refine unfailing_read (fun db hkept hheld => ?_)
  cases hrow : (Db.empty.overlay db).idempotency_keys.get key with
  | none => rfl
  | some row =>
      obtain ⟨hmem, hrowkey⟩ := Table.get_eq_some.mp hrow
      have hhash : ¬ row.request_hash ≠ fingerprint post.body := by
        rw [empty_overlay] at hmem
        exact not_not.mpr (hH row (hkept.hashed row hmem) hrowkey)
      show Unfailing _ _ _ _ _ _ (if row.request_hash ≠ fingerprint post.body then _ else _) _ _
      rw [if_neg hhash]
      refine Unfailing.bind (unfailing_get_with_tasks hinv (fun r hr => absurd hr List.not_mem_nil)
        (fun db' hkept' hheld' => ?_)) ?_
      · -- The key row is still there, and so is its run.
        have hthere := hheld'.seen _ List.mem_cons_self row hmem
        rw [empty_overlay] at hthere ⊢
        obtain ⟨run, hrun, hid⟩ := hkept'.named row hthere
        rw [Table.get_eq_some.mpr ⟨hrun, hid⟩]
        rfl
      · rintro _ _ _ ⟨rfl, l, response, rfl, hresponse⟩
        show Unfailing _ _ _ _ _ _ (Prog.lift (to_response l) >>= fun response => _) _ _
        rw [hresponse]
        rfl

/-- The rows of a new run. -/
theorem newRow_spec {ids : RunIds} {clock : Clock} {dependencies : OrderedDict String (List String)}
    {tasks : List Task} {rows : List TaskRun}
    (h : List.Forall₂ (NewRow ids clock dependencies) tasks rows) :
    rows.map TaskRun.id = tasks.map (fun task => ids.task_run_id task.id) ∧
      rows.map TaskRun.task_id = tasks.map Task.id ∧
      ∀ r ∈ rows, r.run_id = ids.run_id ∧ r.violates = none := by
  induction h with
  | nil => exact ⟨rfl, rfl, fun r hr => absurd hr List.not_mem_nil⟩
  | @cons task row tasks rows hrow _ ih =>
      obtain ⟨policy, -, rfl⟩ := hrow
      obtain ⟨hids, htasks, hrows⟩ := ih
      refine ⟨?_, ?_, fun r hr => ?_⟩
      · rw [List.map_cons, List.map_cons, hids]
        rfl
      · rw [List.map_cons, List.map_cons, htasks]
        rfl
      · rcases List.mem_cons.mp hr with rfl | hr
        · refine ⟨rfl, (newTaskRun_lawful _ policy task).violates_eq_none.mpr ?_⟩
          have := policy.one_le_max_attempts
          simp only [newTaskRun]
          omega
        · exact hrows r hr

/-- No statement of the repository fails on new ids. -/
theorem unfailing_newRun {ids : RunIds} {clock : Clock} {workflow : Workflow}
    {dependencies : OrderedDict String (List String)} {trigger_payload : Option Dict}
    (hrunnable : db₀.Runnable) (hworkflow : workflow ∈ db₀.workflows.rows)
    (hF : ∀ db, F db → NewIds db ids)
    (hids : (db₀.tasks.rows.map (fun task => ids.task_run_id task.id)).Nodup) :
    Unfailing (store checks) (Kept db₀ H) Held M F (fun _ _ trace' => tasksWritten trace' = true)
      (RunRepository.create_run ids clock workflow dependencies trigger_payload) Db.empty
      trace := by
  unfold RunRepository.create_run
  refine Unfailing.bind (unfailing_newTable (List.nodup_singleton _)) ?_
  rintro runs _ _ ⟨hruns, rfl, rfl⟩
  refine Unfailing.bind (unfailing_insertRows (Q := fun _ own' _ =>
    own' = { Db.empty with workflow_runs := runs }) ?_ (overlay_empty _)) ?_
  · intro _ db _ _ hfresh _
    refine validate_insertRuns.mpr ⟨fun r hr s hs => ?_, fun _ r hr => ?_⟩
    · rw [hruns] at hr
      rw [empty_overlay] at hs
      rw [List.mem_singleton.mp hr]
      exact (hF db hfresh).run s hs
    · rw [hruns] at hr
      rw [List.mem_singleton.mp hr]
      rfl
  rintro _ _ trace' rfl
  -- It reads the tasks of the start.
  refine Unfailing.bind (Q := fun tasks own' _ =>
    tasks = db₀.workflowTasks workflow.id ∧ own' = { Db.empty with workflow_runs := runs }) ?_ ?_
  · intro db hkept hheld _
    refine ⟨?_, rfl⟩
    show (Db.overlay { Db.empty with workflow_runs := runs } db).workflowTasks workflow.id = _
    rw [Db.workflowTasks, tasks_view hkept hheld]
    rfl
  rintro _ _ _ ⟨rfl, rfl⟩
  obtain ⟨rows, hrows⟩ := exists_forall₂ (R := NewRow ids clock dependencies)
    (l := db₀.workflowTasks workflow.id) (fun task htask => by
      obtain ⟨policy, hpolicy⟩ := hrunnable.policies task (List.mem_filter.mp htask).1
      exact ⟨_, policy, hpolicy, rfl⟩)
  rw [mapM_newRow.mpr hrows]
  obtain ⟨hrowids, hrowtasks, hrowspec⟩ := newRow_spec hrows
  have hne : db₀.workflowTasks workflow.id ≠ [] := by
    obtain ⟨task, htask, hid⟩ := hrunnable.tasks workflow hworkflow
    exact List.ne_nil_of_mem (List.mem_filter.mpr ⟨htask, decide_eq_true hid⟩)
  show Unfailing _ _ _ _ _ _ (if (db₀.workflowTasks workflow.id).isEmpty = true then _ else _) _ _
  rw [if_neg (fun hnil => hne (List.isEmpty_iff.mp hnil))]
  refine Unfailing.bind (unfailing_newTable ?_) ?_
  · rw [hrowids]
    exact (List.filter_sublist.map _).nodup hids
  rintro table _ _ ⟨htable, rfl, rfl⟩
  refine Unfailing.bind (unfailing_insertRows (Q := fun _ _ trace' =>
    tasksWritten trace' = true) ?_ ?_) ?_
  · intro _ db hkept _ hfresh _
    have hnew := hF db hfresh
    have hrunsonly : (Db.overlay { Db.empty with workflow_runs := runs } db).task_runs
        = db.task_runs := Table.empty_overlay _
    refine validate_insertTaskRuns.mpr
      ⟨⟨fun r hr s hs => ?_, fun r hr s hs => ?_, ?_⟩, fun _ r hr => ?_⟩
    · rw [hrunsonly] at hs
      rw [htable] at hr
      have hid : r.id ∈ rows.map TaskRun.id := List.mem_map_of_mem hr
      rw [hrowids] at hid
      obtain ⟨task, htask, he⟩ := List.mem_map.mp hid
      rw [← he]
      refine (hnew.rows s hs).2 task ?_
      rw [hkept.tasks]
      exact (List.mem_filter.mp htask).1
    · rw [hrunsonly] at hs
      rw [htable] at hr
      intro hpair
      rw [(hrowspec r hr).1] at hpair
      exact (hnew.rows s hs).1 (Prod.mk.inj hpair).1
    · rw [htable]
      refine List.Nodup.of_map Prod.snd ?_
      rw [List.map_map]
      show (rows.map TaskRun.task_id).Nodup
      rw [hrowtasks]
      exact (List.filter_sublist.map _).nodup db₀.tasks.nodup
    · rw [htable] at hr
      exact (hrowspec r hr).2
  · have hrowsne : rows ≠ [] := by
      rintro rfl
      exact hne (List.forall₂_nil_right_iff.mp hrows)
    show (!table.rows.isEmpty || _) = true
    rw [htable, List.isEmpty_eq_false_iff.mpr hrowsne]
    rfl
  · rintro _ _ _ h
    exact h

/-- Creating a run with new ids. -/
theorem unfailing_create_run {ids : RunIds} {clock : Clock} {workflow : Workflow}
    {dependencies : OrderedDict String (List String)} {trigger_payload : Option Dict}
    (hrunnable : db₀.Runnable) (hworkflow : workflow ∈ db₀.workflows.rows)
    (hF : ∀ db, F db → NewIds db ids)
    (hids : (db₀.tasks.rows.map (fun task => ids.task_run_id task.id)).Nodup) :
    Unfailing (store checks) (Kept db₀ H) Held M F (fun run own' trace' =>
      tasksWritten trace' = true ∧ Wrote db₀ ids run [] own')
      (RunRepository.create_run ids clock workflow dependencies trigger_payload) Db.empty
      trace :=
  (unfailing_newRun hrunnable hworkflow hF hids).with_outline
    (outline_create_run (fun _ _ _ h => h))

/-- Inserting key rows is refused exactly when a key is taken. -/
theorem validate_insertKeys {t : Table String IdempotencyKey IdempotencyKey.key} :
    (store checks).validate .insert db { Db.empty with idempotency_keys := t } = none ↔
      ∀ r ∈ t.rows, ∀ s ∈ db.idempotency_keys.rows, s.key ≠ r.key := by
  rw [validate_insert]
  simp [Db.conflict, Db.violates, Db.empty, uniqueConflict_nil, uniqueConflict_eq_none, t.nodup]

/-- The key is inserted where nobody has committed it. -/
theorem unfailing_recordKey {post : PostRun} {run : WorkflowRun}
    (hwrote : Wrote db₀ post.ids run [] own) (htrace : tasksWritten trace = true) :
    Unfailing (store checks) (Kept db₀ H) Held (KeyFree post) F
      (fun _ own' _ => Wrote db₀ post.ids run (keyRows fingerprint post) own')
      (recordKey fingerprint post run.id) own trace := by
  have hunfailing : Unfailing (store checks) (Kept db₀ H) Held (KeyFree post) F
      (fun _ _ _ => True) (recordKey fingerprint post run.id) own trace := by
    unfold recordKey
    cases hkey : post.idempotency_key with
    | none => trivial
    | some key =>
        refine Unfailing.bind (unfailing_newTable (List.nodup_singleton _)) ?_
        rintro t _ _ ⟨ht, rfl, rfl⟩
        refine unfailing_insertRows (fun _ db _ _ _ hfree => ?_) trivial
        refine validate_insertKeys.mpr (fun r hr s hs => ?_)
        rw [ht] at hr
        rw [List.mem_singleton.mp hr]
        exact Table.get_eq_none.mp (hfree htrace key hkey) s hs
  have houtline : Outline (store checks) (Kept db₀ H) Held (KeyFree post)
      (fun _ own' _ => Wrote db₀ post.ids run (keyRows fingerprint post) own')
      (recordKey fingerprint post run.id) own trace :=
    outline_recordKey hwrote (fun _ _ h => h)
  exact (hunfailing.with_outline houtline).mono (fun _ _ _ h => h.2)

/-- The workflow that a body names is found. -/
theorem unfailing_resolve {body : RunCreate} (hexists : ∃ w ∈ db₀.workflows.rows, Names body w) :
    Unfailing (store checks) (Kept db₀ H) Held M F (fun found own' _ => own' = Db.empty ∧
      ∃ w ∈ db₀.workflows.rows, found = some w) (resolve body) Db.empty trace := by
  obtain ⟨w, hw, hname, hversion⟩ := hexists
  unfold resolve
  split
  · rename_i version hbody
    intro db hkept hheld _
    refine ⟨rfl, ?_⟩
    show ∃ w ∈ db₀.workflows.rows, (Db.empty.overlay db).workflows.rows.find? _ = some w
    rw [workflows_view hkept hheld]
    have hfound : (db₀.workflows.rows.find? (fun w =>
        w.name = body.workflow_name ∧ w.version = version)).isSome = true :=
      List.find?_isSome.mpr ⟨w, hw, decide_eq_true ⟨hname, hversion version hbody⟩⟩
    obtain ⟨w', hw'⟩ := Option.isSome_iff_exists.mp hfound
    exact ⟨w', List.mem_of_find?_eq_some hw', hw'⟩
  · intro db hkept hheld _
    refine ⟨rfl, ?_⟩
    show ∃ w ∈ db₀.workflows.rows,
      (((Db.empty.overlay db).workflows.rows.filter _).insertionSort _).head? = some w
    rw [workflows_view hkept hheld]
    generalize hsorted : (db₀.workflows.rows.filter
      (fun w => w.name = body.workflow_name)).insertionSort
      (fun v w => w.version ≤ v.version) = sorted
    have hmem : ∀ v, v ∈ sorted ↔ v ∈ db₀.workflows.rows ∧ v.name = body.workflow_name := by
      intro v
      rw [← hsorted, List.mem_insertionSort, List.mem_filter, decide_eq_true_iff]
    cases sorted with
    | nil => exact absurd ((hmem w).mpr ⟨hw, hname⟩) List.not_mem_nil
    | cons v rest => exact ⟨v, ((hmem v).mp List.mem_cons_self).1, rfl⟩

/-- **A retry does not fail**, as long as its key is free when it inserts it. -/
theorem unfailing_post (hinv : Inv checks db₀) (hrunnable : db₀.Runnable) {post : PostRun}
    {key : String} (hkey : post.idempotency_key = some key)
    (hexists : ∃ w ∈ db₀.workflows.rows, Names post.body w)
    (hH : ∀ row, H row → row.key = key → row.request_hash = fingerprint post.body)
    (hF : ∀ db, F db → NewIds db post.ids)
    (hids : (db₀.tasks.rows.map (fun task => post.ids.task_run_id task.id)).Nodup) :
    Unfailing (store checks) (Kept db₀ H) Held (KeyFree post) F (fun _ _ _ => True)
      (create_run fingerprint post) Db.empty [] := by
  unfold create_run
  refine Unfailing.bind (unfailing_replay hinv hkey hH) ?_
  rintro reply _ _ rfl
  cases reply with
  | some reply => trivial
  | none =>
      show Unfailing _ _ _ _ _ _ (startRun fingerprint post) _ _
      unfold startRun
      refine Unfailing.bind (unfailing_resolve hexists) ?_
      rintro _ _ _ ⟨rfl, workflow, hworkflow, rfl⟩
      refine Unfailing.bind (Q := fun _ own' _ => own' = Db.empty) (fun _ _ _ _ => rfl) ?_
      rintro dependencies _ _ rfl
      refine Unfailing.bind (unfailing_create_run hrunnable hworkflow hF hids) ?_
      rintro run own₁ trace₁ ⟨htrace, hrun⟩
      refine Unfailing.bind (unfailing_recordKey hrun htrace) ?_
      intro _ own₂ trace₂ hwrote
      -- The run is read back from the rows that the request has just sent.
      refine Unfailing.bind (unfailing_get_with_tasks hinv (fun r hr => ?_) (fun db _ _ => ?_)) ?_
      · obtain ⟨-, task, htask, hid, -⟩ := hwrote.rows r hr
        exact ⟨task, htask, hid⟩
      · have hmem : run ∈ (own₂.overlay db).workflow_runs.rows := by
          refine Table.mem_overlay.mpr (Or.inl ?_)
          rw [hwrote.runs]
          exact List.mem_singleton_self run
        rw [Table.get_of_mem hmem]
        rfl
      · rintro _ _ _ ⟨rfl, l, response, rfl, hresponse⟩
        show Unfailing _ _ _ _ _ _ (Prog.lift (to_response l) >>= fun response => _) _ _
        rw [hresponse]
        trivial

end Unfailing

/-! ## Every interleaving without such a race -/

/-- `uuid.uuid4()` draws ids that no row and no other open request has. -/
def DrawsNew (db₀ : Db) (s : Sys Db Exn RunReply PostRun) : Label PostRun Lock → Prop
  | .begin post => NewIds s.committed post.ids ∧
      ∀ t ∈ s.sessions.filterMap id, Apart db₀ post.ids t.call.ids
  | _ => True

instance (db₀ : Db) (s : Sys Db Exn RunReply PostRun) : DecidablePred (DrawsNew db₀ s)
  | .begin _ => inferInstanceAs (Decidable (_ ∧ _))
  | .start _ => isTrue trivial
  | .next _ _ => isTrue trivial
  | .commit _ => isTrue trivial
  | .abort _ => isTrue trivial

/-- Requests with one key and one body, under which every write statement meets
`M`. -/
def Retrying (checks : Bool) (db₀ : Db) (key : String) (body : RunCreate)
    (M : PostRun → List (Event Db) → Db → Db → Prop) (s : Sys Db Exn RunReply PostRun)
    (l : Label PostRun Lock) : Prop :=
  StepMeets (store checks) (fun _ post => SameRequest key body post) M (fun _ _ _ _ => True) s l ∧
    DrawsNew db₀ s l

/-- Every request that has completed was answered with the same run. -/
def OneAnswer (key : String) (log : List Replied) : Prop :=
  ∃ id, ∀ r ∈ log, r.call.idempotency_key = some key → r.ending = .lost ∨
    ∃ reply rows, r.ending = .committed reply rows ∧
      (reply.status_code = 200 ∨ reply.status_code = 201) ∧ reply.run.id = id

section Progress

variable {fingerprint : RunCreate → String} {db₀ : Db} {key : String} {body : RunCreate}

/-- Key rows carry the hash of the body. -/
def Hashed (fingerprint : RunCreate → String) (key : String) (body : RunCreate)
    (row : IdempotencyKey) : Prop :=
  row.key = key → row.request_hash = fingerprint body

theorem hashed_keyRows (_ : Db) (post : PostRun) (h : SameRequest key body post) :
    ∀ row ∈ keyRows fingerprint post, Hashed fingerprint key body row := by
  intro row hrow _
  obtain ⟨key', -, rfl⟩ := mem_keyRows.mp hrow
  show fingerprint post.body = _
  rw [h.2]

theorem Apart.symm {ids ids' : RunIds} (h : Apart db₀ ids ids') : Apart db₀ ids' ids :=
  ⟨h.1.symm, fun task htask task' htask' he => h.2 task' htask' task htask he.symm⟩

/-- The rows of another request leave the ids of this one new. -/
theorem NewIds.commit {own : Db} {ids : RunIds} {post : PostRun} {reply : RunReply}
    {trace : List (Event Db)} {H : IdempotencyKey → Prop} (h : NewIds db ids)
    (hkept : Kept db₀ H db) (hheld : Held db own trace) (hapart : Apart db₀ ids post.ids)
    (hanswered : Answered fingerprint db₀ post reply own trace) : NewIds (own.overlay db) ids := by
  -- A request that replayed has written nothing.
  rcases hanswered with ⟨-, rfl, -⟩ | ⟨-, -, run, hwrote⟩
  · rw [empty_overlay]
    exact h
  · have htasks : (own.overlay db).tasks = db.tasks := by
      rw [tasks_view hkept hheld, hkept.tasks]
    refine ⟨fun run' hrun' => ?_, fun r hr => ?_, ?_⟩
    · rcases Table.mem_overlay.mp hrun' with hrun' | ⟨hrun', -⟩
      · rw [hwrote.runs] at hrun'
        rw [List.mem_singleton.mp hrun', hwrote.id]
        exact hapart.1.symm
      · exact h.run run' hrun'
    · rw [htasks]
      rcases Table.mem_overlay.mp hr with hr | ⟨hr, -⟩
      · obtain ⟨hrun, task, htask, -, hid⟩ := hwrote.rows r hr
        refine ⟨?_, fun task' htask' => ?_⟩
        · rw [hrun, hwrote.id]
          exact hapart.1.symm
        · rw [hid]
          rw [hkept.tasks] at htask'
          exact (hapart.2 task' htask' task htask).symm
      · exact h.rows r hr
    · rw [htasks]
      exact h.distinct

/-- The retries keep to annotations under which nothing fails. -/
def progress (fingerprint : RunCreate → String) (key : String) (hinv : Inv checks db₀)
    (hrunnable : db₀.Runnable) (hexists : ∃ w ∈ db₀.workflows.rows, Names body w) :
    Progress (discipline (M := KeyFree) (N := fun _ _ _ _ => True) checks fingerprint db₀
      (Hashed fingerprint key body) hashed_keyRows) where
  F post db := NewIds db post.ids
  R post post' := Apart db₀ post.ids post'.ids
  begins db post hkept hsame hnew := by
    obtain ⟨hkey, rfl⟩ := hsame
    refine unfailing_post hinv hrunnable hkey hexists (fun row hrow hrowkey => hrow hrowkey)
      (fun _ h => h) ?_
    have hdistinct := hnew.distinct
    rw [hkept.tasks] at hdistinct
    exact hdistinct
  stable db post post' reply own trace hkept hnew hapart hheld hanswered :=
    hnew.commit hkept hheld hapart hanswered.1

end Progress

/-- The conditions of the retries are those of their annotations. -/
theorem Retrying.admits {fingerprint : RunCreate → String} {db₀ : Db} {key : String}
    {body : RunCreate} (hinv : Inv checks db₀) (hrunnable : db₀.Runnable)
    (hexists : ∃ w ∈ db₀.workflows.rows, Names body w) {s : Sys Db Exn RunReply PostRun}
    {l : Label PostRun Lock} (h : DrawsNew db₀ s l) :
    (progress fingerprint key hinv hrunnable hexists).Admits s l := by
  cases l with
  | begin post =>
      refine ⟨h.1, fun i t ht => ?_⟩
      have hapart := h.2 t (List.mem_filterMap.mpr ⟨some t, Sys.mem_of_session ht, rfl⟩)
      exact ⟨hapart, hapart.symm⟩
  | _ => trivial

/-- A database of the service: what whole requests have made of the empty one, and the key rows
of those that brought a key. -/
structure Serviced (checks : Bool) (db : Db) : Prop where
  requests : ∃ requests,
    { db with idempotency_keys := Table.empty } = pgTransacted checks requests
  named : KeysNamed db
  clean : db.Clean

/-- The invariant says nothing of key rows. -/
theorem inv_of_withoutKeys (h : Inv checks { db with idempotency_keys := Table.empty }) :
    Inv checks db :=
  ⟨⟨h.good.lawful, h.good.budget, h.good.runs, h.good.attempts⟩,
    h.definitions.congr rfl rfl rfl, h.unique, h.defined, h.materialised, h.run_defined,
    h.numbered, h.coherent, h.counted⟩

theorem Serviced.inv_runnable (h : Serviced checks db) : Inv checks db ∧ db.Runnable := by
  obtain ⟨requests, hrequests⟩ := h.requests
  obtain ⟨hinv, hrunnable⟩ := runnable_foldl checks
    (fun db request => pgTransact_cases db request) requests
  rw [pgTransacted] at hrequests
  rw [← hrequests] at hinv hrunnable
  exact ⟨inv_of_withoutKeys hinv, hrunnable.of_eq rfl rfl⟩

/-- Requests on PostgreSQL. -/
def PgSubmitted (checks : Bool) (fingerprint : RunCreate → String) (db₀ : Db)
    (C : Sys Db Exn RunReply PostRun → Label PostRun Lock → Prop) :
    Logged Db Exn RunReply PostRun → Prop :=
  Recorded (postgres checks) (create_run fingerprint) (· = ⟨db₀, []⟩) C

/-- PostgreSQL refuses nothing that it would have to put together. -/
theorem spares_nulRefused : (store checks).Spares nulRefused where
  empty := rfl
  overlay d e hd he := nulRefused_eq_none.mpr
    ((nulRefused_eq_none.mp he).overlay (nulRefused_eq_none.mp hd))
  keep p d hd := by
    rw [nulRefused_eq_none, Db.clean_iff] at hd ⊢
    obtain ⟨hw, ht, hr, hq, ha, hk⟩ := hd
    exact ⟨fun x hx => hw x (List.mem_of_mem_filter hx),
      fun x hx => ht x (List.mem_of_mem_filter hx), fun x hx => hr x (List.mem_of_mem_filter hx), fun x hx => hq x (List.mem_of_mem_filter hx),
      fun x hx => ha x (List.mem_of_mem_filter hx), fun x hx => hk x (List.mem_of_mem_filter hx)⟩

/-- The request brings no U+0000. -/
structure CleanRequest (fingerprint : RunCreate → String) (key : String) (body : RunCreate) :
    Prop where
  key : nulText key = false
  payload : body.payload.hasNul = false
  /-- The hash is a `hexdigest`. -/
  hash : nulText (fingerprint body) = false

theorem clean_recordKey {fingerprint : RunCreate → String} {post : PostRun}
    (hkey : ∀ key, post.idempotency_key = some key → nulText key = false)
    (hhash : nulText (fingerprint post.body) = false) (run_id : UUID) :
    (recordKey fingerprint post run_id).Writes CleanWrite := by
  unfold recordKey
  split
  · exact .ret _
  · rename_i key hsome
    refine writes_newTable (P := fun row => row.hasNul = false) (fun row hrow => ?_)
      (fun t ht => clean_insertRows (clean_idempotency_keys ht))
    rw [List.mem_singleton.mp hrow, IdempotencyKey.hasNul, Bool.or_eq_false_iff]
    exact ⟨hkey key hsome, hhash⟩

/-- **A request without U+0000** writes none. -/
theorem clean_post {fingerprint : RunCreate → String} {key : String} {body : RunCreate}
    (hclean : CleanRequest fingerprint key body) {post : PostRun}
    (hpost : SameRequest key body post) :
    (create_run fingerprint post).Writes CleanWrite := by
  obtain ⟨hkey, rfl⟩ := hpost
  refine (writes_replay fingerprint post).bind (fun reply => ?_)
  cases reply with
  | some reply => exact .ret _
  | none =>
      have hresolve : (resolve post.body).Writes CleanWrite := by
        unfold resolve
        split
        · exact .read (fun _ => .ret _)
        · exact .read (fun _ => .ret _)
      refine hresolve.bind (fun workflow => ?_)
      cases workflow with
      | none => exact .raise _
      | some workflow =>
          refine Prog.Writes.bind (.read (fun _ => .ret _)) (fun dependencies => ?_)
          refine (clean_create_run _ _ _ _ (some post.body.payload)
            hclean.payload).bind (fun run => ?_)
          refine (clean_recordKey (fun key' hsome => ?_) hclean.hash _).bind (fun _ => ?_)
          · rw [hkey] at hsome
            exact Option.some.inj hsome ▸ hclean.key
          · refine (writes_get_with_tasks _).bind (fun created => ?_)
            cases created with
            | none => exact .raise _
            | some created => exact (Prog.Writes.lift _).bind (fun _ => .ret _)

/-- **Retries get the run.** In every interleaving of requests without U+0000 in which no
key insert ends on a committed key, every request that completes replies 200 or 201 with
one run. -/
theorem retries_answered {fingerprint : RunCreate → String} {db₀ : Db} (hdb : Serviced checks db₀)
    {key : String} {body : RunCreate} (hunused : db₀.idempotency_keys.get key = none)
    (hexists : ∃ w ∈ db₀.workflows.rows, Names body w)
    (hclean : CleanRequest fingerprint key body) {s : Logged Db Exn RunReply PostRun}
    (h : PgSubmitted checks fingerprint db₀ (Retrying checks db₀ key body KeyFree) s) :
    OneAnswer key s.log := by
  obtain ⟨hinv, hrunnable⟩ := hdb.inv_runnable
  -- PostgreSQL refuses none of their texts.
  have hstored : Submitted checks fingerprint db₀ (Retrying checks db₀ key body KeyFree) s := by
    refine (Recorded.of_refusing spares_nulRefused ?_ (fun s post hl => ?_) h).1
    · rintro s rfl
      exact ⟨nulRefused_eq_none.mpr hdb.clean, rfl⟩
    · exact (clean_post hclean hl.1).mono (fun v d hd hv => hd (nulRefused_eq_none.mp hv))
  let p : Progress (discipline (M := KeyFree) (N := fun _ _ _ _ => True) checks fingerprint _
      (Hashed fingerprint key body) hashed_keyRows) :=
    progress fingerprint key hinv hrunnable hexists
  have hfailed : ∀ r ∈ s.log, ∀ e, r.ending ≠ .failed e := by
    refine p.unfailing store_lawful ?_ (Recorded.mono (fun s l hl =>
      ⟨hl.1, Retrying.admits hinv hrunnable hexists hl.2⟩) hstored)
    rintro s rfl
    exact ⟨kept_start hdb.named (fun row hrow hkey =>
      absurd hkey (Table.get_eq_none.mp hunused row hrow)), rfl⟩
  have hother : ∀ r ∈ s.log, r.ending = .lost ∨ ∃ reply rows, r.ending = .committed reply rows := by
    intro r hr
    cases hending : r.ending with
    | committed reply rows => exact Or.inr ⟨reply, rows, rfl⟩
    | failed e => exact absurd hending (hfailed r hr e)
    | lost => exact Or.inl rfl
  -- Either the key is still unused, and nobody has committed, or all have the run of the key.
  rcases (ledger hdb.named hstored hunused).1 with hunused | ⟨run, hcreated⟩
  · refine ⟨0, fun r hr hkey => (hother r hr).imp id ?_⟩
    rintro ⟨reply, rows, he⟩
    exact absurd he (hunused.replies r hr hkey reply rows)
  · refine ⟨run.id, fun r hr hkey => (hother r hr).imp id ?_⟩
    rintro ⟨reply, rows, he⟩
    exact ⟨reply, rows, he, hcreated.replies r hr hkey reply rows he⟩

/-- The requests that begin in a schedule. -/
def begun (schedule : List (Label PostRun Lock)) : List PostRun :=
  schedule.filterMap (fun l =>
    match l with
    | .begin post => some post
    | _ => none)

/-- The service with the workflow of the sample. -/
def soloService : Db := pgTransacted true publishedSolo

/-- The handlers after a schedule, with the name of the workflow for a hash. -/
def afterRetries (schedule : List (Label PostRun Lock)) : Logged Db Exn RunReply PostRun :=
  schedule.foldl (Logged.step (postgres true) (create_run RunCreate.workflow_name))
    ⟨⟨soloService, []⟩, []⟩

/-- A schedule of retries of the sample is a run of them. -/
theorem submitted_retries {M : PostRun → List (Event Db) → Db → Db → Prop}
    {schedule : List (Label PostRun Lock)} {n : List ℕ} (hposts : begun schedule = n.map retryPost)
    (h : Lts.Meets (Logged.step (postgres true) (create_run RunCreate.workflow_name))
      (fun s l => StepMeets (store true) (fun _ _ => True) M (fun _ _ _ _ => True) s.sys l ∧
        DrawsNew soloService s.sys l) ⟨⟨soloService, []⟩, []⟩ schedule) :
    PgSubmitted true RunCreate.workflow_name soloService
      (Retrying true soloService "retry" soloBody M) (afterRetries schedule) := by
  refine Lts.ReachVia.foldl (.start ⟨rfl, rfl⟩) (h.mono (fun l hl s hs => ⟨?_, hs.2⟩))
  cases l with
  | begin post =>
      have hbegun : post ∈ begun schedule := List.mem_filterMap.mpr ⟨_, hl, rfl⟩
      rw [hposts] at hbegun
      obtain ⟨n, -, rfl⟩ := List.mem_map.mp hbegun
      exact ⟨rfl, rfl⟩
  | _ => exact hs.1

theorem serviced_solo : Serviced true soloService := by
  have hkeys : soloService.idempotency_keys = Table.empty :=
    Table.ext_rows (List.isEmpty_iff.mp (by decide +kernel))
  have hclean : soloService.hasNul = false := by decide +kernel
  refine ⟨⟨publishedSolo, ?_⟩, by decide +kernel, hclean⟩
  rw [← hkeys]
  rfl

theorem named_solo : ∃ w ∈ soloService.workflows.rows, Names soloBody w := by
  have hnames : soloService.workflows.rows.map Workflow.name = ["solo"] := by
    decide +kernel
  have hmem : "solo" ∈ soloService.workflows.rows.map Workflow.name := by
    rw [hnames]
    exact List.mem_singleton_self _
  obtain ⟨w, hw, hname⟩ := List.mem_map.mp hmem
  exact ⟨w, hw, hname, fun version hversion => by cases hversion⟩

theorem clean_solo : CleanRequest RunCreate.workflow_name "retry" soloBody :=
  ⟨by decide +kernel, by decide +kernel, by decide +kernel⟩

/-- The second of two requests that have both missed the key ends in an
`IntegrityError`: a 500, for a request whose run was created. -/
theorem racing_retry_fails :
    Serviced true soloService ∧ (∃ w ∈ soloService.workflows.rows, Names soloBody w) ∧
    CleanRequest RunCreate.workflow_name "retry" soloBody ∧
    PgSubmitted true RunCreate.workflow_name soloService
      (Retrying true soloService "retry" soloBody (fun _ _ _ _ => True)) (afterRetries raced) ∧
    (afterRetries raced).log.map replyStatus = [some 201, some 500] ∧
    ¬ OneAnswer "retry" (afterRetries raced).log := by
  have hstatus : (afterRetries raced).log.map replyStatus = [some 201, some 500] := by
    decide +kernel
  have hkeys : ∀ r ∈ (afterRetries raced).log, r.call.idempotency_key = some "retry" := by
    decide +kernel
  refine ⟨serviced_solo, named_solo, clean_solo,
    submitted_retries (n := [1, 2]) rfl (by decide +kernel), hstatus, ?_⟩
  rintro ⟨id, hanswers⟩
  have hmem : some 500 ∈ (afterRetries raced).log.map replyStatus := by
    rw [hstatus]
    decide
  obtain ⟨r, hr, hrefused⟩ := List.mem_map.mp hmem
  rcases hanswers r hr (hkeys r hr) with hlost | ⟨reply, rows, hcommitted, hok, -⟩
  · rw [replyStatus, hlost] at hrefused
    cases hrefused
  · rw [replyStatus, hcommitted, Option.some.injEq] at hrefused
    omega

/-- The retry comes after the first request has committed. -/
def retriedLater : List (Label PostRun Lock) :=
  [.begin (retryPost 1), proceed 0] ++ submission 0 ++ [.commit 0, .begin (retryPost 2)] ++
    replayed 1 ++ [.commit 1]

theorem retries_answered_later :
    (afterRetries retriedLater).log.map replyStatus = [some 201, some 200] ∧
    OneAnswer "retry" (afterRetries retriedLater).log :=
  ⟨by decide +kernel, retries_answered serviced_solo (by decide +kernel) named_solo clean_solo
    (submitted_retries (n := [1, 2]) rfl (by decide +kernel))⟩

end Api

end Conductor
