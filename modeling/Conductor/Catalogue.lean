/-
The catalogue of workflows: `GET /workflows/{workflow_id}`, `GET /workflows`, and what
becomes of a definition after `POST /workflows`.

A workflow row is "immutable, versioned": nothing updates a definition, and a change is a
new version. So a caller may pin a version that it has tested. What it is shown of this
version is what the reply to its publication was, whoever publishes, submits, works or
reads in between, and a newer version is never mistaken for it.

The transactions of the service only append to the definition tables, and the rows that one
of them appends are of a workflow of its own. `KeepsDefinitions` is what every commit keeps
for this reason.
-/
import Conductor.Traffic

set_option autoImplicit false

open Relational Txn

namespace Conductor

open WorkflowRepository

variable {checks : Bool} {db db' db'' own : Db} {trace : List (Event Db)}

/-! ## The handlers -/

/-- `Repository.get`. -/
def WorkflowRepository.get (workflow_id : UUID) : Tx (Option Workflow) :=
  .read (fun db => .ret (db.workflows.get workflow_id))

namespace Api

/-- `WorkflowPage`, with the fields of its `meta`. -/
structure WorkflowPage where
  items : List WorkflowResponse
  next_cursor : Option String
  has_more : Bool

def get_workflow (lib : Stdlib) (workflow_id : UUID) : Tx WorkflowResponse := do
  match ← WorkflowRepository.get workflow_id with
  | none => .raise (.NotFoundError ("workflow " ++ lib.str workflow_id ++ " not found"))
  | some workflow => to_workflow_response workflow

/-- The responses of a page, one after the other. -/
def listedWorkflows : List Workflow → Tx (List WorkflowResponse)
  | [] => return []
  | workflow :: rest => do
      let response ← to_workflow_response workflow
      let responses ← listedWorkflows rest
      return response :: responses

/-- One page of workflows, or what is wrong with the cursor. -/
def list_workflows (lib : Stdlib) (max_page_size limit : ℕ) (cursor : Option String) :
    Tx (Except CursorError WorkflowPage) :=
  .read (fun db =>
    match WorkflowRepository.list_page lib db (min limit max_page_size) cursor with
    | .error e => .ret (.error e)
    | .ok page => do
        let items ← listedWorkflows page.items
        return .ok ⟨items, page.next_cursor, page.next_cursor.isSome⟩)

end Api

/-! ## Definitions are only added -/

/-- The workflows of `db` are there, each with its tasks and its dependencies; another one
is a newer version, if it is of the same name. -/
structure KeepsDefinitions (db db' : Db) : Prop where
  workflows : ∀ w ∈ db.workflows.rows, w ∈ db'.workflows.rows
  newer : ∀ u ∈ db'.workflows.rows, u ∈ db.workflows.rows ∨
    ∀ w ∈ db.workflows.rows, w.name = u.name → w.version < u.version
  all_tasks : ∀ t ∈ db.tasks.rows, t ∈ db'.tasks.rows
  tasks : ∀ w ∈ db.workflows.rows, db'.workflowTasks w.id = db.workflowTasks w.id
  edges : ∀ w ∈ db.workflows.rows, dependencies db' w.id = dependencies db w.id

/-- The join that `dependencies` reads, and the keys it starts from. -/
theorem dependencies_congr {workflow_id : UUID}
    (hrows : db'.task_dependencies.rows.filterMap (dependencyRow db' workflow_id) =
      db.task_dependencies.rows.filterMap (dependencyRow db workflow_id))
    (htasks : db'.workflowTasks workflow_id = db.workflowTasks workflow_id) :
    dependencies db' workflow_id = dependencies db workflow_id := by
  show (db'.task_dependencies.rows.filterMap (dependencyRow db' workflow_id)).foldl _
      (((db'.workflowTasks workflow_id).map Task.key).foldl _ _) = _
  rw [hrows, htasks]
  rfl

/-- The number that `create` gives a workflow. -/
theorem exec_create_version {ids : WorkflowIds} {now : Time} {name : String}
    {specs : List TaskSpec} {description : Option String} {workflow : Workflow}
    (h : exec (store checks) (create ids now name specs description) db = .ok (db', workflow)) :
    workflow.version = (db.versions name).foldl max 0 + 1 := by
  unfold create at h
  obtain ⟨_, _, hcheck, h⟩ := (exec_bind_ok _).mp h
  obtain ⟨_, -, he⟩ := (exec_lift_ok _).mp hcheck
  cases he
  obtain ⟨_, version, hversion, h⟩ := (exec_bind_ok _).mp h
  cases hversion
  -- Three tables are built and sent.
  obtain ⟨_, _, -, h⟩ := (exec_bind_ok _).mp h
  obtain ⟨_, _, -, h⟩ := (exec_bind_ok _).mp h
  obtain ⟨_, _, -, h⟩ := (exec_bind_ok _).mp h
  obtain ⟨_, _, -, h⟩ := (exec_bind_ok _).mp h
  obtain ⟨_, _, -, h⟩ := (exec_bind_ok _).mp h
  obtain ⟨_, _, -, h⟩ := (exec_bind_ok _).mp h
  cases h
  rfl

/-- So it is newer than what there was of its name. -/
theorem version_lt_of_create {ids : WorkflowIds} {now : Time} {name : String}
    {specs : List TaskSpec} {description : Option String} {workflow : Workflow}
    (h : exec (store checks) (create ids now name specs description) db = .ok (db', workflow)) :
    ∀ w ∈ db.workflows.rows, w.name = workflow.name → w.version < workflow.version := by
  intro w hw hname
  have hle := (foldl_max_spec (db.versions name)).2 w.version (List.mem_cons_of_mem _
    (Db.mem_versions.mpr ⟨w, hw, hname.trans (exec_create_row h).1, rfl⟩))
  rw [exec_create_version h]
  omega

/-- A workflow that a session has inserted is newer than those of its name. -/
theorem Ahead.version_lt (hs : db.Sturdy checks) (h : Ahead checks db own trace) {u w : Workflow}
    (hu : u ∈ own.workflows.rows) (hw : w ∈ db.workflows.rows) (hname : w.name = u.name) :
    w.version < u.version := by
  have hold := hs.gapless u.name
  have hboth : Numbered (db.versions u.name ++ own.versions u.name) := by
    rw [← Db.versions_overlay h.authored.workflows]
    exact h.drafted.gapless u.name
  have hu_mem : u.version ∈ own.versions u.name := Db.mem_versions.mpr ⟨u, hu, rfl, rfl⟩
  have hw_mem : w.version ∈ db.versions u.name := Db.mem_versions.mpr ⟨w, hw, hname, rfl⟩
  have hone := (hboth.mem_iff.mp (List.mem_append_right _ hu_mem)).1
  -- The numbers up to the last one of the database are taken.
  by_contra hle
  have hlast := (hold.mem_iff.mp hw_mem).2
  have htaken : u.version ∈ db.versions u.name := hold.mem_iff.mpr ⟨hone, by omega⟩
  exact List.disjoint_of_nodup_append hboth.nodup htaken hu_mem

namespace KeepsDefinitions

theorem refl (db : Db) : KeepsDefinitions db db :=
  ⟨fun _ hw => hw, fun _ hu => Or.inl hu, fun _ ht => ht, fun _ _ => rfl, fun _ _ => rfl⟩

theorem trans (h : KeepsDefinitions db db') (h' : KeepsDefinitions db' db'') :
    KeepsDefinitions db db'' where
  workflows w hw := h'.workflows w (h.workflows w hw)
  newer u hu := by
    rcases h'.newer u hu with hu | hnewer
    · exact h.newer u hu
    · exact Or.inr (fun w hw => hnewer w (h.workflows w hw))
  all_tasks t ht := h'.all_tasks t (h.all_tasks t ht)
  tasks w hw := (h'.tasks w (h.workflows w hw)).trans (h.tasks w hw)
  edges w hw := (h'.edges w (h.workflows w hw)).trans (h.edges w hw)

/-- The rows of a session follow those that are there, and are of workflows of its own. -/
theorem of_commit (hs : db.Sturdy checks) (h : Ahead checks db own trace) :
    KeepsDefinitions db (own.overlay db) := by
  have hother : ∀ w ∈ db.workflows.rows, ∀ t ∈ own.tasks.rows, t.workflow_id ≠ w.id := by
    intro w hw t ht he
    obtain ⟨u, hu, hid⟩ := h.authored.definitions.workflows t ht
    exact Table.get_eq_none.mp (h.authored.workflows u hu) w hw (he.symm.trans hid.symm)
  have hall := (h.keeps hs.rooted).tasks
  have htasks : ∀ w ∈ db.workflows.rows,
      (own.overlay db).workflowTasks w.id = db.workflowTasks w.id := by
    intro w hw
    have hnone : own.tasks.rows.filter (fun t => t.workflow_id = w.id) = [] :=
      List.filter_eq_nil_iff.mpr (fun t ht he => hother w hw t ht (of_decide_eq_true he))
    show (own.tasks.overlay db.tasks).rows.filter _ = _
    rw [Table.rows_overlay_of_new h.authored.tasks, List.filter_append, hnone, List.append_nil]
    rfl
  refine ⟨(h.keeps hs.rooted).workflows, fun u hu => ?_, hall, htasks, fun w hw =>
    dependencies_congr ?_ (htasks w hw)⟩
  · rcases Table.mem_overlay.mp hu with hmem | ⟨hold, -⟩
    · exact Or.inr (fun w hw hname => h.version_lt hs hmem hw hname)
    · exact Or.inl hold
  -- The tasks of an old edge are found as before, and a new edge is of a new workflow.
  · have hold : ∀ e ∈ db.task_dependencies.rows,
        dependencyRow (own.overlay db) w.id e = dependencyRow db w.id e := by
      intro e he
      obtain ⟨s, hs, t, ht, hsid, htid, -⟩ := hs.definitions.edges _ _ (Db.mem_parents.mpr he)
      unfold dependencyRow
      rw [← hsid, ← htid, Table.get_of_mem (hall s hs), Table.get_of_mem (hall t ht),
        Table.get_of_mem hs, Table.get_of_mem ht]
    have hown : ∀ e ∈ own.task_dependencies.rows, ∃ t ∈ own.tasks.rows, t.id = e.child_task_id := by
      intro e he
      obtain ⟨-, -, t, ht, -, hid, -⟩ := h.authored.definitions.edges _ _ (Db.mem_parents.mpr he)
      exact ⟨t, ht, hid⟩
    have hnew : ∀ e ∈ own.task_dependencies.rows, dependencyRow (own.overlay db) w.id e = none := by
      intro e he
      obtain ⟨t, ht, hid⟩ := hown e he
      have hchild : (own.overlay db).tasks.get e.child_task_id = some t :=
        hid ▸ Table.get_of_mem (Table.mem_overlay.mpr (Or.inl ht))
      unfold dependencyRow
      rw [hchild]
      cases (own.overlay db).tasks.get e.parent_task_id with
      | none => rfl
      | some parent => exact if_neg (hother w hw t ht)
    have hkeys : ∀ e ∈ own.task_dependencies.rows, db.task_dependencies.get e.pk = none := by
      intro e he
      refine Table.get_eq_none.mpr (fun e' he' hpk => ?_)
      obtain ⟨-, -, t', ht', -, hid', -⟩ := hs.definitions.edges _ _ (Db.mem_parents.mpr he')
      obtain ⟨t, ht, hid⟩ := hown e he
      exact Table.get_eq_none.mp (h.authored.tasks t ht) t' ht'
        (hid'.trans ((congrArg Prod.snd hpk).trans hid.symm))
    show (own.task_dependencies.overlay db.task_dependencies).rows.filterMap _ = _
    rw [Table.rows_overlay_of_new hkeys, List.filterMap_append, List.filterMap_congr hold,
      List.filterMap_eq_nil_iff.mpr hnew, List.append_nil]

end KeepsDefinitions

/-- **Definitions last,** whatever the service does. -/
theorem Running.keepsDefinitions {s s' : Service} (h : Running checks s)
    (hleads : Service.Leads checks s s') : KeepsDefinitions s.committed s'.committed :=
  h.between hleads .refl .trans (fun _ _ _ hs hahead _ => .of_commit hs hahead)

/-! ## What is shown of a definition -/

/-- `_to_response` at one moment. -/
def Api.workflowResponse (db : Db) (workflow : Workflow) : WorkflowResponse where
  id := workflow.id
  name := workflow.name
  version := workflow.version
  description := workflow.description
  created_at := workflow.created_at
  tasks := ((db.workflowTasks workflow.id).insertionSort (fun a b => a.key ≤ b.key)).map
    (Api.toTaskSummary (dependencies db workflow.id))

section Shown

variable {s s' s₁ : Service} {workflow : Workflow}

/-- Its two statements may see different moments: both find the definition as it was. -/
theorem watching_to_workflow_response (h : Running checks s)
    (hw : workflow ∈ s.committed.workflows.rows) (hleads : Service.Leads checks s s₁) :
    Watching (Service.Leads checks) Sys.committed (Api.to_workflow_response workflow) s₁
      (fun s₂ outcome => Service.Leads checks s s₂ ∧
        outcome = .ok (Api.workflowResponse s.committed workflow)) := by
  intro s₂ hs₂ s₃ hs₃
  have hfirst : Service.Leads checks s s₂ := hleads.trans hs₂
  have hsecond : Service.Leads checks s s₃ := hfirst.trans hs₃
  have hedges := (h.keepsDefinitions hfirst).edges workflow hw
  have htasks := (h.keepsDefinitions hsecond).tasks workflow hw
  refine ⟨hsecond, ?_⟩
  show Except.ok (WorkflowResponse.mk _ _ _ _ _ (((s₃.committed.workflowTasks
    workflow.id).insertionSort _).map
      (Api.toTaskSummary (dependencies s₂.committed workflow.id)))) = _
  rw [hedges, htasks]
  rfl

theorem watching_listedWorkflows (h : Running checks s) {workflows : List Workflow}
    (hmem : ∀ w ∈ workflows, w ∈ s.committed.workflows.rows) (hleads : Service.Leads checks s s₁) :
    Watching (Service.Leads checks) Sys.committed (Api.listedWorkflows workflows) s₁
      (fun _ outcome => outcome = .ok (workflows.map (Api.workflowResponse s.committed))) := by
  induction workflows generalizing s₁ with
  | nil => rfl
  | cons w rest ih =>
      refine Watching.bind ((watching_to_workflow_response h (hmem w List.mem_cons_self)
        hleads).mono ?_)
      rintro s₂ _ ⟨hs₂, rfl⟩
      refine Watching.bind ((ih (fun u hu => hmem u (List.mem_cons_of_mem w hu)) hs₂).mono ?_)
      rintro s₃ _ rfl
      rfl

/-- The rows of a page are rows of the table. -/
theorem mem_of_listPage {ρ : Type} {lib : Stdlib} {created_at : ρ → Time} {id : ρ → UUID}
    {rows : List ρ} {limit : ℕ} {cursor : Option String} {page : Page ρ}
    (h : listPage lib created_at id rows limit cursor = .ok page) : ∀ r ∈ page.items, r ∈ rows := by
  unfold listPage at h
  cases hstart : startOf lib cursor with
  | error e =>
      rw [hstart] at h
      cases h
  | ok start =>
      rw [hstart] at h
      have hfound : ∀ r ∈ (Keyset.newest (position created_at id)
          (rows.filter (Keyset.below (position created_at id) start))).take (limit + 1),
          r ∈ rows := fun r hr =>
        (List.mem_filter.mp ((Keyset.newest_perm _).mem_iff.mp (List.mem_of_mem_take hr))).1
      dsimp only [bind, Except.bind] at h
      split at h
      · split at h
        · cases h
        · cases h
          exact fun r hr => hfound r (List.mem_of_mem_take hr)
      · cases h
        exact hfound

/-- The newest version of a name is no older than any. -/
theorem get_latest_newest (hw : workflow ∈ db.workflows.rows) :
    ∃ latest, exec (store checks) (get_latest workflow.name) db = .ok (db, some latest) ∧
      latest ∈ db.workflows.rows ∧ latest.name = workflow.name ∧
        workflow.version ≤ latest.version := by
  have hmem : ∀ w, w ∈ (db.workflows.rows.filter (fun w => w.name = workflow.name)).insertionSort
      (fun v w => w.version ≤ v.version) ↔
        w ∈ db.workflows.rows ∧ w.name = workflow.name := by
    intro w
    rw [List.mem_insertionSort, List.mem_filter, decide_eq_true_eq]
  have hsorted : ((db.workflows.rows.filter (fun w => w.name = workflow.name)).insertionSort
      (fun v w => w.version ≤ v.version)).Pairwise (fun v w => w.version ≤ v.version) :=
    List.pairwise_insertionSort _ _
  unfold get_latest
  rw [exec_read]
  revert hmem hsorted
  generalize (db.workflows.rows.filter (fun w => w.name = workflow.name)).insertionSort
    (fun v w => w.version ≤ v.version) = sorted
  intro hmem hsorted
  cases sorted with
  | nil => exact absurd ((hmem workflow).mpr ⟨hw, rfl⟩) List.not_mem_nil
  | cons latest rest =>
      obtain ⟨hlatest, hname⟩ := (hmem latest).mp List.mem_cons_self
      refine ⟨latest, rfl, hlatest, hname, ?_⟩
      rcases List.mem_cons.mp ((hmem workflow).mpr ⟨hw, rfl⟩) with he | hrest
      · rw [he]
      · exact (List.pairwise_cons.mp hsorted).1 workflow hrest

theorem exec_create_workflow_ok {ids : WorkflowIds} {now : Time} {body : WorkflowCreate}
    {reply : WorkflowResponse}
    (h : exec (store checks) (Api.create_workflow ids now body) db = .ok (db', reply)) :
    ∃ workflow, exec (store checks) (create ids now body.name body.specs body.description) db
      = .ok (db', workflow) ∧ reply = Api.workflowResponse db' workflow := by
  unfold Api.create_workflow at h
  obtain ⟨db₁, workflow, hcreate, hread⟩ := (exec_bind_ok _).mp h
  cases hread
  exact ⟨workflow, hcreate, rfl⟩

/-- The request is a run of the service. -/
theorem leads_create_workflow {ids : WorkflowIds} {now : Time} {body : WorkflowCreate}
    {reply : WorkflowResponse} (s : Service)
    (h : exec (store checks) (Api.create_workflow ids now body) s.committed = .ok (db', reply)) :
    ∃ s', Service.Leads checks s s' ∧ s'.committed = db' := by
  refine Service.Leads.alone s (.create_workflow ids now body) (a := ()) ?_
  unfold Deed.body
  rw [exec_bind, h]
  rfl

/-- **A published version is published for good.** `POST /workflows` is a run of the service.
From there on, whatever goes on, the reply is what `GET /workflows/{workflow_id}` answers at
any time, and what any page shows of the workflow; its name and version stand for it and for
nothing else; and the latest version of the name is this one or a later one, since what is
published after it under this name has a larger version. -/
theorem published_for_good (h : Running checks s) (lib : Stdlib) {ids : WorkflowIds} {now : Time}
    {body : WorkflowCreate} {reply : WorkflowResponse}
    (hpost : exec (store checks) (Api.create_workflow ids now body) s.committed
      = .ok (db', reply)) :
    (reply.name = body.name ∧ reply.description = body.description ∧ reply.tasks =
      (body.tasks.insertionSort (fun a b => a.key ≤ b.key)).map TaskDefinition.summary) ∧
    (∃ s', Service.Leads checks s s' ∧ s'.committed = db') ∧
    ∀ s', Running checks s' → s'.committed = db' →
      Watching (Service.Leads checks) Sys.committed (Api.get_workflow lib reply.id) s'
        (fun _ outcome => outcome = .ok reply) ∧
      (∀ max_page_size limit cursor, Watching (Service.Leads checks) Sys.committed
        (Api.list_workflows lib max_page_size limit cursor) s' (fun _ outcome =>
          ∃ shown, outcome = .ok shown ∧ ∀ page, shown = .ok page →
            ∀ item ∈ page.items, item.id = reply.id → item = reply)) ∧
      ∀ s'', Service.Leads checks s' s'' →
        (∃ w, exec (store checks) (get_version reply.name reply.version) s''.committed
          = .ok (s''.committed, some w) ∧ w.id = reply.id) ∧
        (∃ w, exec (store checks) (get_latest reply.name) s''.committed
          = .ok (s''.committed, some w) ∧ w.name = reply.name ∧ reply.version ≤ w.version) ∧
        (∀ w ∈ s''.committed.workflows.rows, w ∉ db'.workflows.rows →
          w.id ≠ reply.id ∧ (w.name = reply.name → reply.version < w.version)) ∧
        ∀ ids now body out later, exec (store checks) (Api.create_workflow ids now body)
            s''.committed = .ok (out, later) →
          later.id ≠ reply.id ∧ (later.name = reply.name → reply.version < later.version) := by
  refine ⟨create_workflow_reply h.sturdy.definitions hpost, leads_create_workflow s hpost, ?_⟩
  obtain ⟨workflow, hcreate, rfl⟩ := exec_create_workflow_ok hpost
  have hpublished := exec_create hcreate
  have hmem : workflow ∈ db'.workflows.rows := by
    rw [hpublished.workflows']
    exact List.mem_append_right _ (List.mem_singleton_self _)
  rintro s' hs' rfl
  have hrow : ∀ {s₁ : Service}, Service.Leads checks s' s₁ →
      workflow ∈ s₁.committed.workflows.rows :=
    fun hleads => (hs'.keepsDefinitions hleads).workflows workflow hmem
  -- Of the others of its name, those before it are older, and those after it newer.
  have honly : ∀ {s₁ : Service}, Service.Leads checks s' s₁ → ∀ w ∈ s₁.committed.workflows.rows,
      w.name = workflow.name → w.version = workflow.version → w = workflow := by
    intro s₁ hs₁ w hw hname hversion
    rcases (hs'.keepsDefinitions hs₁).newer w hw with hw | hnewer
    · rw [hpublished.workflows', List.mem_append, List.mem_singleton] at hw
      refine hw.resolve_left (fun hold => ?_)
      exact absurd hversion (version_lt_of_create hcreate w hold hname).ne
    · exact absurd hversion (hnewer workflow hmem hname.symm).ne'
  refine ⟨fun s₁ hs₁ => ?_, fun max_page_size limit cursor s₁ hs₁ => ?_,
    fun s₁ hs₁ => ⟨?_, ?_, fun w hw hnew => ⟨fun hid => ?_, fun hname => ?_⟩, ?_⟩⟩
  · -- `get` finds the row, and the response is made of it.
    have hget : s₁.committed.workflows.get workflow.id = some workflow :=
      Table.get_eq_some.mpr ⟨hrow hs₁, rfl⟩
    show Watching _ _ ((Prog.ret (s₁.committed.workflows.get workflow.id)).bind _) s₁ _
    rw [hget]
    exact (watching_to_workflow_response hs' hmem hs₁).mono (fun _ _ hq => hq.2)
  · dsimp only
    cases hpage : WorkflowRepository.list_page lib s₁.committed (min limit max_page_size)
        cursor with
    | error e => exact ⟨_, rfl, fun page he => nomatch he⟩
    | ok page =>
        have hitems := mem_of_listPage hpage
        refine Watching.bind ((watching_listedWorkflows (hs'.leads hs₁) hitems
          (Sys.Leads.refl s₁)).mono ?_)
        rintro s₂ _ rfl
        refine ⟨_, rfl, fun shown he item hitem hid => ?_⟩
        cases he
        obtain ⟨w, hw, rfl⟩ := List.mem_map.mp hitem
        have hsame : w = workflow := s₁.committed.workflows.eq_of_key (hitems w hw) (hrow hs₁) hid
        rw [hsame, Api.workflowResponse, (hs'.keepsDefinitions hs₁).edges workflow hmem,
          (hs'.keepsDefinitions hs₁).tasks workflow hmem]
        rfl
  · show ∃ w, Except.ok (s₁.committed, s₁.committed.workflows.rows.find? _) = _ ∧ _
    cases hfind : s₁.committed.workflows.rows.find? (fun w => w.name = workflow.name ∧
        w.version = workflow.version) with
    | none =>
        exact absurd (decide_eq_true ⟨rfl, rfl⟩)
          (List.find?_eq_none.mp hfind workflow (hrow hs₁))
    | some w =>
        have hfound := List.find?_some hfind
        obtain ⟨hname, hversion⟩ := of_decide_eq_true hfound
        have hsame := honly hs₁ w (List.mem_of_find?_eq_some hfind) hname hversion
        exact ⟨w, congrArg (fun found => Except.ok (s₁.committed, found)) hfind,
          congrArg Workflow.id hsame⟩
  · obtain ⟨latest, hlatest, -, hname, hle⟩ := get_latest_newest (hrow hs₁)
    exact ⟨latest, hlatest, hname, hle⟩
  · exact hnew (s₁.committed.workflows.eq_of_key hw (hrow hs₁) hid ▸ hmem)
  · rcases (hs'.keepsDefinitions hs₁).newer w hw with hold | hnewer
    · exact absurd hold hnew
    · exact hnewer workflow hmem hname.symm
  · intro ids' now' body' out later hlater
    obtain ⟨w, hw, rfl⟩ := exec_create_workflow_ok hlater
    exact ⟨fun he => (exec_create hw).new_workflow workflow (hrow hs₁) he.symm,
      fun hname => version_lt_of_create hw workflow (hrow hs₁) hname.symm⟩

end Shown

/-- The chain, and a second version of it. -/
def firstChain : Db :=
  commit true (Api.create_workflow chainIds 0 (postedChain twoSeconds)) Db.empty

def secondChain (db : Db) : Except Exn (Db × WorkflowResponse) :=
  exec (store true) (Api.create_workflow ⟨4, fun key => if key = "a" then 5 else 6⟩ 1
    (postedChain .default)) db

/-- The version that was posted is found, and shown, when there is another one. -/
theorem published_for_good_chain :
    ∃ reply, exec (store true) (Api.create_workflow chainIds 0 (postedChain twoSeconds)) Db.empty
        = .ok (firstChain, reply) ∧
      reply.tasks.map (fun t => (t.key, t.depends_on)) = [("a", []), ("b", ["a"])] ∧
      ∃ s', Service.Leads true .unused s' ∧ s'.committed = firstChain ∧
        Watching (Service.Leads true) Sys.committed (Api.get_workflow sampleLib reply.id) s'
          (fun _ outcome => outcome = .ok reply) ∧
        ∃ s'', Service.Leads true s' s'' ∧
          s''.committed.workflows.rows.map Workflow.version = [1, 2] ∧
          ∃ w, exec (store true) (get_version reply.name reply.version) s''.committed
            = .ok (s''.committed, some w) ∧ w.id = reply.id := by
  have hfirst : (exec (store true) (Api.create_workflow chainIds 0 (postedChain twoSeconds))
      Db.empty).toOption.map (fun out => out.2.tasks.map (fun t => (t.key, t.depends_on)))
        = some [("a", []), ("b", ["a"])] := by decide +kernel
  have hsecond : (secondChain firstChain).toOption.map (fun out =>
      out.1.workflows.rows.map Workflow.version) = some [1, 2] := by decide +kernel
  cases hpost : exec (store true) (Api.create_workflow chainIds 0 (postedChain twoSeconds))
      Db.empty with
  | error e =>
      rw [hpost] at hfirst
      cases hfirst
  | ok out =>
      obtain ⟨db', reply⟩ := out
      rw [hpost] at hfirst
      obtain rfl : firstChain = db' := commit_ok hpost
      obtain ⟨-, ⟨s', hleads, hcommitted⟩, hgood⟩ :=
        published_for_good running_unused sampleLib hpost
      obtain ⟨hget, -, hlater⟩ := hgood s' (running_unused.leads hleads) hcommitted
      cases hnext : secondChain firstChain with
      | error e =>
          rw [hnext] at hsecond
          cases hsecond
      | ok out =>
          rw [hnext] at hsecond
          rw [← hcommitted] at hnext
          obtain ⟨s'', hleads', hcommitted'⟩ := leads_create_workflow s' hnext
          refine ⟨reply, rfl, Option.some.inj hfirst, s', hleads, hcommitted, hget, s'', hleads',
            ?_, (hlater s'' hleads').1⟩
          rw [hcommitted']
          exact Option.some.inj hsecond

end Conductor
