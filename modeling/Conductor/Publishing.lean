/-
What publishing accepts, and what it stores.

The graph of a workflow is written down four times: in the lists of the specs, in the
`Dag` that `create` sorts, in edge rows between generated ids, and in the map that
`dependencies` joins them back to. Whether it is a graph to publish is decided by several
checks, each on one of these. Together they ask for what one would ask of the specs
themselves (`Publishable`), and what comes back at the far end is the specs' own lists,
up to order.

Everything `create` checks by itself comes before its first statement, so a publish that
is refused for its specs has sent nothing. The statements can still fail on rows that the
schema does not take; `Storable` and `NewWorkflowIds` say that they are not of that kind.
-/
import Conductor.Cursor
import Conductor.DagBuild
import Conductor.Lib.Numbering
import Conductor.RacingRetries

set_option autoImplicit false

open Relational Txn

namespace Conductor

variable {checks : Bool} {db db' : Db} {ids : WorkflowIds} {now : Time} {name : String}
  {specs : List TaskSpec} {description : Option String} {workflow : Workflow}

namespace WorkflowRepository

/-! ## What is accepted -/

/-- The task `l` lists `k`. -/
def DependsOn (specs : List TaskSpec) (k l : String) : Prop :=
  ∃ spec ∈ specs, spec.key = l ∧ k ∈ spec.depends_on

/-- A list of specs that describes a workflow. -/
structure Publishable (specs : List TaskSpec) : Prop where
  nonempty : specs ≠ []
  keys : (specs.map TaskSpec.key).Nodup
  known : ∀ spec ∈ specs, ∀ k ∈ spec.depends_on, k ∈ specs.map TaskSpec.key
  policies : ∀ spec ∈ specs, ∃ policy, build_policy (some spec.retry_policy) = .ok policy
  acyclic : ∀ k, ¬ Relation.TransGen (DependsOn specs) k k

/-- No key is counted twice. -/
theorem repeated_eq_nil {keys : List String} (h : keys.Nodup) :
    keys.filter (fun key => 1 < keys.count key) = [] := by
  refine List.filter_eq_nil_iff.mpr (fun key _ => ?_)
  have hcount := List.nodup_iff_count_le_one.mp h key
  rw [decide_eq_true_eq]
  omega

/-- No dependency is reported as unknown. -/
theorem unknown_eq_nil {depends_on known : List String} (h : ∀ k ∈ depends_on, k ∈ known) :
    depends_on.filter (· ∉ known) = [] := by
  refine List.filter_eq_nil_iff.mpr (fun k hk hunknown => ?_)
  exact of_decide_eq_true hunknown (h k hk)

theorem checkTasks_isOk {known : List String}
    (hknown : ∀ spec ∈ specs, ∀ k ∈ spec.depends_on, k ∈ known)
    (hpolicies : ∀ spec ∈ specs, ∃ policy, build_policy (some spec.retry_policy) = .ok policy) :
    checkTasks known specs = .ok () := by
  induction specs with
  | nil => rfl
  | cons spec rest ih =>
      obtain ⟨policy, hpolicy⟩ := hpolicies spec List.mem_cons_self
      unfold checkTasks
      dsimp only
      rw [unknown_eq_nil (hknown spec List.mem_cons_self), hpolicy]
      exact ih (fun s hs => hknown s (List.mem_cons_of_mem spec hs))
        (fun s hs => hpolicies s (List.mem_cons_of_mem spec hs))

/-- The edges of the graph that `create` sorts are the listed dependencies. -/
theorem parentsOf_eq (hkeys : (specs.map TaskSpec.key).Nodup) {dag : Dag String}
    (hdag : Dag.from_dependencies (dependencyMap specs) = .ok dag) :
    (fun k l => k ∈ dag.parentsOf l) = DependsOn specs := by
  funext k l
  exact propext (Published.parentsOf_iff hkeys hdag)

/-- A list of known dependencies without a loop is a graph. -/
theorem Publishable.exists_dag (h : Publishable specs) :
    ∃ dag, Dag.from_dependencies (dependencyMap specs) = .ok dag := by
  obtain ⟨hkeys, hlookup⟩ := dependencyMap_spec h.keys
  refine Dag.from_dependencies_isOk.mpr (fun n parents hlook p hp => ?_)
  obtain ⟨spec, hspec, rfl, rfl⟩ := (hlookup n parents).mp hlook
  refine ⟨?_, ?_⟩
  · rw [hkeys]
    exact h.known spec hspec p hp
  · rintro rfl
    exact h.acyclic _ (.single ⟨spec, hspec, rfl, hp⟩)

/-- **The checks of `create` are those of a workflow.** -/
theorem checkSpecs_iff : checkSpecs specs = .ok () ↔ Publishable specs := by
  constructor
  · intro h
    have hchecked := checkSpecs_ok h
    refine ⟨?_, hchecked.keys, hchecked.known, hchecked.policies, ?_⟩
    · rintro rfl
      cases h
    -- The graph could be sorted, so it has no loop.
    · obtain ⟨dag, order, hdag, horder⟩ := hchecked.sorted
      rw [← parentsOf_eq hchecked.keys hdag]
      exact (Dag.topological_order_isOk (Dag.from_dependencies_ok hdag).1).mp ⟨order, horder⟩
  · intro h
    obtain ⟨dag, hdag⟩ := h.exists_dag
    have hacyclic := h.acyclic
    rw [← parentsOf_eq h.keys hdag] at hacyclic
    obtain ⟨order, horder⟩ :=
      (Dag.topological_order_isOk (Dag.from_dependencies_ok hdag).1).mpr hacyclic
    unfold checkSpecs
    dsimp only
    rw [List.isEmpty_eq_false_iff.mpr h.nonempty, if_neg Bool.false_ne_true,
      repeated_eq_nil h.keys, checkTasks_isOk h.known h.policies, hdag]
    dsimp only
    rw [horder]
    rfl

instance (specs : List TaskSpec) : Decidable (Publishable specs) :=
  decidable_of_iff ((checkSpecs specs).toBool = true) (by
    rw [← checkSpecs_iff]
    cases checkSpecs specs with
    | error e => exact iff_of_false Bool.false_ne_true nofun
    | ok _ => exact iff_of_true rfl rfl)

/-! ## What is stored -/

theorem keys_foldl_nil (keys : List String) (d : OrderedDict String (List String)) (k : String) :
    k ∈ OrderedDict.keys (keys.foldl (fun d key => OrderedDict.set d key []) d) ↔
      k ∈ OrderedDict.keys d ∨ k ∈ keys := by
  induction keys generalizing d with
  | nil => exact (or_iff_left List.not_mem_nil).symm
  | cons key rest ih =>
      rw [List.foldl_cons, ih, OrderedDict.keys_set, List.mem_cons]
      split
      · rename_i hkey
        constructor
        · rintro (hk | hk)
          · exact Or.inl hk
          · exact Or.inr (Or.inr hk)
        · rintro (hk | rfl | hk)
          · exact Or.inl hk
          · exact Or.inl hkey
          · exact Or.inr hk
      · rw [List.mem_append, List.mem_singleton, or_assoc]

/-- The map has the keys of the workflow's tasks. -/
theorem mem_keys_dependencies {workflow_id : UUID} {k : String} :
    k ∈ OrderedDict.keys (dependencies db workflow_id) ↔
      ∃ t ∈ db.tasks.rows, t.workflow_id = workflow_id ∧ t.key = k := by
  unfold dependencies
  dsimp only
  rw [← OrderedDict.lookup_isSome, lookup_foldl_append, Option.isSome_map,
    OrderedDict.lookup_isSome, keys_foldl_nil,
    or_iff_right (show k ∉ OrderedDict.keys Table.empty from List.not_mem_nil), List.mem_map]
  simp only [List.mem_filter, decide_eq_true_eq, and_assoc]

/-- What it lists for a task are the keys of the task's parents, each once. -/
theorem lookup_dependencies_spec (hd : db.Definitions) {t : Task} (ht : t ∈ db.tasks.rows) :
    ∃ parents, OrderedDict.lookup (dependencies db t.workflow_id) t.key = some parents ∧
      parents.Nodup ∧
      ∀ k, k ∈ parents ↔ ∃ s ∈ db.tasks.rows, s.id ∈ db.parents t.id ∧ s.key = k := by
  refine ⟨_, lookup_dependencies hd ht, ?_, fun k => ?_⟩
  · refine List.pairwise_filterMap.mpr ?_
    have hedges := (List.Nodup.of_map _ db.task_dependencies.nodup).filter
      (fun e => decide (e.child_task_id = t.id))
    refine hedges.imp_of_mem (fun he hf hne k hk l hl hkl => hne ?_)
    rename_i e f
    obtain ⟨hemem, hechild⟩ := List.mem_filter.mp he
    obtain ⟨hfmem, hfchild⟩ := List.mem_filter.mp hf
    obtain ⟨s, hs, rfl⟩ := Option.map_eq_some_iff.mp hk
    obtain ⟨u, hu, rfl⟩ := Option.map_eq_some_iff.mp hl
    obtain ⟨hsmem, hsid⟩ := Table.get_eq_some.mp hs
    obtain ⟨humem, huid⟩ := Table.get_eq_some.mp hu
    have hchild : e.child_task_id = f.child_task_id :=
      (of_decide_eq_true hechild).trans (of_decide_eq_true hfchild).symm
    -- The two parents are in the workflow of the child, where a key names one task.
    have hworkflow : ∀ x ∈ db.task_dependencies.rows, ∀ r ∈ db.tasks.rows,
        r.id = x.parent_task_id → x.child_task_id = t.id → r.workflow_id = t.workflow_id := by
      intro x hx r hr hid hxt
      obtain ⟨p, hp, c, hc, hpid, hcid, hw⟩ := hd.edges _ _ (Db.mem_parents.mpr hx)
      rw [db.tasks.eq_of_key hr hp (hid.trans hpid.symm), hw,
        db.tasks.eq_of_key hc ht (hcid.trans hxt)]
    have hsame : s = u := hd.keys s hsmem u humem
      ((hworkflow e hemem s hsmem hsid (of_decide_eq_true hechild)).trans
        (hworkflow f hfmem u humem huid (of_decide_eq_true hfchild)).symm) hkl
    have hparent : e.parent_task_id = f.parent_task_id := by
      rw [← hsid, ← huid, hsame]
    cases e
    cases f
    cases hchild
    cases hparent
    rfl
  · simp only [List.mem_filterMap, List.mem_filter, decide_eq_true_eq, Option.map_eq_some_iff]
    constructor
    · rintro ⟨e, ⟨he, hchild⟩, s, hs, rfl⟩
      obtain ⟨hsmem, hsid⟩ := Table.get_eq_some.mp hs
      refine ⟨s, hsmem, ?_, rfl⟩
      rw [hsid, ← hchild]
      exact Db.mem_parents.mpr he
    · rintro ⟨s, hs, hparent, rfl⟩
      exact ⟨⟨s.id, t.id⟩, ⟨Db.mem_parents.mp hparent, rfl⟩, s, Table.get_of_mem hs, rfl⟩

end WorkflowRepository

open WorkflowRepository

/-- **The map of a stored workflow lists the dependencies of its specs.** -/
theorem Stored.dependencies (hd : db.Definitions) (h : Stored ids specs db) {spec : TaskSpec}
    (hspec : spec ∈ specs) : ∃ parents,
      OrderedDict.lookup (WorkflowRepository.dependencies db ids.workflow_id) spec.key
        = some parents ∧ parents.Nodup ∧ ∀ k, k ∈ parents ↔ k ∈ spec.depends_on := by
  obtain ⟨parents, hlook, hnodup, hmem⟩ := lookup_dependencies_spec hd (h.mem spec hspec)
  refine ⟨parents, hlook, hnodup, fun k => ?_⟩
  rw [hmem]
  constructor
  · rintro ⟨s, hs, hparent, rfl⟩
    obtain ⟨k, hk, hid⟩ := (h.parents spec hspec s.id).mp hparent
    -- The parent row is in the workflow of its child, so one of the specs made it.
    obtain ⟨p, hp, c, hc, hpid, hcid, hw⟩ := hd.edges _ _ hparent
    have hworkflow : s.workflow_id = ids.workflow_id := by
      rw [db.tasks.eq_of_key hs hp hpid.symm, hw,
        db.tasks.eq_of_key hc (h.mem spec hspec) hcid]
      rfl
    obtain ⟨spec', hspec', rfl⟩ := h.only s hs hworkflow
    have hkey : k = spec'.key := h.inj k (h.checked.known spec hspec k hk) spec'.key
      (List.mem_map_of_mem hspec') hid
    rw [hkey] at hk
    exact hk
  · intro hk
    obtain ⟨spec', hspec', rfl⟩ := List.mem_map.mp (h.checked.known spec hspec k hk)
    exact ⟨_, h.mem spec' hspec', (h.parents spec hspec _).mpr ⟨_, hk, rfl⟩, rfl⟩

/-! ## Publishing -/

/-- Values that the columns take, and no dependency listed twice. -/
structure Storable (spec : TaskSpec) : Prop where
  key : spec.key ≠ ""
  timeout : 0 < spec.timeout_seconds
  once : spec.depends_on.Nodup
  /-- The budget of a task run is an `INTEGER`. -/
  attempts : ∀ policy ∈ (build_policy (some spec.retry_policy)).toOption,
    policy.max_attempts < 2 ^ 31

instance (spec : TaskSpec) : Decidable (Storable spec) :=
  decidable_of_iff (spec.key ≠ "" ∧ 0 < spec.timeout_seconds ∧ spec.depends_on.Nodup ∧
      ∀ policy ∈ (build_policy (some spec.retry_policy)).toOption, policy.max_attempts < 2 ^ 31)
    ⟨fun h => ⟨h.1, h.2.1, h.2.2.1, h.2.2.2⟩, fun h => ⟨h.key, h.timeout, h.once, h.attempts⟩⟩

/-- Ids that no row has, one for each key. -/
structure NewWorkflowIds (db : Db) (ids : WorkflowIds) (specs : List TaskSpec) : Prop where
  workflow : ∀ w ∈ db.workflows.rows, w.id ≠ ids.workflow_id
  tasks : ∀ t ∈ db.tasks.rows, ∀ spec ∈ specs, t.id ≠ ids.task_id spec.key
  distinct : ∀ k ∈ specs.map TaskSpec.key, ∀ l ∈ specs.map TaskSpec.key,
    ids.task_id k = ids.task_id l → k = l

instance (db : Db) (ids : WorkflowIds) (specs : List TaskSpec) :
    Decidable (NewWorkflowIds db ids specs) :=
  decidable_of_iff ((∀ w ∈ db.workflows.rows, w.id ≠ ids.workflow_id) ∧
      (∀ t ∈ db.tasks.rows, ∀ spec ∈ specs, t.id ≠ ids.task_id spec.key) ∧
      ∀ k ∈ specs.map TaskSpec.key, ∀ l ∈ specs.map TaskSpec.key,
        ids.task_id k = ids.task_id l → k = l)
    ⟨fun h => ⟨h.1, h.2.1, h.2.2⟩, fun h => ⟨h.workflow, h.tasks, h.distinct⟩⟩

section Create

variable (hpublishable : Publishable specs)
  (hinj : ∀ k ∈ specs.map TaskSpec.key, ∀ l ∈ specs.map TaskSpec.key,
    ids.task_id k = ids.task_id l → k = l)
include hpublishable hinj

theorem nodup_newTasks : ((specs.map (newTask ids)).map Task.id).Nodup := by
  have hkeys := hpublishable.keys.map_on hinj
  rw [List.map_map] at hkeys ⊢
  exact hkeys

/-- Two edges of one parent and one child come from one entry of one list. -/
theorem nodup_newDependencies (hstorable : ∀ spec ∈ specs, Storable spec) :
    ((newDependencies ids specs).map TaskDependency.pk).Nodup := by
  have hedges : (newDependencies ids specs).Nodup := by
    refine List.nodup_flatMap.mpr ⟨fun spec hspec => ?_, ?_⟩
    · refine (hstorable spec hspec).once.map_on (fun k hk l hl he => ?_)
      exact hinj k (hpublishable.known spec hspec k hk) l
        (hpublishable.known spec hspec l hl) (congrArg TaskDependency.parent_task_id he)
    · refine (List.Nodup.of_map _ hpublishable.keys).imp_of_mem (fun {s t} hs ht hne => ?_)
      intro e hes het
      obtain ⟨k, -, rfl⟩ := List.mem_map.mp hes
      obtain ⟨l, -, he⟩ := List.mem_map.mp het
      have hkey : t.key = s.key := hinj _ (List.mem_map_of_mem ht) _
        (List.mem_map_of_mem hs) (congrArg TaskDependency.child_task_id he)
      exact hne (List.inj_on_of_nodup_map hpublishable.keys hs ht hkey.symm)
  refine hedges.map_on (fun e _ f _ he => ?_)
  cases e
  cases f
  cases he
  rfl

end Create

/-! ## The three flushes -/

section Flushes

variable {view : Db}

/-- A workflow with a new id and a new version. -/
theorem validate_newWorkflow {t : Table UUID Workflow Workflow.id} (ht : t.rows = [workflow])
    (hid : ∀ w ∈ view.workflows.rows, w.id ≠ workflow.id)
    (hversion : ∀ w ∈ view.workflows.rows, w.name = workflow.name → w.version ≠ workflow.version)
    (hpositive : 1 ≤ workflow.version) :
    (store checks).validate .insert view { Db.empty with workflows := t } = none := by
  refine validate_insertWorkflows.mpr ⟨⟨fun w hw v hv => ?_, fun w hw v hv he => ?_, ?_⟩,
    fun _ w hw => ?_⟩
  · rw [ht, List.mem_singleton] at hw
    rw [hw]
    exact hid v hv
  · rw [ht, List.mem_singleton] at hw
    rw [hw] at he
    obtain ⟨hname, hsame⟩ := Prod.mk.inj he
    exact hversion v hv hname hsame
  · rw [ht]
    exact List.nodup_singleton _
  · rw [ht, List.mem_singleton] at hw
    rw [hw, Workflow.violates, if_neg (by omega)]

/-- Tasks with new ids, in a workflow that has none yet. -/
theorem validate_newTasks {t : Table UUID Task Task.id} (ht : t.rows = specs.map (newTask ids))
    (hkeys : (specs.map TaskSpec.key).Nodup) (hstorable : ∀ spec ∈ specs, Storable spec)
    (hnew : ∀ r ∈ view.tasks.rows, r.workflow_id ≠ ids.workflow_id ∧
      ∀ spec ∈ specs, r.id ≠ ids.task_id spec.key) :
    (store checks).validate .insert view { Db.empty with tasks := t } = none := by
  refine validate_insertTasks.mpr ⟨⟨fun s hs r hr => ?_, fun s hs r hr he => ?_, ?_⟩,
    fun _ s hs => ?_⟩
  · rw [ht] at hs
    obtain ⟨spec, hspec, rfl⟩ := List.mem_map.mp hs
    exact (hnew r hr).2 spec hspec
  · rw [ht] at hs
    obtain ⟨spec, hspec, rfl⟩ := List.mem_map.mp hs
    exact (hnew r hr).1 (Prod.mk.inj he).1
  -- The keys are distinct, so the pairs of workflow and key are.
  · rw [ht, List.map_map]
    refine List.Nodup.of_map Prod.snd ?_
    rw [List.map_map]
    exact hkeys
  · rw [ht] at hs
    obtain ⟨spec, hspec, rfl⟩ := List.mem_map.mp hs
    have hblank : ¬ (newTask ids spec).key.isEmpty = true :=
      fun h => (hstorable spec hspec).key (String.isEmpty_iff.mp h)
    have htimeout : ¬ (newTask ids spec).timeout_seconds ≤ 0 :=
      not_le.mpr (hstorable spec hspec).timeout
    rw [Task.violates, if_neg htimeout, if_neg hblank]

/-- Edges into tasks that have none yet. -/
theorem validate_newDependencies {t : Table (UUID × UUID) TaskDependency TaskDependency.pk}
    (ht : t.rows = newDependencies ids specs) (hpublishable : Publishable specs)
    (hinj : ∀ k ∈ specs.map TaskSpec.key, ∀ l ∈ specs.map TaskSpec.key,
      ids.task_id k = ids.task_id l → k = l)
    (hnew : ∀ e ∈ view.task_dependencies.rows, ∀ spec ∈ specs,
      e.child_task_id ≠ ids.task_id spec.key) :
    (store checks).validate .insert view { Db.empty with task_dependencies := t } = none := by
  refine validate_insertDependencies.mpr ⟨fun e he f hf hpk => ?_, fun _ e he => ?_⟩
  · rw [ht] at he
    obtain ⟨spec, hspec, hchild, -⟩ := Published.mem_newDependencies.mp he
    exact hnew f hf spec hspec ((Prod.mk.inj hpk).2.trans hchild.symm)
  · rw [ht] at he
    obtain ⟨spec, hspec, hchild, k, hk, hparent⟩ := Published.mem_newDependencies.mp he
    refine if_neg (fun hloop => ?_)
    rw [← hparent, ← hchild] at hloop
    have hkey : k = spec.key := hinj k (hpublishable.known spec hspec k hk) spec.key
      (List.mem_map_of_mem hspec) hloop
    rw [hkey] at hk
    exact hpublishable.acyclic spec.key (.single ⟨spec, hspec, rfl, hk⟩)

end Flushes

/-- **A workflow that can be published is**, when nobody else publishes. -/
theorem exec_create_isOk (hd : db.Definitions) (hstorable : ∀ spec ∈ specs, Storable spec)
    (hids : NewWorkflowIds db ids specs) (hpublishable : Publishable specs) :
    ∃ out, exec (store checks) (create ids now name specs description) db = .ok out := by
  have hversions := foldl_max_spec
    ((db.workflows.rows.filter (fun w => w.name = name)).map Workflow.version)
  unfold create
  refine (exec_bind_isOk _).mpr ⟨db, (), (exec_lift_ok _).mpr
    ⟨(), checkSpecs_iff.mpr hpublishable, rfl⟩, ?_⟩
  refine (exec_bind_isOk _).mpr ⟨db, _, rfl, ?_⟩
  refine (exec_bind_isOk _).mpr ⟨db, _, exec_newTable.mpr ⟨List.nodup_singleton _, rfl⟩, ?_⟩
  refine (exec_bind_isOk _).mpr ⟨_, (), exec_flush.mpr ⟨?_, rfl⟩, ?_⟩
  · refine validate_newWorkflow rfl hids.workflow (fun w hw hname hsame => ?_) ?_
    · have hle := hversions.2 w.version (List.mem_cons_of_mem 0
        (List.mem_map_of_mem (List.mem_filter.mpr ⟨hw, decide_eq_true hname⟩)))
      dsimp only at hsame
      omega
    · have hle := hversions.2 0 List.mem_cons_self
      dsimp only
      omega
  rw [overlay_workflows]
  refine (exec_bind_isOk _).mpr ⟨_, _,
    exec_newTable.mpr ⟨nodup_newTasks hpublishable hids.distinct, rfl⟩, ?_⟩
  refine (exec_bind_isOk _).mpr ⟨_, (), exec_flush.mpr ⟨?_, rfl⟩, ?_⟩
  · refine validate_newTasks rfl hpublishable.keys hstorable
      (fun r hr => ⟨fun hw => ?_, fun spec hspec => ?_⟩)
    · obtain ⟨w, hmem, hid⟩ := hd.workflows r hr
      exact hids.workflow w hmem (hid.trans hw)
    · exact hids.tasks r hr spec hspec
  rw [overlay_tasks]
  refine (exec_bind_isOk _).mpr ⟨_, _, exec_newTable.mpr
    ⟨nodup_newDependencies hpublishable hids.distinct hstorable, rfl⟩, ?_⟩
  refine (exec_bind_isOk _).mpr ⟨_, (), exec_flush.mpr ⟨?_, rfl⟩, _, rfl⟩
  refine validate_newDependencies rfl hpublishable hids.distinct (fun e he spec hspec hchild => ?_)
  -- Both ends of an old edge are old tasks.
  obtain ⟨-, -, t, ht, -, hid, -⟩ := hd.edges _ _ (Db.mem_parents.mpr he)
  exact hids.tasks t ht spec hspec (hid.trans hchild)

/-! ## Running what was published -/

/-- A run of a workflow with tasks can be created. -/
theorem exec_create_run_isOk (checks : Bool) {run_ids : RunIds} (clock : Clock)
    (listed : OrderedDict String (List String)) (trigger_payload : Option Dict)
    (hids : Api.NewIds db run_ids) (htasks : db.workflowTasks workflow.id ≠ [])
    (hpolicies : ∀ t ∈ db.workflowTasks workflow.id,
      ∃ policy, build_policy (some t.retry_policy) = .ok policy) :
    ∃ out, exec (store checks)
      (RunRepository.create_run run_ids clock workflow listed trigger_payload) db = .ok out := by
  obtain ⟨rows, hrows⟩ := exists_forall₂ (R := NewRow run_ids clock listed) (fun t ht => by
    obtain ⟨policy, hpolicy⟩ := hpolicies t ht
    exact ⟨_, policy, hpolicy, rfl⟩)
  obtain ⟨hrowids, hrowtasks, hrowspec⟩ := Api.newRow_spec hrows
  unfold RunRepository.create_run
  -- The run, sent by the first flush.
  refine (exec_bind_isOk _).mpr ⟨db, _, exec_newTable.mpr ⟨List.nodup_singleton _, rfl⟩, ?_⟩
  refine (exec_bind_isOk _).mpr ⟨_, (), exec_insertRuns.mpr
    ⟨fun r hr s hs => ?_, fun _ r hr => ?_, rfl⟩, ?_⟩
  · rw [List.mem_singleton.mp hr]
    exact hids.run s hs
  · rw [List.mem_singleton.mp hr]
    rfl
  -- Its tasks are read, and a policy is built for each.
  refine (exec_bind_isOk _).mpr ⟨_, db.workflowTasks workflow.id, rfl, ?_⟩
  refine (exec_bind_isOk _).mpr ⟨_, rows, (exec_lift_ok _).mpr
    ⟨rows, mapM_newRow.mpr hrows, rfl⟩, ?_⟩
  rw [if_neg (fun hnil => htasks (List.isEmpty_iff.mp hnil))]
  -- The rows, sent by the second flush.
  have hnodup : (rows.map TaskRun.id).Nodup := by
    rw [hrowids]
    exact (List.filter_sublist.map _).nodup hids.distinct
  refine (exec_bind_isOk _).mpr ⟨_, _, exec_newTable.mpr ⟨hnodup, rfl⟩, ?_⟩
  refine (exec_bind_isOk _).mpr ⟨_, (), exec_insertTaskRuns.mpr
    ⟨⟨fun r hr s hs => ?_, fun r hr s hs hpair => ?_, ?_⟩, fun _ r hr => ?_, rfl⟩, _, rfl⟩
  · have hid : r.id ∈ rows.map TaskRun.id := List.mem_map_of_mem hr
    rw [hrowids] at hid
    obtain ⟨t, ht, he⟩ := List.mem_map.mp hid
    rw [← he]
    exact (hids.rows s hs).2 t (List.mem_filter.mp ht).1
  · rw [(hrowspec r hr).1] at hpair
    exact (hids.rows s hs).1 (Prod.mk.inj hpair).1
  · refine List.Nodup.of_map Prod.snd ?_
    rw [List.map_map]
    show (rows.map TaskRun.task_id).Nodup
    rw [hrowtasks]
    exact (List.filter_sublist.map _).nodup db.tasks.nodup
  · exact (hrowspec r hr).2

/-- The tasks of the new workflow are those of the specs, in their order. -/
theorem WorkflowRepository.Published.workflowTasks (hd : db.Definitions)
    (h : Published ids specs db db' workflow) :
    db'.workflowTasks workflow.id = specs.map (newTask ids) := by
  have hold : db.tasks.rows.filter (fun t => t.workflow_id = workflow.id) = [] := by
    refine List.filter_eq_nil_iff.mpr (fun t ht he => ?_)
    obtain ⟨w, hw, hid⟩ := hd.workflows t ht
    exact h.new_workflow w hw (hid.trans (of_decide_eq_true he))
  have hnew : (specs.map (newTask ids)).filter (fun t => t.workflow_id = workflow.id)
      = specs.map (newTask ids) := by
    refine List.filter_eq_self.mpr (fun t ht => ?_)
    obtain ⟨spec, -, rfl⟩ := List.mem_map.mp ht
    exact decide_eq_true h.workflow_id.symm
  rw [Db.workflowTasks, h.tasks', List.filter_append, hold, hnew, List.nil_append]

/-- The row that a run starts a task with: it counts the dependencies that the graph
counts, and is ready at the roots. -/
structure StartsAs (dag : Dag String) (ids : WorkflowIds) (spec : TaskSpec) (row : TaskRun) :
    Prop where
  task : row.task_id = ids.task_id spec.key
  pending_deps : OrderedDict.lookup dag.in_degrees spec.key = some row.pending_deps
  state : row.state = if spec.key ∈ dag.roots then .READY else .PENDING

/-- What a published workflow is read back as, and what its runs start as. -/
structure Reproduced (checks : Bool) (ids : WorkflowIds) (specs : List TaskSpec) (db : Db)
    (workflow : Workflow) : Prop where
  keys : ∀ k, k ∈ OrderedDict.keys (dependencies db workflow.id) ↔ k ∈ specs.map TaskSpec.key
  dependencies : ∀ spec ∈ specs, ∃ parents,
    OrderedDict.lookup (dependencies db workflow.id) spec.key = some parents ∧ parents.Nodup ∧
      ∀ k, k ∈ parents ↔ k ∈ spec.depends_on
  runs : ∃ dag, Dag.from_dependencies (dependencyMap specs) = .ok dag ∧ dag.roots ≠ [] ∧
    ∀ run_ids clock trigger_payload, Api.NewIds db run_ids → ∃ db' run,
      exec (store checks) (RunRepository.create_run run_ids clock workflow
        (WorkflowRepository.dependencies db workflow.id) trigger_payload) db = .ok (db', run) ∧
      List.Forall₂ (StartsAs dag ids) specs (db'.runTasks run.id)

/-- The row of a task whose dependencies are listed once each. -/
theorem startsAs_newRow {dag : Dag String} {run_ids : RunIds} {clock : Clock}
    {listed : OrderedDict String (List String)} {spec : TaskSpec} {row : TaskRun}
    (hkeys : (specs.map TaskSpec.key).Nodup)
    (hdag : Dag.from_dependencies (dependencyMap specs) = .ok dag) (hspec : spec ∈ specs)
    {parents : List String} (hlook : OrderedDict.lookup listed spec.key = some parents)
    (hnodup : parents.Nodup) (hmem : ∀ k, k ∈ parents ↔ k ∈ spec.depends_on)
    (hrow : NewRow run_ids clock listed (newTask ids spec) row) : StartsAs dag ids spec row := by
  obtain ⟨policy, -, rfl⟩ := hrow
  obtain ⟨hm, hnodes, -⟩ := Dag.from_dependencies_ok hdag
  have hnode : spec.key ∈ dag.nodes := by
    rw [hnodes, (dependencyMap_spec hkeys).1]
    exact List.mem_map_of_mem hspec
  -- Parents in the graph and parents in the map are the listed dependencies.
  have hsame : ∀ k, k ∈ dag.parentsOf spec.key ↔ k ∈ parents := by
    intro k
    rw [Published.parentsOf_iff hkeys hdag, hmem]
    constructor
    · rintro ⟨spec', hspec', he, hk⟩
      rwa [List.inj_on_of_nodup_map hkeys hspec' hspec he] at hk
    · exact fun hk => ⟨spec, hspec, rfl, hk⟩
  have hcount : listedDependencies listed (newTask ids spec) = parents.length := by
    show ((OrderedDict.lookup listed spec.key).getD []).length = _
    rw [hlook]
    rfl
  -- Each is listed once, so the length of the list is their number.
  have hcard : (dag.parentsOf spec.key).toFinset.card = parents.length := by
    rw [← List.toFinset_card_of_nodup hnodup]
    congr 1
    ext k
    rw [List.mem_toFinset, List.mem_toFinset, hsame]
  have hroot : spec.key ∈ dag.roots ↔ parents.length = 0 := by
    rw [Dag.mem_roots hm, and_iff_right hnode, ← hcard, Finset.card_eq_zero,
      List.toFinset_eq_empty_iff]
  refine ⟨rfl, ?_, ?_⟩
  · rw [Dag.in_degrees_eq hm hnode, hcard, ← hcount]
    rfl
  · show (if listedDependencies listed (newTask ids spec) = 0 then TaskState.READY
      else .PENDING) = _
    rw [hcount]
    simp only [hroot]

/-- The rows of a run with a new id are those that were made for it. -/
theorem CreatedRun.runTasks_eq {run_ids : RunIds} {clock : Clock}
    {listed : OrderedDict String (List String)} {run : WorkflowRun} {rows : List TaskRun}
    (hids : Api.NewIds db run_ids)
    (h : CreatedRun run_ids clock workflow listed db db' run rows) : db'.runTasks run.id = rows := by
  have hold : db.task_runs.rows.filter (fun r => r.run_id = run.id) = [] := by
    refine List.filter_eq_nil_iff.mpr (fun r hr he => (hids.rows r hr).1 ?_)
    exact (of_decide_eq_true he).trans h.run_id
  have hnew : rows.filter (fun r => r.run_id = run.id) = rows := by
    refine List.filter_eq_self.mpr (fun r hr => decide_eq_true ?_)
    exact ((Api.newRow_spec h.rows_eq).2.2 r hr).1.trans h.run_id.symm
  rw [Db.runTasks, h.task_runs', List.filter_append, hold, hnew, List.nil_append]

namespace WorkflowRepository.Published

variable (hd : db.Definitions) (h : Published ids specs db db' workflow)
include hd h

/-- The map that is read back lists the dependencies of the specs. -/
theorem listed {spec : TaskSpec} (hspec : spec ∈ specs) : ∃ parents,
    OrderedDict.lookup (dependencies db' workflow.id) spec.key = some parents ∧ parents.Nodup ∧
      ∀ k, k ∈ parents ↔ k ∈ spec.depends_on := by
  rw [h.workflow_id]
  exact (h.stored hd).dependencies (h.definitions hd) hspec

theorem mem_keys {k : String} :
    k ∈ OrderedDict.keys (dependencies db' workflow.id) ↔ k ∈ specs.map TaskSpec.key := by
  have hstored := h.stored hd
  rw [mem_keys_dependencies, List.mem_map]
  constructor
  · rintro ⟨t, ht, hw, rfl⟩
    obtain ⟨spec, hspec, rfl⟩ := hstored.only t ht (hw.trans h.workflow_id)
    exact ⟨spec, hspec, rfl⟩
  · rintro ⟨spec, hspec, rfl⟩
    exact ⟨_, hstored.mem spec hspec, h.workflow_id.symm, rfl⟩

/-- A run of the workflow can be created, and starts at the roots of the graph. -/
theorem starts (hpublishable : Publishable specs) {dag : Dag String}
    (hdag : Dag.from_dependencies (dependencyMap specs) = .ok dag) {run_ids : RunIds}
    (clock : Clock) (trigger_payload : Option Dict) (hids : Api.NewIds db' run_ids) :
    ∃ db'' run, exec (store checks) (RunRepository.create_run run_ids clock workflow
        (dependencies db' workflow.id) trigger_payload) db' = .ok (db'', run) ∧
      List.Forall₂ (StartsAs dag ids) specs (db''.runTasks run.id) := by
  have htasks := h.workflowTasks hd
  have hsome : db'.workflowTasks workflow.id ≠ [] := by
    rw [htasks]
    exact fun hnil => hpublishable.nonempty (List.map_eq_nil_iff.mp hnil)
  have hpolicies : ∀ t ∈ db'.workflowTasks workflow.id,
      ∃ policy, build_policy (some t.retry_policy) = .ok policy := by
    intro t ht
    rw [htasks] at ht
    obtain ⟨spec, hspec, rfl⟩ := List.mem_map.mp ht
    exact hpublishable.policies spec hspec
  obtain ⟨⟨db'', run⟩, hexec⟩ := exec_create_run_isOk checks clock
    (dependencies db' workflow.id) trigger_payload hids hsome hpolicies
  obtain ⟨rows, hcreated⟩ := exec_create_run hexec
  refine ⟨db'', run, hexec, ?_⟩
  have hrows := hcreated.rows_eq
  rw [htasks] at hrows
  rw [hcreated.runTasks_eq hids]
  refine ((List.forall₂_and_left (p := fun spec => spec ∈ specs) _ _).mpr
    ⟨fun _ hspec => hspec, List.forall₂_map_left_iff.mp hrows⟩).imp ?_
  rintro spec row ⟨hspec, hrow⟩
  obtain ⟨parents, hlook, hnodup, hmem⟩ := h.listed hd hspec
  exact startsAs_newRow hpublishable.keys hdag hspec hlook hnodup hmem hrow

theorem reproduced (hpublishable : Publishable specs) :
    Reproduced checks ids specs db' workflow := by
  obtain ⟨dag, hdag⟩ := hpublishable.exists_dag
  obtain ⟨hm, hnodes, -⟩ := Dag.from_dependencies_ok hdag
  have hacyclic := hpublishable.acyclic
  rw [← parentsOf_eq hpublishable.keys hdag] at hacyclic
  have hroots : dag.roots ≠ [] := by
    refine Dag.roots_ne_nil hm hacyclic ?_
    rw [hnodes, (dependencyMap_spec hpublishable.keys).1]
    exact fun hnil => hpublishable.nonempty (List.map_eq_nil_iff.mp hnil)
  exact ⟨fun _ => h.mem_keys hd, fun _ hspec => h.listed hd hspec, dag, hdag, hroots,
    fun _ clock trigger_payload => h.starts hd hpublishable hdag clock trigger_payload⟩

end WorkflowRepository.Published

/-- What publishing a list of specs alone on a database comes to. -/
structure PublishesGraph (checks : Bool) (db : Db) (ids : WorkflowIds) (now : Time) (name : String)
    (specs : List TaskSpec) (description : Option String) : Prop where
  accepted : (∃ out, exec (store checks) (create ids now name specs description) db = .ok out) ↔
    Publishable specs
  /-- A refused publish raises before its first statement. -/
  refused : ¬ Publishable specs → ∃ e, create ids now name specs description = .raise e
  stored : ∀ db' workflow, exec (store checks) (create ids now name specs description) db
    = .ok (db', workflow) → Reproduced checks ids specs db' workflow

theorem create_raises (ids : WorkflowIds) (now : Time) (name : String)
    (description : Option String) (h : ¬ Publishable specs) :
    ∃ e, create ids now name specs description = .raise e := by
  cases hcheck : checkSpecs specs with
  | ok _ => exact absurd (checkSpecs_iff.mp hcheck) h
  | error e =>
      refine ⟨e, ?_⟩
      unfold create
      rw [hcheck]
      rfl

/-- **Publishing stores exactly the submitted graph.** -/
theorem publishes_graph (now : Time) (name : String) (description : Option String)
    (hd : db.Definitions) (hstorable : ∀ spec ∈ specs, Storable spec)
    (hids : NewWorkflowIds db ids specs) :
    PublishesGraph checks db ids now name specs description := by
  have haccepted : ∀ out, exec (store checks) (create ids now name specs description) db = .ok out →
      Publishable specs := by
    intro out hout
    by_contra hrefused
    obtain ⟨e, he⟩ := create_raises ids now name description hrefused
    rw [he] at hout
    cases hout
  refine ⟨⟨?_, exec_create_isOk hd hstorable hids⟩,
    create_raises ids now name description, fun db' workflow hexec => ?_⟩
  · rintro ⟨out, hout⟩
    exact haccepted out hout
  · exact (exec_create hexec).reproduced hd (haccepted _ hexec)

/-- The chain beside a workflow that is there. -/
theorem publishes_graph_chain :
    Publishable (chainSpecs noRetry) ∧
    PublishesGraph true (transacted true Api.publishedSolo)
      ⟨10, fun key => if key = "a" then 11 else 12⟩ 1 "chain" (chainSpecs noRetry) none :=
  ⟨by decide +kernel,
    publishes_graph 1 "chain" none (runnable_transacted true Api.publishedSolo).1.definitions
      (by decide +kernel) (by decide +kernel)⟩

end Conductor
