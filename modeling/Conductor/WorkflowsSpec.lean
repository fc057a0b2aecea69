/-
What publishing a workflow leaves behind, and what its dependency map says.

`create` accepts a list of specs only if its graph can be sorted, so the edges it
stores have no cycle; it stores them between the new tasks, so they never touch
an older workflow. `Definitions` collects what this makes true of the definition
tables for good. On such tables `dependencies` lists, for a task, its parents.
-/
import Conductor.DagSpec
import Conductor.RunsSpec

set_option autoImplicit false

open Relational Txn

namespace Conductor

variable {checks : Bool}

namespace WorkflowRepository

/-! ## The checks of `create` -/

theorem nodup_of_no_duplicates {keys : List String}
    (h : ((keys.filter (fun key => 1 < keys.count key)).dedup).isEmpty = true) : keys.Nodup := by
  rw [List.isEmpty_iff, List.dedup_eq_nil, List.filter_eq_nil_iff] at h
  rw [List.nodup_iff_count_le_one]
  intro k
  by_cases hk : k ∈ keys
  · have := h k hk
    simp only [decide_eq_true_eq] at this
    omega
  · rw [List.count_eq_zero_of_not_mem hk]
    exact Nat.zero_le 1

theorem checkTasks_ok {known : List String} {specs : List TaskSpec}
    (h : checkTasks known specs = .ok ()) :
    ∀ spec ∈ specs, (∀ k ∈ spec.depends_on, k ∈ known) ∧
      ∃ policy, build_policy (some spec.retry_policy) = .ok policy := by
  induction specs with
  | nil => simp
  | cons spec rest ih =>
      simp only [checkTasks] at h
      split at h
      · cases h
      · rename_i hunknown
        cases hp : build_policy (some spec.retry_policy) with
        | error e =>
            rw [hp] at h
            cases h
        | ok policy =>
            rw [hp] at h
            have hknown : ∀ k ∈ spec.depends_on, k ∈ known := by
              intro k hk
              simp only [Bool.not_eq_true', Bool.not_eq_false, List.isEmpty_iff, List.dedup_eq_nil,
                List.filter_eq_nil_iff, decide_eq_true_eq, not_not] at hunknown
              exact hunknown k hk
            rintro s (_ | ⟨_, hs⟩)
            · exact ⟨hknown, policy, hp⟩
            · exact ih h s hs

/-- What `create` has checked before it touches the database. -/
structure Checked (specs : List TaskSpec) : Prop where
  keys : (specs.map TaskSpec.key).Nodup
  known : ∀ spec ∈ specs, ∀ k ∈ spec.depends_on, k ∈ specs.map TaskSpec.key
  policies : ∀ spec ∈ specs, ∃ policy, build_policy (some spec.retry_policy) = .ok policy
  sorted : ∃ dag order, Dag.from_dependencies (dependencyMap specs) = .ok dag ∧
    dag.topological_order = .ok order

/-- Specs that pass the checks have distinct keys, known parents, policies that can be
built, and no cycle. -/
theorem checkSpecs_ok {specs : List TaskSpec} (h : checkSpecs specs = .ok ()) : Checked specs := by
  unfold checkSpecs at h
  simp only at h
  split at h
  · cases h
  · split at h
    · cases h
    · rename_i hdup
      cases ht : checkTasks (specs.map TaskSpec.key) specs with
      | error e =>
          rw [ht] at h
          cases h
      | ok u =>
          rw [ht] at h
          have htasks := checkTasks_ok ht
          cases hg : Dag.from_dependencies (dependencyMap specs) with
          | error e =>
              simp only [hg] at h
              cases h
          | ok dag =>
              cases ho : dag.topological_order with
              | error e =>
                  simp only [hg, ho] at h
                  cases h
              | ok order =>
                  exact ⟨nodup_of_no_duplicates (by simpa using hdup),
                    fun s hs => (htasks s hs).1, fun s hs => (htasks s hs).2, dag, order, hg, ho⟩

/-! ## The dependency map of a list of specs -/

theorem dependencyMap_spec {specs : List TaskSpec} (hnodup : (specs.map TaskSpec.key).Nodup) :
    OrderedDict.keys (dependencyMap specs) = specs.map TaskSpec.key ∧
    ∀ k parents, OrderedDict.lookup (dependencyMap specs) k = some parents ↔
      ∃ spec ∈ specs, spec.key = k ∧ spec.depends_on = parents := by
  have hfold : ∀ (l : List TaskSpec) (d : OrderedDict String (List String)),
      (OrderedDict.keys d ++ l.map TaskSpec.key).Nodup →
      OrderedDict.keys (l.foldl (fun d task => OrderedDict.set d task.key task.depends_on) d)
        = OrderedDict.keys d ++ l.map TaskSpec.key ∧
      ∀ k parents, OrderedDict.lookup
          (l.foldl (fun d task => OrderedDict.set d task.key task.depends_on) d) k = some parents ↔
        OrderedDict.lookup d k = some parents ∨
          ∃ spec ∈ l, spec.key = k ∧ spec.depends_on = parents := by
    intro l
    induction l with
    | nil => intro d _; simp
    | cons spec rest ih =>
        intro d hnd
        have hnew : spec.key ∉ OrderedDict.keys d := fun hin =>
          (List.nodup_append.mp hnd).2.2 _ hin spec.key (by simp) rfl
        have hkeys : OrderedDict.keys (OrderedDict.set d spec.key spec.depends_on)
            = OrderedDict.keys d ++ [spec.key] := by
          rw [OrderedDict.keys_set, if_neg hnew]
        obtain ⟨h1, h2⟩ := ih (OrderedDict.set d spec.key spec.depends_on) (by
          rw [hkeys, List.append_assoc]
          exact hnd)
        have hlook := OrderedDict.lookup_eq_none.mpr hnew
        refine ⟨?_, fun k parents => ?_⟩
        · rw [List.foldl_cons, h1, hkeys, List.append_assoc]
          rfl
        · rw [List.foldl_cons, h2, OrderedDict.lookup_set]
          simp only [List.mem_cons, exists_eq_or_imp]
          by_cases hk : k = spec.key
          · subst hk
            simp [hlook]
          · have hk' : spec.key ≠ k := fun h => hk h.symm
            simp [hk, hk']
  obtain ⟨h1, h2⟩ := hfold specs Table.empty hnodup
  refine ⟨h1, fun k parents => ?_⟩
  unfold dependencyMap
  rw [h2]
  simp [OrderedDict.lookup, Table.get]

/-! ## What `create` writes -/

/-- Inserting workflows is refused exactly when an id, or a version of a name, is
taken. -/
theorem validate_insertWorkflows {db : Db} {t : Table UUID Workflow Workflow.id} :
    (store checks).validate .insert db { Db.empty with workflows := t } = none ↔
      ((∀ w ∈ t.rows, ∀ v ∈ db.workflows.rows, v.id ≠ w.id) ∧
        (∀ w ∈ t.rows, ∀ v ∈ db.workflows.rows, (v.name, v.version) ≠ (w.name, w.version)) ∧
        (t.rows.map (fun w => (w.name, w.version))).Nodup) ∧
      (checks = true → ∀ w ∈ t.rows, w.violates = none) := by
  rw [validate_insert]
  have hconf : db.conflict { Db.empty with workflows := t } = none ↔
      (∀ w ∈ t.rows, ∀ v ∈ db.workflows.rows, v.id ≠ w.id) ∧
        (∀ w ∈ t.rows, ∀ v ∈ db.workflows.rows, (v.name, v.version) ≠ (w.name, w.version)) ∧
        (t.rows.map (fun w => (w.name, w.version))).Nodup := by
    simp only [Db.conflict, Db.empty, Table.rows_empty, uniqueConflict_nil, Option.or_none,
      Option.or_eq_none_iff, uniqueConflict_eq_none, t.nodup, and_true]
  have hviol : Db.violates { Db.empty with workflows := t } = none ↔
      ∀ w ∈ t.rows, w.violates = none := by
    simp [Db.violates, Db.empty]
  rw [hconf, hviol]

/-- Inserting tasks is refused exactly when an id, or a key in its workflow, is taken. -/
theorem validate_insertTasks {db : Db} {t : Table UUID Task Task.id} :
    (store checks).validate .insert db { Db.empty with tasks := t } = none ↔
      ((∀ s ∈ t.rows, ∀ r ∈ db.tasks.rows, r.id ≠ s.id) ∧
        (∀ s ∈ t.rows, ∀ r ∈ db.tasks.rows, (r.workflow_id, r.key) ≠ (s.workflow_id, s.key)) ∧
        (t.rows.map (fun s => (s.workflow_id, s.key))).Nodup) ∧
      (checks = true → ∀ s ∈ t.rows, s.violates = none) := by
  rw [validate_insert]
  have hconf : db.conflict { Db.empty with tasks := t } = none ↔
      (∀ s ∈ t.rows, ∀ r ∈ db.tasks.rows, r.id ≠ s.id) ∧
        (∀ s ∈ t.rows, ∀ r ∈ db.tasks.rows, (r.workflow_id, r.key) ≠ (s.workflow_id, s.key)) ∧
        (t.rows.map (fun s => (s.workflow_id, s.key))).Nodup := by
    simp only [Db.conflict, Db.empty, Table.rows_empty, uniqueConflict_nil, Option.none_or,
      Option.or_none, Option.or_eq_none_iff, uniqueConflict_eq_none, t.nodup, and_true]
  have hviol : Db.violates { Db.empty with tasks := t } = none ↔
      ∀ s ∈ t.rows, s.violates = none := by
    simp [Db.violates, Db.empty]
  rw [hconf, hviol]

/-- Inserting edges is refused exactly when one is there, or is a loop. -/
theorem validate_insertDependencies {db : Db}
    {t : Table (UUID × UUID) TaskDependency TaskDependency.pk} :
    (store checks).validate .insert db { Db.empty with task_dependencies := t } = none ↔
      (∀ e ∈ t.rows, ∀ f ∈ db.task_dependencies.rows, f.pk ≠ e.pk) ∧
      (checks = true → ∀ e ∈ t.rows, e.violates = none) := by
  rw [validate_insert]
  have hconf : db.conflict { Db.empty with task_dependencies := t } = none ↔
      ∀ e ∈ t.rows, ∀ f ∈ db.task_dependencies.rows, f.pk ≠ e.pk := by
    simp only [Db.conflict, Db.empty, Table.rows_empty, uniqueConflict_nil, Option.none_or,
      Option.or_none, uniqueConflict_eq_none, t.nodup, and_true]
  have hviol : Db.violates { Db.empty with task_dependencies := t } = none ↔
      ∀ e ∈ t.rows, e.violates = none := by
    simp [Db.violates, Db.empty]
  rw [hconf, hviol]

/-- A flush returns exactly when its rows pass the constraints. -/
theorem exec_flush {d db : Db} {handler : Exn → Exn} {out : Db × Unit} :
    exec (store checks) (insertRows d handler) db = .ok out ↔
      (store checks).validate .insert db d = none ∧ out = (d.overlay db, ()) := by
  rw [exec_insertRows, validate_insert, and_assoc]

theorem overlay_workflows (t : Table UUID Workflow Workflow.id) (db : Db) :
    Db.overlay { Db.empty with workflows := t } db
      = { db with workflows := t.overlay db.workflows } := by
  simp [Db.overlay, Db.empty]

theorem overlay_tasks (t : Table UUID Task Task.id) (db : Db) :
    Db.overlay { Db.empty with tasks := t } db = { db with tasks := t.overlay db.tasks } := by
  simp [Db.overlay, Db.empty]

theorem overlay_dependencies (t : Table (UUID × UUID) TaskDependency TaskDependency.pk) (db : Db) :
    Db.overlay { Db.empty with task_dependencies := t } db
      = { db with task_dependencies := t.overlay db.task_dependencies } := by
  simp [Db.overlay, Db.empty]

/-- What `create` does when it returns: it appends a workflow, its tasks and its
edges, all of them new. -/
structure Published (ids : WorkflowIds) (specs : List TaskSpec) (db db' : Db)
    (workflow : Workflow) : Prop where
  checked : Checked specs
  workflow_id : workflow.id = ids.workflow_id
  new_workflow : ∀ w ∈ db.workflows.rows, w.id ≠ workflow.id
  new_tasks : ∀ spec ∈ specs, ∀ t ∈ db.tasks.rows, t.id ≠ ids.task_id spec.key
  task_ids : ((specs.map (newTask ids)).map Task.id).Nodup
  workflows' : db'.workflows.rows = db.workflows.rows ++ [workflow]
  tasks' : db'.tasks.rows = db.tasks.rows ++ specs.map (newTask ids)
  edges' : db'.task_dependencies.rows = db.task_dependencies.rows ++ newDependencies ids specs
  frame : db' = { db with
    workflows := db'.workflows, tasks := db'.tasks, task_dependencies := db'.task_dependencies }

/-- What a publication that returns has written. -/
theorem exec_create {db db' : Db} {ids : WorkflowIds} {now : Time} {name : String}
    {specs : List TaskSpec} {description : Option String} {workflow : Workflow}
    (h : exec (store checks) (create ids now name specs description) db = .ok (db', workflow)) :
    Published ids specs db db' workflow := by
  unfold create at h
  obtain ⟨db1, _, h1, h⟩ := (exec_bind_ok _).mp h
  obtain ⟨_, hcheck, he⟩ := (exec_lift_ok _).mp h1
  cases he
  obtain ⟨db2, version, h2, h⟩ := (exec_bind_ok _).mp h
  cases h2
  obtain ⟨db3, t3, h3, h⟩ := (exec_bind_ok _).mp h
  obtain ⟨hnd3, he⟩ := exec_newTable.mp h3
  cases he
  obtain ⟨db4, _, h4, h⟩ := (exec_bind_ok _).mp h
  obtain ⟨hvalid4, he⟩ := exec_flush.mp h4
  cases he
  have hnew4 := (validate_insertWorkflows.mp hvalid4).1.1
  rw [overlay_workflows] at h
  obtain ⟨db5, t5, h5, h⟩ := (exec_bind_ok _).mp h
  obtain ⟨hnd5, he⟩ := exec_newTable.mp h5
  cases he
  obtain ⟨db6, _, h6, h⟩ := (exec_bind_ok _).mp h
  obtain ⟨hvalid6, he⟩ := exec_flush.mp h6
  cases he
  have hnew6 := (validate_insertTasks.mp hvalid6).1.1
  rw [overlay_tasks] at h
  obtain ⟨db7, t7, h7, h⟩ := (exec_bind_ok _).mp h
  obtain ⟨hnd7, he⟩ := exec_newTable.mp h7
  cases he
  obtain ⟨db8, _, h8, h⟩ := (exec_bind_ok _).mp h
  obtain ⟨hvalid8, he⟩ := exec_flush.mp h8
  cases he
  have hnew8 := (validate_insertDependencies.mp hvalid8).1
  rw [overlay_dependencies] at h
  cases h
  refine ⟨checkSpecs_ok hcheck, rfl, fun w hw => hnew4 _ (by simp) w hw, ?_, hnd5, ?_, ?_, ?_, rfl⟩
  · intro spec hspec t ht
    exact hnew6 _ (List.mem_map_of_mem hspec) t ht
  · exact Table.rows_overlay_of_new (fun w hw => Table.get_eq_none.mpr (hnew4 w hw))
  · exact Table.rows_overlay_of_new (fun t ht => Table.get_eq_none.mpr (hnew6 t ht))
  · exact Table.rows_overlay_of_new (fun e he => Table.get_eq_none.mpr (hnew8 e he))

end WorkflowRepository

open WorkflowRepository

/-! ## The definition tables -/

/-- What holds of the definition tables for good: a key names one task of its
workflow, edges stay inside a workflow, and they have no cycle. -/
structure Db.Definitions (db : Db) : Prop where
  workflows : ∀ t ∈ db.tasks.rows, ∃ w ∈ db.workflows.rows, w.id = t.workflow_id
  keys : ∀ s ∈ db.tasks.rows, ∀ t ∈ db.tasks.rows,
    s.workflow_id = t.workflow_id → s.key = t.key → s = t
  edges : ∀ p c, p ∈ db.parents c → ∃ s ∈ db.tasks.rows, ∃ t ∈ db.tasks.rows,
    s.id = p ∧ t.id = c ∧ s.workflow_id = t.workflow_id
  acyclic : ∀ t, ¬ Precedence.Below db.parents t t

/-- The definition tables as they were. -/
theorem Db.Definitions.congr {db db' : Db} (h : db.Definitions)
    (hworkflows : db'.workflows = db.workflows) (htasks : db'.tasks = db.tasks)
    (hedges : db'.task_dependencies = db.task_dependencies) : db'.Definitions := by
  refine ⟨?_, ?_, ?_, ?_⟩
  · rw [htasks, hworkflows]
    exact h.workflows
  · rw [htasks]
    exact h.keys
  · rw [htasks, Db.parents_congr hedges]
    exact h.edges
  · rw [Db.parents_congr hedges]
    exact h.acyclic

theorem Db.Definitions.wellFounded {db : Db} (h : db.Definitions) :
    WellFounded (Precedence.Edge db.parents) := by
  refine Precedence.wellFounded_of_acyclic
    (db.task_dependencies.rows.map TaskDependency.child_task_id).toFinset ?_ h.acyclic
  intro p c hp
  rw [List.mem_toFinset]
  exact List.mem_map.mpr ⟨_, Db.mem_parents.mp hp, rfl⟩

namespace WorkflowRepository.Published

variable {ids : WorkflowIds} {specs : List TaskSpec} {db db' : Db} {workflow : Workflow}

theorem mem_newDependencies {p c : UUID} :
    (⟨p, c⟩ : TaskDependency) ∈ newDependencies ids specs ↔
      ∃ spec ∈ specs, ids.task_id spec.key = c ∧ ∃ k ∈ spec.depends_on, ids.task_id k = p := by
  simp only [newDependencies, List.mem_flatMap, List.mem_map, TaskDependency.mk.injEq]
  constructor
  · rintro ⟨spec, hspec, k, hk, hp, hc⟩
    exact ⟨spec, hspec, hc, k, hk, hp⟩
  · rintro ⟨spec, hspec, hc, k, hk, hp⟩
    exact ⟨spec, hspec, k, hk, hp, hc⟩

/-- The parents of the new tasks are those that their specs name; the others keep theirs. -/
theorem mem_parents (h : Published ids specs db db' workflow) {p c : UUID} :
    p ∈ db'.parents c ↔ p ∈ db.parents c ∨
      ∃ spec ∈ specs, ids.task_id spec.key = c ∧ ∃ k ∈ spec.depends_on, ids.task_id k = p := by
  rw [Db.mem_parents, Db.mem_parents, h.edges', List.mem_append, mem_newDependencies]

/-- The drawn ids tell the keys apart. -/
theorem task_id_inj (h : Published ids specs db db' workflow) {k l : String}
    (hk : k ∈ specs.map TaskSpec.key) (hl : l ∈ specs.map TaskSpec.key)
    (he : ids.task_id k = ids.task_id l) : k = l := by
  obtain ⟨s, hs, rfl⟩ := List.mem_map.mp hk
  obtain ⟨t, ht, rfl⟩ := List.mem_map.mp hl
  have hids := h.task_ids
  rw [List.map_map] at hids
  rw [List.inj_on_of_nodup_map hids hs ht he]

/-- An id drawn for a key is no endpoint of an older edge. -/
theorem not_old (h : Published ids specs db db' workflow) (hd : db.Definitions) {k : String}
    (hk : k ∈ specs.map TaskSpec.key) :
    (∀ c, ids.task_id k ∉ db.parents c) ∧ db.parents (ids.task_id k) = ∅ := by
  obtain ⟨spec, hspec, rfl⟩ := List.mem_map.mp hk
  constructor
  · intro c hp
    obtain ⟨s, hs, -, -, hid, -⟩ := hd.edges _ _ hp
    exact h.new_tasks spec hspec s hs hid
  · refine Finset.eq_empty_of_forall_notMem (fun p hp => ?_)
    obtain ⟨-, -, t, ht, -, hid, -⟩ := hd.edges _ _ hp
    exact h.new_tasks spec hspec t ht hid

/-- The graph that `create` sorted has the specs' own edges. -/
theorem parentsOf_iff (hkeys : (specs.map TaskSpec.key).Nodup) {dag : Dag String}
    (hdag : Dag.from_dependencies (dependencyMap specs) = .ok dag) {k l : String} :
    k ∈ dag.parentsOf l ↔ ∃ spec ∈ specs, spec.key = l ∧ k ∈ spec.depends_on := by
  rw [(Dag.from_dependencies_ok hdag).2.2]
  constructor
  · rintro ⟨parents, hlook, hk⟩
    obtain ⟨spec, hspec, hl, rfl⟩ := ((dependencyMap_spec hkeys).2 l parents).mp hlook
    exact ⟨spec, hspec, hl, hk⟩
  · rintro ⟨spec, hspec, hl, hk⟩
    exact ⟨_, ((dependencyMap_spec hkeys).2 l _).mpr ⟨spec, hspec, hl, rfl⟩, hk⟩

/-- A path between the new tasks is a path of the graph that `create` sorted, and
a path from an older task stays among the older ones. -/
theorem below_cases (h : Published ids specs db db' workflow) (hd : db.Definitions)
    {dag : Dag String} (hdag : Dag.from_dependencies (dependencyMap specs) = .ok dag)
    {a b : UUID} (hab : Precedence.Below db'.parents a b) :
    Precedence.Below db.parents a b ∨
      ∃ k ∈ specs.map TaskSpec.key, ∃ l ∈ specs.map TaskSpec.key, ids.task_id k = a ∧
        ids.task_id l = b ∧ Relation.TransGen (fun p c => p ∈ dag.parentsOf c) k l := by
  have hedge : ∀ p c, p ∈ db'.parents c → p ∈ db.parents c ∨
      ∃ k ∈ specs.map TaskSpec.key, ∃ l ∈ specs.map TaskSpec.key, ids.task_id k = p ∧
        ids.task_id l = c ∧ k ∈ dag.parentsOf l := by
    intro p c hpc
    rcases h.mem_parents.mp hpc with hold | ⟨spec, hspec, rfl, k, hk, rfl⟩
    · exact Or.inl hold
    · exact Or.inr ⟨k, h.checked.known spec hspec k hk, spec.key, List.mem_map_of_mem hspec, rfl,
        rfl, (parentsOf_iff h.checked.keys hdag).mpr ⟨spec, hspec, rfl, hk⟩⟩
  induction hab with
  | single hac =>
      rcases hedge _ _ hac with hold | ⟨k, hk, l, hl, hka, hlc, hkl⟩
      · exact Or.inl (Relation.TransGen.single hold)
      · exact Or.inr ⟨k, hk, l, hl, hka, hlc, Relation.TransGen.single hkl⟩
  | tail _ hbc ih =>
      rcases ih with hold | ⟨k, hk, l, hl, hka, hlb, hpath⟩
      · -- The next edge starts at an old task, so it is an old edge.
        obtain ⟨q, -, hqb⟩ := Relation.TransGen.tail'_iff.mp hold
        rcases hedge _ _ hbc with hold' | ⟨k, hk, l, hl, rfl, -, -⟩
        · exact Or.inl (hold.tail hold')
        · have hq : q ∈ db.parents (ids.task_id k) := hqb
          rw [(h.not_old hd hk).2] at hq
          exact absurd hq (Finset.notMem_empty q)
      · rcases hedge _ _ hbc with hold' | ⟨k', hk', l', hl', hkb, hlc, hkl⟩
        · rw [← hlb] at hold'
          exact absurd hold' ((h.not_old hd hl).1 _)
        · have he : l = k' := h.task_id_inj hl hk' (hlb.trans hkb.symm)
          subst he
          exact Or.inr ⟨k, hk, l', hl', hka, hlc, hpath.tail hkl⟩

/-- **Publishing keeps the definition tables sound.** -/
theorem definitions (h : Published ids specs db db' workflow) (hd : db.Definitions) :
    db'.Definitions := by
  have hnew : ∀ s ∈ specs, (newTask ids s) ∈ db'.tasks.rows := fun s hs => by
    rw [h.tasks']
    exact List.mem_append_right _ (List.mem_map_of_mem hs)
  have hold : ∀ t ∈ db.tasks.rows, t ∈ db'.tasks.rows := fun t ht => by
    rw [h.tasks']
    exact List.mem_append_left _ ht
  constructor
  · intro t ht
    rw [h.workflows']
    rw [h.tasks', List.mem_append, List.mem_map] at ht
    rcases ht with ht | ⟨spec, -, rfl⟩
    · obtain ⟨w, hw, hid⟩ := hd.workflows t ht
      exact ⟨w, List.mem_append_left _ hw, hid⟩
    · exact ⟨workflow, by simp, h.workflow_id⟩
  · -- An old task cannot have the new workflow's id.
    have hmix : ∀ s ∈ db.tasks.rows, s.workflow_id ≠ ids.workflow_id := by
      intro s hs he
      obtain ⟨w, hw, hid⟩ := hd.workflows s hs
      exact h.new_workflow w hw (hid.trans (he.trans h.workflow_id.symm))
    intro s hs t ht hw hk
    rw [h.tasks', List.mem_append, List.mem_map] at hs ht
    rcases hs with hs | ⟨a, ha, rfl⟩
    · rcases ht with ht | ⟨b, -, rfl⟩
      · exact hd.keys s hs t ht hw hk
      · exact absurd hw (hmix s hs)
    · rcases ht with ht | ⟨b, hb, rfl⟩
      · exact absurd hw.symm (hmix t ht)
      · rw [List.inj_on_of_nodup_map h.checked.keys ha hb hk]
  · intro p c hpc
    rcases h.mem_parents.mp hpc with hp | ⟨spec, hspec, rfl, k, hk, rfl⟩
    · obtain ⟨s, hs, t, ht, h1, h2, h3⟩ := hd.edges p c hp
      exact ⟨s, hold s hs, t, hold t ht, h1, h2, h3⟩
    · obtain ⟨parent, hparent, rfl⟩ := List.mem_map.mp (h.checked.known spec hspec k hk)
      exact ⟨_, hnew parent hparent, _, hnew spec hspec, rfl, rfl, rfl⟩
  · intro t ht
    obtain ⟨dag, order, hdag, horder⟩ := h.checked.sorted
    obtain ⟨hm, hnodes, -⟩ := Dag.from_dependencies_ok hdag
    obtain ⟨hsorted, -, hperm⟩ := Dag.topological_order_ok hm horder
    rcases h.below_cases hd hdag ht with hcycle | ⟨k, hk, l, hl, hkt, hlt, hpath⟩
    · exact hd.acyclic t hcycle
    · have he : k = l := h.task_id_inj hk hl (hkt.trans hlt.symm)
      subst he
      exact Dag.acyclic_of_sorted hm hsorted (fun n hn => hperm.mem_iff.mpr hn) k hpath

end WorkflowRepository.Published

/-! ## Reading the dependency map back -/

theorem lookup_foldl_append (rows : List (String × String)) (d : OrderedDict String (List String))
    (k : String) :
    OrderedDict.lookup (rows.foldl (fun d row => OrderedDict.modify d row.1 (· ++ [row.2])) d) k
      = (OrderedDict.lookup d k).map (· ++ (rows.filter (fun row => row.1 = k)).map Prod.snd) := by
  induction rows generalizing d with
  | nil => simp
  | cons row rest ih =>
      rw [List.foldl_cons, ih, OrderedDict.lookup_modify]
      by_cases hk : k = row.1
      · subst hk
        cases OrderedDict.lookup d row.1 <;> simp
      · have hk' : row.1 ≠ k := fun h => hk h.symm
        simp [hk, hk']

theorem lookup_foldl_nil (keys : List String) (d : OrderedDict String (List String)) {k : String}
    (hk : k ∈ keys ∨ OrderedDict.lookup d k = some []) :
    OrderedDict.lookup (keys.foldl (fun d key => OrderedDict.set d key []) d) k = some [] := by
  induction keys generalizing d with
  | nil => simpa using hk
  | cons key rest ih =>
      rw [List.foldl_cons]
      refine ih _ ?_
      rw [OrderedDict.lookup_set]
      rcases hk with hk | hk
      · rcases List.mem_cons.mp hk with rfl | hk
        · exact Or.inr (if_pos rfl)
        · exact Or.inl hk
      · refine Or.inr ?_
        split
        · rfl
        · exact hk

/-- One row of the join that `dependencies` reads. -/
def dependencyRow (db : Db) (workflow_id : UUID) (e : TaskDependency) : Option (String × String) := do
  let parent ← db.tasks.get e.parent_task_id
  let child ← db.tasks.get e.child_task_id
  if child.workflow_id = workflow_id then some (child.key, parent.key) else none

theorem dependencyRow_into {db : Db} {t : Task} (ht : t ∈ db.tasks.rows) {e : TaskDependency}
    (he : e.child_task_id = t.id) :
    dependencyRow db t.workflow_id e
      = (db.tasks.get e.parent_task_id).map (fun parent => (t.key, parent.key)) := by
  unfold dependencyRow
  rw [he, Table.get_of_mem ht]
  cases db.tasks.get e.parent_task_id <;> simp

theorem dependencyRow_other {db : Db} (hd : db.Definitions) {t : Task} (ht : t ∈ db.tasks.rows)
    {e : TaskDependency} (he : e.child_task_id ≠ t.id) {row : String × String}
    (hrow : dependencyRow db t.workflow_id e = some row) : row.1 ≠ t.key := by
  unfold dependencyRow at hrow
  cases hp : db.tasks.get e.parent_task_id with
  | none => simp [hp] at hrow
  | some parent =>
      cases hc : db.tasks.get e.child_task_id with
      | none => simp [hp, hc] at hrow
      | some child =>
          obtain ⟨hmem, hid⟩ := Table.get_eq_some.mp hc
          simp only [hp, hc, Option.bind_eq_bind, Option.bind_some] at hrow
          split at hrow
          · rename_i hw
            cases hrow
            intro hk
            exact he (hid.symm.trans (congrArg Task.id (hd.keys child hmem t ht hw hk)))
          · cases hrow

/-- **The stored map lists a task's parents:** one entry for each edge into it. -/
theorem lookup_dependencies {db : Db} (hd : db.Definitions) {t : Task} (ht : t ∈ db.tasks.rows) :
    OrderedDict.lookup (dependencies db t.workflow_id) t.key
      = some ((db.task_dependencies.rows.filter (fun e => e.child_task_id = t.id)).filterMap
        (fun e => (db.tasks.get e.parent_task_id).map Task.key)) := by
  have hrows : ∀ edges : List TaskDependency,
      ((edges.filterMap (dependencyRow db t.workflow_id)).filter (fun row => row.1 = t.key)).map
        Prod.snd
      = (edges.filter (fun e => e.child_task_id = t.id)).filterMap
        (fun e => (db.tasks.get e.parent_task_id).map Task.key) := by
    intro edges
    induction edges with
    | nil => rfl
    | cons e rest ih =>
        by_cases he : e.child_task_id = t.id
        · rw [List.filterMap_cons, dependencyRow_into ht he, List.filter_cons, if_pos (by simpa using he),
            List.filterMap_cons]
          cases db.tasks.get e.parent_task_id with
          | none => simpa using ih
          | some parent => simpa using ih
        · rw [List.filter_cons, if_neg (by simpa using he), ← ih, List.filterMap_cons]
          cases hrow : dependencyRow db t.workflow_id e with
          | none => rfl
          | some row =>
              have hne := dependencyRow_other hd ht he hrow
              simp [hne]
  unfold dependencies
  simp only
  rw [lookup_foldl_append, lookup_foldl_nil _ _ (Or.inl ?_), Option.map_some, List.nil_append]
  · exact congrArg some (hrows _)
  · exact List.mem_map.mpr ⟨t, List.mem_filter.mpr ⟨ht, by simp⟩, rfl⟩

/-- The number of dependencies that `create_run` reads off the map is the number
of the task's parents. -/
theorem listedDependencies_eq {db : Db} (hd : db.Definitions) {t : Task}
    (ht : t ∈ db.tasks.rows) :
    listedDependencies (dependencies db t.workflow_id) t = (db.parents t.id).card := by
  have hsome : ∀ e ∈ db.task_dependencies.rows.filter (fun e => e.child_task_id = t.id),
      ((db.tasks.get e.parent_task_id).map Task.key).isSome = true := by
    intro e he
    obtain ⟨hmem, -⟩ := List.mem_filter.mp he
    obtain ⟨s, hs, -, -, hid, -⟩ := hd.edges e.parent_task_id e.child_task_id
      (Db.mem_parents.mpr hmem)
    rw [← hid, Table.get_of_mem hs]
    rfl
  have hnodup : ((db.task_dependencies.rows.filter (fun e => e.child_task_id = t.id)).map
      TaskDependency.parent_task_id).Nodup := by
    refine List.Nodup.map_on ?_ ((List.Nodup.of_map _ db.task_dependencies.nodup).filter _)
    rintro ⟨p, c⟩ he ⟨p', c'⟩ he' hp
    obtain ⟨-, hc⟩ := List.mem_filter.mp he
    obtain ⟨-, hc'⟩ := List.mem_filter.mp he'
    simp only [decide_eq_true_eq] at hc hc' hp
    rw [hp, hc, hc']
  rw [listedDependencies, lookup_dependencies hd ht, Option.getD_some,
    List.filterMap_length_eq_length.mpr hsome, Db.parents, List.card_toFinset, hnodup.dedup,
    List.length_map]

end Conductor
