/-
`POST /workflows`: `create_workflow` of `api/routes/workflows.py`, with what it uses of
`api/schemas.py`.

A body that its field validation would refuse cannot be built: keys, bounds and lists
without repetitions are fields. What the validation leaves to `create` is the graph. By
then a retry policy has passed tighter bounds than those of the policies, and what can
still be wrong with it is only what the schema puts there by itself, the attempts of a
policy that has none.

Nor does the validation look for U+0000, which PostgreSQL does not store: the pattern of
the keys excludes it, but the description, an executor and the params can have it.
-/
import Conductor.Publishing
import Conductor.RetryWire
import Conductor.NulText

set_option autoImplicit false

open Relational Txn

namespace Conductor

open WorkflowRepository

/-! ## Schemas -/

/-- The characters of `[a-zA-Z0-9_.-]`. -/
def isKeyChar (c : Char) : Bool := c.isAlphanum || c ∈ ['_', '.', '-']

/-- `TaskKey`; the name of a workflow has the same bounds and the same pattern. -/
def TaskKey (s : String) : Prop :=
  1 ≤ s.length ∧ s.length ≤ 255 ∧ s.toList.all isKeyChar = true

instance : DecidablePred TaskKey := fun _ => inferInstanceAs (Decidable (_ ∧ _ ∧ _))

structure TaskDefinition where
  key : String
  executor : String
  params : Dict
  depends_on : List String
  retry_policy : RetryPolicySpec
  priority : ℤ
  timeout_seconds : ℚ
  key_valid : TaskKey key
  executor_bounds : 1 ≤ executor.length ∧ executor.length ≤ 64
  depends_on_valid : ∀ k ∈ depends_on, TaskKey k
  no_duplicate_dependencies : depends_on.Nodup
  priority_bounds : -100 ≤ priority ∧ priority ≤ 100
  timeout_bounds : 0 < timeout_seconds ∧ timeout_seconds ≤ 86400

structure WorkflowCreate where
  name : String
  description : Option String
  tasks : List TaskDefinition
  name_valid : TaskKey name
  description_bounds : ∀ d ∈ description, d.length ≤ 2000
  tasks_bounds : 1 ≤ tasks.length ∧ tasks.length ≤ 500

structure TaskSummary where
  key : String
  executor : String
  depends_on : List String
  priority : ℤ
  timeout_seconds : ℚ

structure WorkflowResponse where
  id : UUID
  name : String
  version : ℤ
  description : Option String
  created_at : Time
  tasks : List TaskSummary

/-- The `TaskSpec` that the handler makes of a task. -/
def TaskDefinition.spec (task : TaskDefinition) : TaskSpec where
  key := task.key
  executor := task.executor
  params := task.params
  depends_on := task.depends_on
  retry_policy := task.retry_policy.to_spec
  priority := task.priority
  timeout_seconds := task.timeout_seconds

def WorkflowCreate.specs (body : WorkflowCreate) : List TaskSpec :=
  body.tasks.map TaskDefinition.spec

/-- The schema bounds the length of an executor, and nothing of the params. -/
def TaskDefinition.hasNul (task : TaskDefinition) : Bool :=
  nulText task.executor || task.params.hasNul

/-- The body has U+0000 where the schema lets it through. -/
def WorkflowCreate.hasNul (body : WorkflowCreate) : Bool :=
  body.description.any nulText || body.tasks.any TaskDefinition.hasNul

/-! ## The handler -/

namespace Api

/-- The `TaskSummary` that `_to_response` makes of a row. -/
def toTaskSummary (dependencies : OrderedDict String (List String)) (task : Task) :
    TaskSummary where
  key := task.key
  executor := task.executor
  depends_on := ((OrderedDict.lookup dependencies task.key).getD []).insertionSort (· ≤ ·)
  priority := task.priority
  timeout_seconds := task.timeout_seconds

/-- `_to_response`. -/
def to_workflow_response (workflow : Workflow) : Tx WorkflowResponse := do
  let dependencies ← Txn.Prog.read (fun db => .ret (dependencies db workflow.id))
  let tasks ← Txn.Prog.read (fun db =>
    .ret (db.tasks.rows.filter (fun t => t.workflow_id = workflow.id)))
  return { id := workflow.id, name := workflow.name, version := workflow.version
           description := workflow.description, created_at := workflow.created_at
           tasks := (tasks.insertionSort (fun a b => a.key ≤ b.key)).map
             (toTaskSummary dependencies) }

/-- Publish a new version of a workflow. The `flush` after `create` has nothing left to
send. -/
def create_workflow (ids : WorkflowIds) (now : Time) (body : WorkflowCreate) :
    Tx WorkflowResponse := do
  let workflow ← create ids now body.name body.specs body.description
  to_workflow_response workflow

end Api

/-! ## U+0000 in a body -/

/-- The pattern of the keys has no U+0000. -/
theorem TaskKey.nulText {s : String} (h : TaskKey s) : nulText s = false := by
  refine List.any_eq_false.mpr (fun c hc hnul => ?_)
  have hzero : c = Char.ofNat 0 := by
    rw [← of_decide_eq_true hnul]
    exact (Char.ofNat_toNat c).symm
  have hkey : isKeyChar c = true := List.all_eq_true.mp h.2.2 c hc
  rw [hzero] at hkey
  exact absurd hkey (by decide)

theorem nulFields_eq_false {fields : List (String × Json)}
    (h : ∀ field ∈ fields, nulField field = false) : nulFields fields = false := by
  induction fields with
  | nil => rfl
  | cons field rest ih =>
      rw [nulFields, h field List.mem_cons_self, Bool.false_or]
      exact ih (fun f hf => h f (List.mem_cons_of_mem field hf))

/-- A retry policy is stored under names and with values that have none. -/
theorem RetryPolicySpec.nul_to_spec (s : RetryPolicySpec) : s.to_spec.hasNul = false := by
  have hnames : ∀ k ∈ ["type", "max_attempts", "delay", "base", "factor", "max_delay", "jitter"],
      nulText k = false := by decide
  have hfloat : ∀ (q : Option ℚ) (v : Json), q.map Json.float = some v → v.hasNul = false := by
    rintro (_ | q) v ⟨⟩
    rfl
  refine nulFields_eq_false (fun field hfield => ?_)
  obtain ⟨⟨name, value⟩, hoption, hset⟩ := List.mem_filterMap.mp hfield
  obtain ⟨v, hvalue, rfl⟩ := Option.map_eq_some_iff.mp hset
  rw [nulField, hnames name (List.mem_map_of_mem (f := Prod.fst) hoption), Bool.false_or]
  unfold options at hoption
  simp only [List.mem_cons, Prod.mk.injEq, List.not_mem_nil, or_false] at hoption
  obtain ⟨-, rfl⟩ | ⟨-, rfl⟩ | ⟨-, rfl⟩ | ⟨-, rfl⟩ | ⟨-, rfl⟩ | ⟨-, rfl⟩ | ⟨-, rfl⟩ := hoption
  · cases hvalue
    cases s.type <;> decide
  · cases hvalue
    rfl
  · exact hfloat s.delay v hvalue
  · exact hfloat s.base v hvalue
  · exact hfloat s.factor v hvalue
  · exact hfloat s.max_delay v hvalue
  · obtain ⟨jitter, -, rfl⟩ := Option.map_eq_some_iff.mp hvalue
    rfl

/-- What is stored of a task has a U+0000 exactly where the body has it. -/
theorem TaskDefinition.nul_spec (task : TaskDefinition) : task.spec.hasNul = task.hasNul := by
  show (nulText task.key || nulText task.executor || task.params.hasNul ||
    task.retry_policy.to_spec.hasNul) = _
  rw [task.key_valid.nulText, task.retry_policy.nul_to_spec, Bool.false_or, Bool.or_false]
  rfl

/-! ## What is left to `create` -/

/-- The tasks of a body have keys of their own and depend on each other without a loop. -/
structure WorkflowCreate.Graph (body : WorkflowCreate) : Prop where
  keys : (body.tasks.map TaskDefinition.key).Nodup
  known : ∀ task ∈ body.tasks, ∀ k ∈ task.depends_on, k ∈ body.tasks.map TaskDefinition.key
  acyclic : ∀ k, ¬ Relation.TransGen (DependsOn body.specs) k k

namespace WorkflowCreate

variable {body : WorkflowCreate}

theorem keys_specs : body.specs.map TaskSpec.key = body.tasks.map TaskDefinition.key := by
  rw [specs, List.map_map]
  rfl

theorem specs_ne_nil (body : WorkflowCreate) : body.specs ≠ [] := by
  intro hnil
  have hsome := body.tasks_bounds.1
  rw [List.map_eq_nil_iff.mp hnil] at hsome
  exact absurd hsome (by decide)

/-- The columns take whatever the schema does. -/
theorem storable_specs : ∀ spec ∈ body.specs, Storable spec := by
  intro spec hspec
  obtain ⟨task, -, rfl⟩ := List.mem_map.mp hspec
  refine ⟨fun hblank => ?_, task.timeout_bounds.1, task.no_duplicate_dependencies,
    fun policy hpolicy => ?_⟩
  · have hlength := task.key_valid.1
    rw [show task.key = "" from hblank] at hlength
    exact absurd hlength (by decide)
  · exact lt_of_le_of_lt (task.retry_policy.max_attempts_le hpolicy) (by norm_num)

theorem Graph.known_specs (h : body.Graph) :
    ∀ spec ∈ body.specs, ∀ k ∈ spec.depends_on, k ∈ body.specs.map TaskSpec.key := by
  intro spec hspec k hk
  obtain ⟨task, htask, rfl⟩ := List.mem_map.mp hspec
  rw [keys_specs]
  exact h.known task htask k hk

/-- A graph is published if its policies can be built. -/
theorem Graph.publishable (h : body.Graph)
    (hpolicies : ∀ task ∈ body.tasks,
      ∃ policy, build_policy (some task.retry_policy.to_spec) = .ok policy) :
    Publishable body.specs where
  nonempty := body.specs_ne_nil
  keys := by
    rw [keys_specs]
    exact h.keys
  known := h.known_specs
  policies := by
    intro spec hspec
    obtain ⟨task, htask, rfl⟩ := List.mem_map.mp hspec
    exact hpolicies task htask
  acyclic := h.acyclic

end WorkflowCreate

/-- If the policies that cannot be built all give one error, the checks give it too. -/
theorem checkTasks_raises {known : List String} {specs : List TaskSpec} {e : Exn}
    (hknown : ∀ spec ∈ specs, ∀ k ∈ spec.depends_on, k ∈ known)
    (hpolicies : ∀ spec ∈ specs, (∃ policy, build_policy (some spec.retry_policy) = .ok policy) ∨
      build_policy (some spec.retry_policy) = .error e)
    (hrefused : ∃ spec ∈ specs, build_policy (some spec.retry_policy) = .error e) :
    checkTasks known specs = .error e := by
  induction specs with
  | nil =>
      obtain ⟨spec, hspec, -⟩ := hrefused
      cases hspec
  | cons spec rest ih =>
      unfold checkTasks
      dsimp only
      rw [unknown_eq_nil (hknown spec List.mem_cons_self)]
      rcases hpolicies spec List.mem_cons_self with ⟨policy, hpolicy⟩ | herror
      · rw [hpolicy]
        -- The loop comes to the one that is refused later.
        refine ih (fun s hs => hknown s (List.mem_cons_of_mem spec hs))
          (fun s hs => hpolicies s (List.mem_cons_of_mem spec hs)) ?_
        obtain ⟨s, hs, herror⟩ := hrefused
        rcases List.mem_cons.mp hs with rfl | hs
        · rw [hpolicy] at herror
          cases herror
        · exact ⟨s, hs, herror⟩
      · rw [herror]
        rfl

/-! ## Publishing a body -/

section Post

variable {checks : Bool} {db db' : Db} {ids : WorkflowIds} {now : Time} {body : WorkflowCreate}

/-- What the reply shows of a task. -/
def TaskDefinition.summary (task : TaskDefinition) : TaskSummary where
  key := task.key
  executor := task.executor
  depends_on := task.depends_on.insertionSort (· ≤ ·)
  priority := task.priority
  timeout_seconds := task.timeout_seconds

/-- The row that `create` returns has the name and the description it was given. -/
theorem exec_create_row {name : String} {specs : List TaskSpec} {description : Option String}
    {workflow : Workflow}
    (h : exec (store checks) (create ids now name specs description) db = .ok (db', workflow)) :
    workflow.name = name ∧ workflow.description = description := by
  unfold create at h
  obtain ⟨_, _, -, h⟩ := (exec_bind_ok _).mp h
  obtain ⟨_, version, -, h⟩ := (exec_bind_ok _).mp h
  -- Three tables are built and sent.
  obtain ⟨_, _, -, h⟩ := (exec_bind_ok _).mp h
  obtain ⟨_, _, -, h⟩ := (exec_bind_ok _).mp h
  obtain ⟨_, _, -, h⟩ := (exec_bind_ok _).mp h
  obtain ⟨_, _, -, h⟩ := (exec_bind_ok _).mp h
  obtain ⟨_, _, -, h⟩ := (exec_bind_ok _).mp h
  obtain ⟨_, _, -, h⟩ := (exec_bind_ok _).mp h
  cases h
  exact ⟨rfl, rfl⟩

/-- A row of the new workflow is summarised as the task it was made of. -/
theorem toTaskSummary_newTask {listed : OrderedDict String (List String)} {task : TaskDefinition}
    (hlisted : ∃ parents, OrderedDict.lookup listed task.key = some parents ∧ parents.Nodup ∧
      ∀ k, k ∈ parents ↔ k ∈ task.depends_on) :
    Api.toTaskSummary listed (newTask ids task.spec) = task.summary := by
  obtain ⟨parents, hlook, hnodup, hmem⟩ := hlisted
  have hperm : parents.Perm task.depends_on :=
    (List.perm_ext_iff_of_nodup hnodup task.no_duplicate_dependencies).mpr hmem
  have hsorted : parents.insertionSort (· ≤ ·) = task.depends_on.insertionSort (· ≤ ·) :=
    (((List.perm_insertionSort _ _).trans hperm).trans (List.perm_insertionSort _ _).symm
      ).eq_of_pairwise' (List.pairwise_insertionSort _ _) (List.pairwise_insertionSort _ _)
  show (⟨task.key, task.executor, ((OrderedDict.lookup listed task.key).getD []).insertionSort _,
    task.priority, task.timeout_seconds⟩ : TaskSummary) = _
  rw [hlook, Option.getD_some, hsorted]
  rfl

/-- **The reply shows what was submitted**, sorted by key. -/
theorem create_workflow_reply {reply : WorkflowResponse} (hd : db.Definitions)
    (h : exec (store checks) (Api.create_workflow ids now body) db = .ok (db', reply)) :
    reply.name = body.name ∧ reply.description = body.description ∧
      reply.tasks = (body.tasks.insertionSort (fun a b => a.key ≤ b.key)).map
        TaskDefinition.summary := by
  unfold Api.create_workflow at h
  obtain ⟨db₁, workflow, hcreate, hread⟩ := (exec_bind_ok _).mp h
  cases hread
  obtain ⟨hname, hdescription⟩ := exec_create_row hcreate
  have hpublished := exec_create hcreate
  -- The rows of the new workflow are those of the specs, whatever else is stored.
  have hrows : (db'.tasks.rows.filter (fun t => t.workflow_id = workflow.id)).insertionSort
      (fun a b => a.key ≤ b.key) =
      (body.tasks.insertionSort (fun a b => a.key ≤ b.key)).map
        (fun task => newTask ids task.spec) := by
    have htasks : db'.tasks.rows.filter (fun t => t.workflow_id = workflow.id) = _ :=
      hpublished.workflowTasks hd
    rw [htasks, WorkflowCreate.specs, List.map_map]
    exact (List.map_insertionSort (fun a b : TaskDefinition => a.key ≤ b.key)
      (fun a b : Task => a.key ≤ b.key) _ _ (fun a _ b _ => Iff.rfl)).symm
  refine ⟨hname, hdescription, ?_⟩
  dsimp only
  rw [hrows, List.map_map]
  refine List.map_congr_left (fun task htask => toTaskSummary_newTask ?_)
  exact hpublished.listed hd (List.mem_map_of_mem ((List.mem_insertionSort _).mp htask))

/-- A refused policy is refused before the first statement, and by name. -/
theorem create_workflow_none (hgraph : body.Graph)
    (hown : ∀ task ∈ body.tasks, task.retry_policy.OwnOptions)
    (hnone : ∃ task ∈ body.tasks, task.retry_policy.type = .none) :
    Api.create_workflow ids now body =
      .raise (.ValueError "unknown options for 'none' policy: ['attempts']") := by
  have hpolicies : ∀ spec ∈ body.specs,
      (∃ policy, build_policy (some spec.retry_policy) = .ok policy) ∨
        build_policy (some spec.retry_policy) =
          .error (.ValueError "unknown options for 'none' policy: ['attempts']") := by
    intro spec hspec
    obtain ⟨task, htask, rfl⟩ := List.mem_map.mp hspec
    by_cases htype : task.retry_policy.type = .none
    · exact Or.inr (RetryPolicySpec.build_none htype (hown task htask))
    · obtain ⟨p, hp, -⟩ := (RetryPolicySpec.build_to_spec_iff (hown task htask)).mpr htype
      exact Or.inl ⟨p, hp⟩
  -- The loop over the tasks meets no other error before it meets this one.
  have htasks : checkTasks (body.specs.map TaskSpec.key) body.specs =
      .error (.ValueError "unknown options for 'none' policy: ['attempts']") := by
    refine checkTasks_raises hgraph.known_specs hpolicies ?_
    obtain ⟨task, htask, htype⟩ := hnone
    exact ⟨task.spec, List.mem_map_of_mem htask,
      RetryPolicySpec.build_none htype (hown task htask)⟩
  have hkeys := hgraph.keys
  rw [← WorkflowCreate.keys_specs] at hkeys
  have hcheck : checkSpecs body.specs =
      .error (.ValueError "unknown options for 'none' policy: ['attempts']") := by
    unfold checkSpecs
    dsimp only
    rw [List.isEmpty_eq_false_iff.mpr body.specs_ne_nil, if_neg Bool.false_ne_true,
      repeated_eq_nil hkeys, htasks]
    rfl
  unfold Api.create_workflow create
  rw [hcheck]
  rfl

/-- A graph that asks for no policy of type `none` is published. -/
theorem create_workflow_isOk (hd : db.Definitions) (hids : NewWorkflowIds db ids body.specs)
    (hgraph : body.Graph) (hown : ∀ task ∈ body.tasks, task.retry_policy.OwnOptions)
    (htypes : ∀ task ∈ body.tasks, task.retry_policy.type ≠ .none) :
    ∃ out, exec (store checks) (Api.create_workflow ids now body) db = .ok out := by
  have hpublishable : Publishable body.specs := hgraph.publishable (fun task htask => by
    obtain ⟨p, hp, -⟩ :=
      (RetryPolicySpec.build_to_spec_iff (hown task htask)).mpr (htypes task htask)
    exact ⟨p, hp⟩)
  obtain ⟨⟨db', workflow⟩, hcreate⟩ :=
    exec_create_isOk hd WorkflowCreate.storable_specs hids hpublishable
  unfold Api.create_workflow
  exact (exec_bind_isOk _).mpr ⟨db', workflow, hcreate, _, rfl⟩

/-- A body without U+0000 brings none. -/
theorem clean_create_workflow (hnul : body.hasNul = false) :
    (Api.create_workflow ids now body).Writes CleanWrite := by
  rw [WorkflowCreate.hasNul, Bool.or_eq_false_iff] at hnul
  refine (clean_create ids now body.name_valid.nulText (fun spec hspec => ?_) hnul.1).bind
    (fun workflow => ?_)
  · obtain ⟨task, htask, rfl⟩ := List.mem_map.mp hspec
    rw [task.nul_spec]
    exact Bool.eq_false_iff.mpr (List.any_eq_false.mp hnul.2 task htask)
  · exact (Prog.Writes.read (fun _ => .ret _)).bind (fun _ =>
      (Prog.Writes.read (fun _ => .ret _)).bind (fun _ => .ret _))

/-- What has been published without U+0000 was submitted without it. -/
theorem nul_of_create_workflow {reply : WorkflowResponse} (hclean : db'.Clean)
    (h : exec (store checks) (Api.create_workflow ids now body) db = .ok (db', reply)) :
    body.hasNul = false := by
  unfold Api.create_workflow at h
  obtain ⟨db1, workflow, hcreate, hread⟩ := (exec_bind_ok _).mp h
  cases hread
  have hpublished := exec_create hcreate
  obtain ⟨hworkflows, htasks, -⟩ := Db.clean_iff.mp hclean
  -- The stored rows have the texts of the body.
  rw [WorkflowCreate.hasNul, Bool.or_eq_false_iff]
  constructor
  · have hrow : workflow.hasNul = false :=
      hworkflows workflow (hpublished.workflows' ▸ List.mem_append_right _ List.mem_cons_self)
    rw [← (exec_create_row hcreate).2]
    exact (Bool.or_eq_false_iff.mp hrow).2
  · refine List.any_eq_false.mpr (fun task htask => Bool.eq_false_iff.mp ?_)
    rw [← task.nul_spec]
    refine htasks (newTask ids task.spec) (hpublished.tasks' ▸ List.mem_append_right _ ?_)
    exact List.mem_map_of_mem (List.mem_map_of_mem htask)

/-- PostgreSQL publishes what the database publishes, but for U+0000. -/
theorem create_workflow_postgres (hclean : db.Clean) :
    (∃ out, exec (postgres checks) (Api.create_workflow ids now body) db = .ok out) ↔
      (∃ out, exec (store checks) (Api.create_workflow ids now body) db = .ok out) ∧
        body.hasNul = false := by
  constructor
  · rintro ⟨out, hout⟩
    obtain ⟨hstore, hkept⟩ := exec_of_postgres hout
    exact ⟨⟨out, hstore⟩, nul_of_create_workflow (hkept hclean) hstore⟩
  · rintro ⟨⟨out, hout⟩, hnul⟩
    exact ⟨out, (exec_postgres (clean_create_workflow hnul) hclean).trans hout⟩

/-- `build_policy` makes the policy that a spec asks for. -/
def RetryPolicySpec.Built (s : RetryPolicySpec) : Prop :=
  ∃ p, build_policy (some s.to_spec) = .ok p ∧ s.Asks p ∧
    p.max_attempts = if s.type = .none then 1 else s.max_attempts

/-- The request is answered with a published workflow. -/
def WorkflowCreate.Posted (checks : Bool) (db : Db) (ids : WorkflowIds) (now : Time)
    (body : WorkflowCreate) : Prop :=
  ∃ out, exec (postgres checks) (Api.create_workflow ids now body) db = .ok out

/-- No task of the body asks for the policy `none`. -/
def WorkflowCreate.Retries (body : WorkflowCreate) : Prop :=
  ∀ task ∈ body.tasks, task.retry_policy.type ≠ .none

instance (body : WorkflowCreate) : Decidable body.Retries :=
  inferInstanceAs (Decidable (∀ task ∈ body.tasks, _))

/-- **The schema and `build_policy`.** A policy that the schema accepts can be built, and a
graph whose policies it accepts can be published, unless one of them is `none` or the body
has a U+0000. -/
theorem accepted_policies_iff {s : RetryPolicySpec} (hown : s.OwnOptions) (now : Time)
    (hd : db.Definitions) (hclean : db.Clean) (hids : NewWorkflowIds db ids body.specs)
    (hgraph : body.Graph) (howns : ∀ task ∈ body.tasks, task.retry_policy.OwnOptions) :
    (s.Built ↔ s.type ≠ .none) ∧
      (body.Posted checks db ids now ↔ body.Retries ∧ body.hasNul = false) := by
  constructor
  · rw [← RetryPolicySpec.build_to_spec_iff hown]
    constructor
    · rintro ⟨p, hp, hasks, -⟩
      exact ⟨p, hp, hasks⟩
    · rintro ⟨p, hp, hasks⟩
      exact ⟨p, hp, hasks, hasks.max_attempts⟩
  · refine (create_workflow_postgres hclean).trans (and_congr_left' ?_)
    constructor
    · rintro ⟨out, hout⟩ task htask htype
      rw [create_workflow_none hgraph howns ⟨task, htask, htype⟩] at hout
      cases hout
    · exact create_workflow_isOk hd hids hgraph howns

end Post

/-! ## One policy of each type -/

/-- A task that leaves everything but its policy to the schema. -/
def postedTask (key : String) (depends_on : List String) (policy : RetryPolicySpec)
    (hkey : TaskKey key) (hdepends : ∀ k ∈ depends_on, TaskKey k) (honce : depends_on.Nodup) :
    TaskDefinition where
  key := key
  executor := "noop"
  params := .empty
  depends_on := depends_on
  retry_policy := policy
  priority := 0
  timeout_seconds := 300
  key_valid := hkey
  executor_bounds := by decide
  depends_on_valid := hdepends
  no_duplicate_dependencies := honce
  priority_bounds := by decide
  timeout_bounds := by decide +kernel

/-- Two tasks, the first with a policy of its own. -/
def postedChain (policy : RetryPolicySpec) : WorkflowCreate where
  name := "chain"
  description := none
  tasks := [
    postedTask "a" [] policy (by decide +kernel) nofun List.nodup_nil,
    postedTask "b" ["a"] .default (by decide +kernel) (by decide +kernel) (by decide)]
  name_valid := by decide +kernel
  description_bounds := nofun
  tasks_bounds := (by decide : 1 ≤ 2 ∧ 2 ≤ 500)

theorem postedChain_graph (policy : RetryPolicySpec) : (postedChain policy).Graph where
  keys := (by decide : ["a", "b"].Nodup)
  known := by
    intro task htask k hk
    rcases List.mem_pair.mp htask with rfl | rfl
    · cases hk
    · rw [List.mem_singleton.mp hk]
      exact List.mem_cons_self
  acyclic := by
    -- The one edge is not a loop.
    have hedge : ∀ k l, DependsOn (postedChain policy).specs k l → k = "a" ∧ l = "b" := by
      rintro k l ⟨spec, hspec, rfl, hk⟩
      rcases List.mem_pair.mp hspec with rfl | rfl
      · cases hk
      · exact ⟨List.mem_singleton.mp hk, rfl⟩
    intro k hk
    obtain ⟨_, hfirst, -⟩ := Relation.TransGen.head'_iff.mp hk
    obtain ⟨_, -, hlast⟩ := Relation.TransGen.tail'_iff.mp hk
    have hne : "a" = "b" := (hedge _ _ hfirst).1.symm.trans (hedge _ _ hlast).2
    exact absurd hne (by decide)

/-- `{"type": "fixed", "delay": 2}`. -/
def twoSeconds : RetryPolicySpec :=
  { RetryPolicySpec.default with
    type := .fixed
    delay := some 2
    delay_bounds := by decide +kernel }

/-- `{"type": "none"}`. -/
def noRetries : RetryPolicySpec := { RetryPolicySpec.default with type := .none }

def chainIds : WorkflowIds := ⟨1, fun key => if key = "a" then 2 else 3⟩

theorem accepted_policies_posted :
    twoSeconds.Built ∧ (postedChain twoSeconds).Posted true Db.empty chainIds 0 := by
  have hempty : Db.empty.Definitions := (runnable_transacted true []).1.definitions
  have hboth : (twoSeconds.Built ↔ twoSeconds.type ≠ .none) ∧
      ((postedChain twoSeconds).Posted true Db.empty chainIds 0 ↔
        (postedChain twoSeconds).Retries ∧ (postedChain twoSeconds).hasNul = false) :=
    accepted_policies_iff (by decide +kernel) 0 hempty (by rfl) (by decide +kernel)
      (postedChain_graph twoSeconds) (by decide +kernel)
  exact ⟨hboth.1.mpr nofun, hboth.2.mpr ⟨by decide +kernel, by decide +kernel⟩⟩

/-- A spec of type `none` cannot be built, and a workflow with it is not published. -/
theorem posted_none_refused :
    noRetries.OwnOptions ∧
      build_policy (some noRetries.to_spec) =
        .error (.ValueError "unknown options for 'none' policy: ['attempts']") ∧
      (postedChain noRetries).Graph ∧
      ¬ (postedChain noRetries).Posted true Db.empty chainIds 0 := by
  have hown : noRetries.OwnOptions := by decide +kernel
  refine ⟨hown, RetryPolicySpec.build_none rfl hown, postedChain_graph noRetries, ?_⟩
  rintro ⟨out, hout⟩
  rw [create_workflow_none (postedChain_graph noRetries) (by decide +kernel)
    ⟨_, List.mem_cons_self, rfl⟩] at hout
  cases hout

end Conductor
