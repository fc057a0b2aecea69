/-
What a publish raises when others publish too.

`create` sends its rows in three flushes, and the `except` that turns an
`IntegrityError` into a `ConflictError` is around the last of them, which sends the
edges. Two publishes of one name collide on the version of the workflow, and that row
is sent by the first flush: the error is not caught there. What the last flush can
collide on is an edge that one list names twice, and then no other publish is needed
for a `ConflictError`.

Where neither happens nothing fails. A publish relies on its ids alone, which are in no
row and no other open publish; what it needs of the others is that none of them commits
a version of the name between its read and its first flush.
-/
import Conductor.Leases
import Conductor.Publishing
import Conductor.Versions

set_option autoImplicit false

open Relational Txn

namespace Conductor

open WorkflowRepository

variable {checks : Bool} {db own own' : Db} {trace trace' : List (Event Db)} {p p' : Publish}

/-! ## Reports -/

/-- The statements of one publish. -/
def Publish.body (p : Publish) : Tx Workflow := create p.ids p.now p.name p.tasks p.description

/-- Open publishes on one database. -/
abbrev Publishers := Sys Db Exn Workflow Publish

/-- The version that a publish has computed, once it has read. -/
def attempted (t : Session Db Exn Workflow Publish) : Option ℤ :=
  (lastSeen t.trace).map (fun v => (v.versions t.call.name).foldl max 0 + 1)

/-- Another publish has committed the name with the version that this one has computed. -/
def taken (s : Publishers) (i : ℕ) : Bool :=
  (s.session i).any (fun t =>
    (attempted t).any (fun version => version ∈ s.committed.versions t.call.name))

def Exn.isConflictError : Exn → Bool
  | .ConflictError _ => true
  | _ => false

/-- What a publish raised, if it did. -/
def raisedBy (r : Record Db Exn Workflow Publish) : Option Exn :=
  match r.ending with
  | .failed e => some e
  | _ => none

/-- A publish that is broken off gives no answer. -/
def answered (r : Record Db Exn Workflow Publish) : Bool :=
  match r.ending with
  | .lost => false
  | _ => true

/-- If a publish ends at this step, it lets no `IntegrityError` out, and raises a
`ConflictError` exactly when another has committed its version. -/
def ReportsConflict (checks : Bool) (s : Publishers) (l : Label Publish Lock) : Prop :=
  ∀ r ∈ s.ended (store checks) l, answered r = true →
    (raisedBy r).any Exn.isIntegrityError = false ∧
      ((raisedBy r).any Exn.isConflictError = true ↔ taken s r.session = true)

instance (checks : Bool) (s : Publishers) (l : Label Publish Lock) :
    Decidable (ReportsConflict checks s l) :=
  inferInstanceAs (Decidable (∀ r ∈ s.ended (store checks) l, _ → _))

/-! ## The conditions -/

/-- Ids that no row has or refers to. -/
structure FreshIds (db : Db) (p : Publish) : Prop where
  ids : NewWorkflowIds db p.ids p.tasks
  tasks : ∀ t ∈ db.tasks.rows, t.workflow_id ≠ p.ids.workflow_id
  edges : ∀ e ∈ db.task_dependencies.rows, ∀ spec ∈ p.tasks,
    e.child_task_id ≠ p.ids.task_id spec.key

instance (db : Db) (p : Publish) : Decidable (FreshIds db p) :=
  decidable_of_iff (NewWorkflowIds db p.ids p.tasks ∧
      (∀ t ∈ db.tasks.rows, t.workflow_id ≠ p.ids.workflow_id) ∧
      ∀ e ∈ db.task_dependencies.rows, ∀ spec ∈ p.tasks, e.child_task_id ≠ p.ids.task_id spec.key)
    ⟨fun h => ⟨h.1, h.2.1, h.2.2⟩, fun h => ⟨h.ids, h.tasks, h.edges⟩⟩

/-- Two publishes that have no id in common. -/
def Publish.Apart (p p' : Publish) : Prop :=
  p.ids.workflow_id ≠ p'.ids.workflow_id ∧ ∀ spec ∈ p.tasks, ∀ spec' ∈ p'.tasks,
    p.ids.task_id spec.key ≠ p'.ids.task_id spec'.key

instance (p p' : Publish) : Decidable (p.Apart p') := inferInstanceAs (Decidable (_ ∧ _))

theorem Publish.Apart.symm (h : p.Apart p') : p'.Apart p :=
  ⟨h.1.symm, fun spec hspec spec' hspec' he => h.2 spec' hspec' spec hspec he.symm⟩

/-- The view of the version read, as long as nothing has been written. -/
def versionRead : List (Event Db) → Option Db
  | [.saw v] => some v
  | _ => none

/-- At the end of the flush of the workflow, every version of the name was there when
the versions were read. -/
def NotOvertaken (p : Publish) (trace : List (Event Db)) (_ view : Db) : Prop :=
  ∀ seen ∈ versionRead trace, ∀ version ∈ view.versions p.name, version ∈ seen.versions p.name

instance (p : Publish) (trace : List (Event Db)) (started view : Db) :
    Decidable (NotOvertaken p trace started view) :=
  inferInstanceAs (Decidable (∀ seen ∈ versionRead trace, ∀ version ∈ view.versions p.name, _))

/-- Specs that pass the checks of `create`, with values that the columns take and no
dependency listed twice. -/
def Publish.Plain (p : Publish) : Prop := Publishable p.tasks ∧ ∀ spec ∈ p.tasks, Storable spec

instance (p : Publish) : Decidable p.Plain := inferInstanceAs (Decidable (_ ∧ _))

/-- `uuid.uuid4()` draws ids that no row and no other open publish has. -/
def DrawsFresh (s : Publishers) : Label Publish Lock → Prop
  | .begin p => FreshIds s.committed p ∧ ∀ t ∈ s.sessions.filterMap id, p.Apart t.call
  | _ => True

instance (s : Publishers) : DecidablePred (DrawsFresh s)
  | .begin _ => inferInstanceAs (Decidable (_ ∧ _))
  | .start _ => isTrue trivial
  | .next _ _ => isTrue trivial
  | .commit _ => isTrue trivial
  | .abort _ => isTrue trivial

/-- Publishes of specs that pass the checks of `create`. -/
def Passing (checks : Bool) (s : Publishers) (l : Label Publish Lock) : Prop :=
  StepMeets (store checks) (fun _ p => Publishable p.tasks) (fun _ _ _ _ => True)
    (fun _ _ _ _ => True) s l ∧ DrawsFresh s l

/-- Plain publishes, none of which is overtaken. -/
def Undisturbed (checks : Bool) (s : Publishers) (l : Label Publish Lock) : Prop :=
  StepMeets (store checks) (fun _ p => p.Plain) NotOvertaken (fun _ _ _ _ => True) s l ∧
    DrawsFresh s l

/-! ## The statements of a publish -/

/-- The versions of the session are not committed. -/
def Unclaimed (db own : Db) (_ : List (Event Db)) : Prop :=
  ∀ w ∈ own.workflows.rows, w.version ∉ db.versions w.name

/-- The rows of a publish that has sent all of them. -/
structure Issued (p : Publish) (own : Db) (trace : List (Event Db)) : Prop where
  workflow : ∃ w, own.workflows.rows = [w] ∧ w.id = p.ids.workflow_id ∧ w.name = p.name ∧
    (lastSeen trace).map (fun v => (v.versions p.name).foldl max 0 + 1) = some w.version
  tasks : own.tasks.rows = p.tasks.map (newTask p.ids)
  edges : own.task_dependencies.rows = newDependencies p.ids p.tasks

/-- A version that passes the constraint is not committed. -/
theorem unclaimed_of_validate {t : Table UUID Workflow Workflow.id}
    (h : (store checks).validate .insert db { Db.empty with workflows := t } = none) :
    Unclaimed db { Db.empty with workflows := t } trace := by
  intro w hw hmem
  obtain ⟨v, hv, hname, hversion⟩ := Db.mem_versions.mp hmem
  exact (validate_insertWorkflows.mp h).1.2.1 w hw v hv (by rw [hname, hversion])

/-- The commit of another session claims versions of its own. -/
theorem Unclaimed.commit (h : Unclaimed db own trace)
    (hdisjoint : ∀ l ∈ own.locks, l ∉ own'.locks) : Unclaimed (own'.overlay db) own trace := by
  intro w hw hmem
  obtain ⟨v, hv, hname, hversion⟩ := Db.mem_versions.mp hmem
  rcases Table.mem_overlay.mp hv with hv | ⟨hv, -⟩
  · refine hdisjoint _ (Db.mem_locks_workflowVersion hw) ?_
    rw [← hname, ← hversion]
    exact Db.mem_locks_workflowVersion hv
  · exact h w hw (Db.mem_versions.mpr ⟨v, hv, hname, hversion⟩)

/-- The rows of a publish after its second flush. -/
theorem sent_tasks {row : Table UUID Workflow Workflow.id} {tasks : Table UUID Task Task.id} :
    Db.overlay { Db.empty with tasks := tasks } { Db.empty with workflows := row }
      = { Db.empty with workflows := row, tasks := tasks } := by
  simp only [Db.overlay, Db.empty, Table.overlay_empty, Table.empty_overlay]

/-- The rows of a publish after its third flush. -/
theorem sent_edges {row : Table UUID Workflow Workflow.id} {tasks : Table UUID Task Task.id}
    {edges : Table (UUID × UUID) TaskDependency TaskDependency.pk} :
    Db.overlay { Db.empty with task_dependencies := edges }
        { Db.empty with workflows := row, tasks := tasks }
      = { Db.empty with workflows := row, tasks := tasks, task_dependencies := edges } := by
  simp only [Db.overlay, Db.empty, Table.overlay_empty, Table.empty_overlay]

/-- **What a publish has sent when it returns.** -/
theorem outline_publish {M : List (Event Db) → Db → Db → Prop} (p : Publish) :
    Outline (store checks) (fun _ => True) Unclaimed M (fun _ => Issued p) p.body Db.empty [] := by
  unfold Publish.body create
  refine Outline.bind _ (Outline.lift _ (Q := fun _ own' trace' => own' = Db.empty ∧ trace' = [])
    (fun _ _ => ⟨rfl, rfl⟩)) ?_
  rintro _ _ _ ⟨rfl, rfl⟩
  refine Outline.bind _ (Q := fun version own' trace' => own' = Db.empty ∧
    (lastSeen trace').map (fun v => (v.versions p.name).foldl max 0 + 1) = some version) ?_ ?_
  -- Nothing has been written when the versions are read.
  · exact fun db _ _ => ⟨fun _ hw => absurd hw List.not_mem_nil, rfl, rfl⟩
  rintro version _ trace ⟨rfl, hversion⟩
  refine Outline.bind _ (outline_newTable (Q := fun t own' trace' => t.rows = [_] ∧
    own' = Db.empty ∧ trace = trace') (fun t ht => ⟨ht, rfl, rfl⟩)) ?_
  rintro row _ _ ⟨hrow, rfl, rfl⟩
  refine Outline.bind _ (outline_flush (Q := fun _ own' trace' =>
    own' = { Db.empty with workflows := row } ∧ lastSeen trace' = lastSeen trace)
    (fun db _ _ hvalid => ?_) ⟨Api.overlay_empty _, rfl⟩) ?_
  -- The constraint on name and version holds of what is committed.
  · rw [Api.empty_overlay] at hvalid
    rw [Api.overlay_empty]
    exact unclaimed_of_validate hvalid
  rintro _ _ trace' ⟨rfl, hseen⟩
  refine Outline.bind _ (outline_newTable (Q := fun t own' trace'' =>
    t.rows = p.tasks.map (newTask p.ids) ∧ own' = { Db.empty with workflows := row } ∧
      trace' = trace'') (fun t ht => ⟨ht, rfl, rfl⟩)) ?_
  rintro tasks _ _ ⟨htasks, rfl, rfl⟩
  refine Outline.bind _ (outline_flush (Q := fun _ own' trace'' =>
    own' = { Db.empty with workflows := row, tasks := tasks } ∧ lastSeen trace'' = lastSeen trace)
    (fun db _ hclaim _ => ?_) ⟨sent_tasks, hseen⟩) ?_
  · rw [sent_tasks]
    exact hclaim
  rintro _ _ trace'' ⟨rfl, hseen'⟩
  refine Outline.bind _ (outline_newTable (Q := fun t own' trace₃ =>
    t.rows = newDependencies p.ids p.tasks ∧
      own' = { Db.empty with workflows := row, tasks := tasks } ∧ trace'' = trace₃)
    (fun t ht => ⟨ht, rfl, rfl⟩)) ?_
  rintro edges _ _ ⟨hedges, rfl, rfl⟩
  refine Outline.bind _ (outline_flush (Q := fun _ own' trace₃ =>
    own' = { Db.empty with workflows := row, tasks := tasks, task_dependencies := edges } ∧
      lastSeen trace₃ = lastSeen trace) (fun db _ hclaim _ => ?_) ⟨sent_edges, hseen'⟩) ?_
  · rw [sent_edges]
    exact hclaim
  rintro _ _ _ ⟨rfl, hlast⟩
  refine ⟨⟨_, hrow, rfl, rfl, ?_⟩, htasks, hedges⟩
  rw [hlast]
  exact hversion

/-- The publishes keep to their annotations. -/
def issuing (checks : Bool) : Discipline (store checks) Publish.body (fun _ p => p.Plain)
    NotOvertaken (fun _ _ _ _ => True) where
  I _ := True
  J := Unclaimed
  Q p _ := Issued p
  begins _ p _ _ := ⟨fun _ hw => absurd hw List.not_mem_nil, outline_publish p⟩
  commits _ _ _ _ _ _ _ _ _ := trivial
  stable _ _ _ _ _ _ h _ hdisjoint := h.commit hdisjoint

/-! ## No statement fails -/

/-- **A plain publish with fresh ids does not fail**, unless it is overtaken. -/
theorem unfailing_publish {F : Db → Prop} (hplain : p.Plain) (hF : ∀ db, F db → FreshIds db p)
    (hinj : ∀ k ∈ p.tasks.map TaskSpec.key, ∀ l ∈ p.tasks.map TaskSpec.key,
      p.ids.task_id k = p.ids.task_id l → k = l) :
    Unfailing (store checks) (fun _ => True) Unclaimed (NotOvertaken p) F (fun _ _ _ => True)
      p.body Db.empty [] := by
  obtain ⟨hpublishable, hstorable⟩ := hplain
  unfold Publish.body create
  rw [checkSpecs_iff.mpr hpublishable]
  refine Unfailing.bind (Q := fun version own' trace' => own' = Db.empty ∧
    ∃ v, trace' = [.saw v] ∧ version = (v.versions p.name).foldl max 0 + 1)
    (fun _ _ _ _ => ⟨rfl, _, rfl, rfl⟩) ?_
  rintro version _ _ ⟨rfl, v, rfl, hversion⟩
  refine Unfailing.bind (unfailing_newTable (List.nodup_singleton _)) ?_
  rintro row _ _ ⟨hrow, rfl, rfl⟩
  refine Unfailing.bind (unfailing_insertRows (Q := fun _ own' _ =>
    own' = { Db.empty with workflows := row }) (fun _ db _ _ hfresh hmeets => ?_)
    (Api.overlay_empty _)) ?_
  · rw [Api.empty_overlay db] at hmeets ⊢
    obtain ⟨-, hle⟩ := foldl_max_spec (v.versions p.name)
    refine validate_newWorkflow hrow (hF db hfresh).ids.workflow (fun w hw hname hsame => ?_) ?_
    · -- A version that is there was there, so it is not above the largest.
      have hold := hmeets v rfl w.version (Db.mem_versions.mpr ⟨w, hw, hname, rfl⟩)
      have := hle w.version (List.mem_cons_of_mem 0 hold)
      dsimp only at hsame
      omega
    · have := hle 0 List.mem_cons_self
      dsimp only
      omega
  rintro _ _ trace rfl
  refine Unfailing.bind (unfailing_newTable (nodup_newTasks hpublishable hinj)) ?_
  rintro tasks _ _ ⟨htasks, rfl, rfl⟩
  refine Unfailing.bind (unfailing_insertRows (Q := fun _ own' _ =>
    own' = { Db.empty with workflows := row, tasks := tasks }) (fun _ db _ _ hfresh _ => ?_)
    sent_tasks) ?_
  · have hview : (Db.overlay { Db.empty with workflows := row } db).tasks = db.tasks :=
      Table.empty_overlay _
    refine validate_newTasks htasks hpublishable.keys hstorable (fun r hr => ?_)
    rw [hview] at hr
    exact ⟨(hF db hfresh).tasks r hr, (hF db hfresh).ids.tasks r hr⟩
  rintro _ _ trace rfl
  refine Unfailing.bind (unfailing_newTable
    (nodup_newDependencies hpublishable hinj hstorable)) ?_
  rintro edges _ _ ⟨hedges, rfl, rfl⟩
  refine Unfailing.bind (unfailing_insertRows (Q := fun _ _ _ => True)
    (fun _ db _ _ hfresh _ => ?_) trivial) (fun _ _ _ _ => trivial)
  have hview : (Db.overlay { Db.empty with workflows := row, tasks := tasks } db).task_dependencies
      = db.task_dependencies := Table.empty_overlay _
  refine validate_newDependencies hedges hpublishable hinj (fun e he => ?_)
  rw [hview] at he
  exact (hF db hfresh).edges e he

/-- The rows of another publish leave the ids of this one fresh. -/
theorem FreshIds.commit (h : FreshIds db p) (hapart : p.Apart p') (hissued : Issued p' own trace) :
    FreshIds (own.overlay db) p := by
  obtain ⟨w, hrow, hid, -, -⟩ := hissued.workflow
  have htask : ∀ t ∈ (own.overlay db).tasks.rows, t ∈ db.tasks.rows ∨
      ∃ spec ∈ p'.tasks, t = newTask p'.ids spec := by
    intro t ht
    rcases Table.mem_overlay.mp ht with ht | ⟨ht, -⟩
    · rw [hissued.tasks] at ht
      obtain ⟨spec, hspec, rfl⟩ := List.mem_map.mp ht
      exact Or.inr ⟨spec, hspec, rfl⟩
    · exact Or.inl ht
  refine ⟨⟨fun u hu => ?_, fun t ht spec hspec => ?_, h.ids.distinct⟩, fun t ht => ?_,
    fun e he spec hspec => ?_⟩
  -- A row is an old one, or one of the other publish with one of its ids.
  · rcases Table.mem_overlay.mp hu with hu | ⟨hu, -⟩
    · rw [hrow] at hu
      rw [List.mem_singleton.mp hu, hid]
      exact hapart.1.symm
    · exact h.ids.workflow u hu
  · rcases htask t ht with ht | ⟨spec', hspec', rfl⟩
    · exact h.ids.tasks t ht spec hspec
    · exact (hapart.2 spec hspec spec' hspec').symm
  · rcases htask t ht with ht | ⟨spec', -, rfl⟩
    · exact h.tasks t ht
    · exact hapart.1.symm
  · rcases Table.mem_overlay.mp he with he | ⟨he, -⟩
    · rw [hissued.edges] at he
      obtain ⟨spec', hspec', hchild, -⟩ := Published.mem_newDependencies.mp he
      rw [← hchild]
      exact (hapart.2 spec hspec spec' hspec').symm
    · exact h.edges e he spec hspec

/-- The publishes keep to annotations under which nothing fails. -/
def unhindered (checks : Bool) : Progress (issuing checks) where
  F p db := FreshIds db p
  R := Publish.Apart
  begins _ _ _ hplain hfresh := unfailing_publish hplain (fun _ h => h) hfresh.ids.distinct
  stable _ _ _ _ _ _ _ hfresh hapart _ hissued := hfresh.commit hapart hissued

/-! ## Every interleaving -/

/-- States of any number of publishes, interleaved at their statements by steps that meet
`C`. -/
def Racing (checks : Bool) (C : Publishers → Label Publish Lock → Prop) : Publishers → Prop :=
  Lts.ReachVia (fun s => s.sessions = []) (fun s l s' => s.step (store checks) Publish.body l = s') C

variable {s : Publishers} {l : Label Publish Lock}

theorem DrawsFresh.admits (h : DrawsFresh s l) : (unhindered checks).Admits s l := by
  cases l with
  | begin p =>
      refine ⟨h.1, fun i t ht => ?_⟩
      have hapart := h.2 t (List.mem_filterMap.mpr ⟨some t, Sys.mem_of_session ht, rfl⟩)
      exact ⟨hapart, hapart.symm⟩
  | _ => trivial

/-- **Conflicts are reported.** In a run of plain publishes none of which is overtaken,
whoever ends has let no `IntegrityError` out, and has raised a `ConflictError` exactly
if another has committed its version. -/
theorem conflicts_reported (h : Racing checks (Undisturbed checks) s)
    (hl : Undisturbed checks s l) : ReportsConflict checks s l := by
  have hreach : Lts.ReachVia _ _ (fun s l =>
      StepMeets (store checks) (fun _ p => p.Plain) NotOvertaken (fun _ _ _ _ => True) s l ∧
        (unhindered checks).Admits s l) s :=
    h.mono (fun s l hl => ⟨hl.1, DrawsFresh.admits hl.2⟩)
  obtain ⟨hsafe, hsound⟩ :=
    (unhindered checks).sound store_lawful (fun _ hs => ⟨trivial, hs⟩) hreach
  intro r hr hanswered
  unfold raisedBy
  cases hending : r.ending with
  | lost =>
      rw [answered, hending] at hanswered
      cases hanswered
  | failed e => exact absurd hending (Progress.not_failed hsound hsafe hl.1 hr e)
  | committed workflow rows =>
      refine ⟨rfl, iff_of_false Bool.false_ne_true ?_⟩
      -- The version of a publish that commits was claimed by nobody else.
      obtain ⟨t, -, ht, -, hrest, -⟩ := Sys.ended_committed hr hending
      obtain ⟨⟨w, hrow, -, hname, hversion⟩, -, -⟩ : Issued t.call t.own t.trace :=
        hsafe.post ht (by rw [Session.result, hrest])
      have hclaim : w.version ∉ s.committed.versions w.name :=
        (hsafe.session _ t ht).own w (by rw [hrow]; exact List.mem_singleton_self w)
      rw [taken, ht, Option.any_some, attempted, hversion, Option.any_some, ← hname]
      exact fun htaken => hclaim (of_decide_eq_true htaken)

/-! ## In turn, overtaken, and alone -/

instance (checks : Bool) (s : Publishers) : DecidablePred (Passing checks s) :=
  fun _ => inferInstanceAs (Decidable (_ ∧ _))

instance (checks : Bool) (s : Publishers) : DecidablePred (Undisturbed checks s) :=
  fun _ => inferInstanceAs (Decidable (_ ∧ _))

/-- The publishes after a schedule, from the empty database. -/
def afterRacing (schedule : List (Label Publish Lock)) : Publishers :=
  schedule.foldl (fun s l => s.step (store true) Publish.body l) ⟨Db.empty, []⟩

/-- The three flushes. -/
def sendAll (i : ℕ) : List (Label Publish Lock) :=
  writeAt i ++ writeAt i ++ writeAt i

/-- The second publish reads the version after the first has committed. -/
def inTurn : List (Label Publish Lock) :=
  [.begin (publishSolo 1), .begin (publishSolo 2), proceed 0] ++ sendAll 0 ++
    [.commit 0, proceed 1] ++ sendAll 1

theorem conflicts_reported_in_turn :
    ((afterRacing inTurn).ended (store true) (.commit 1)).map answered = some true ∧
    ReportsConflict true (afterRacing inTurn) (.commit 1) :=
  ⟨by decide +kernel, conflicts_reported
    (Lts.ReachVia.foldl (.start rfl) (by decide +kernel)) (by decide +kernel)⟩

/-- It has read the version before, and its first flush is under way. -/
def overtaken : List (Label Publish Lock) :=
  [.begin (publishSolo 1), .begin (publishSolo 2), proceed 0, proceed 1] ++
    sendAll 0 ++ [.commit 0, .start 1]

/-- One publish, of a task that lists its parent twice. -/
def publishTwice : Publish :=
  ⟨⟨1, fun key => if key = "a" then 2 else 3⟩, 0, "twice",
    [sampleTask "a" [] noRetry, sampleTask "b" ["a", "a"] noRetry], none⟩

def listedTwice : List (Label Publish Lock) :=
  [.begin publishTwice, proceed 0, .start 0, proceed 0, .start 0, proceed 0]

/-- An overtaken publish lets the `IntegrityError` out, and one that lists a dependency
twice reports a conflict with nobody. -/
theorem conflicts_misreported :
    (Racing true (Passing true) (afterRacing overtaken) ∧
      ((afterRacing overtaken).ended (store true) (proceed 1)).bind raisedBy
        = some (.IntegrityError "uq_workflows_name_version") ∧
      ¬ ReportsConflict true (afterRacing overtaken) (proceed 1)) ∧
    Racing true (Passing true) (afterRacing listedTwice) ∧
      ((afterRacing listedTwice).ended (store true) (.abort 0)).bind raisedBy
        = some (.ConflictError "workflow 'twice' version 1 already exists") ∧
      ¬ ReportsConflict true (afterRacing listedTwice) (.abort 0) :=
  ⟨⟨Lts.ReachVia.foldl (.start rfl) (by decide +kernel), by decide +kernel, by decide +kernel⟩,
    Lts.ReachVia.foldl (.start rfl) (by decide +kernel), by decide +kernel, by decide +kernel⟩

end Conductor
