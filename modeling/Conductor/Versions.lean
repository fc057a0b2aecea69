/-
The versions of a workflow.

`create` reads the largest version of a name, adds one, and inserts a workflow with
that number. By the time of the insert the number may be old: others may have
committed it, or hold it in an open transaction. The `UNIQUE (name, version)` is what
then refuses the insert, after the other transaction has ended if it was open.

What carries the proof is that a session sees a numbering without gaps at every moment,
its own versions included, and still sees all that it has read. A version that passes
the constraint is one more than a numbering that is contained in the present one, so it
is the next of the present one.
-/
import Conductor.Interleaving
import Conductor.Lib.Keyset
import Conductor.Lib.Numbering

set_option autoImplicit false

open Relational Txn

namespace Conductor

open WorkflowRepository

/-! ## Publishing -/

/-- A call of `create`. -/
structure Publish where
  ids : WorkflowIds
  now : Time
  name : String
  tasks : List TaskSpec
  description : Option String

/-- A transaction that publishes workflows one after the other. -/
def publishAll : List Publish → Tx (List Workflow)
  | [] => return []
  | p :: rest => do
      let workflow ← create p.ids p.now p.name p.tasks p.description
      let workflows ← publishAll rest
      return workflow :: workflows

/-- The versions that a name has. -/
def Db.versions (db : Db) (name : String) : List ℤ :=
  (db.workflows.rows.filter (fun w => w.name = name)).map Workflow.version

/-- The versions of every name are 1, …, n. -/
def Db.Gapless (db : Db) : Prop := ∀ name, Numbered (db.versions name)

/-- States of any number of such transactions, interleaved at their statements. -/
def Publishing (checks : Bool) : Sys Db Exn (List Workflow) (List Publish) → Prop :=
  Lts.Reach (fun s => s.committed.Gapless ∧ s.sessions = [])
    (fun s l s' => s.step (store checks) publishAll l = s')

variable {checks : Bool} {db own own' d : Db} {trace trace' : List (Event Db)} {name : String}

theorem Db.mem_versions {v : ℤ} :
    v ∈ db.versions name ↔ ∃ w ∈ db.workflows.rows, w.name = name ∧ w.version = v := by
  simp only [versions, List.mem_map, List.mem_filter, decide_eq_true_eq, and_assoc]

/-- New workflows are more versions. -/
theorem Db.versions_overlay (hnew : ∀ w ∈ own.workflows.rows, db.workflows.get w.id = none) :
    (own.overlay db).versions name = db.versions name ++ own.versions name := by
  unfold versions
  rw [show (own.overlay db).workflows.rows = _ from Table.rows_overlay_of_new hnew,
    List.filter_append, List.map_append]

theorem Db.mem_locks_workflow {w : Workflow} (hw : w ∈ d.workflows.rows) :
    .workflow w.id ∈ d.locks := by
  simp only [Db.locks, List.append_assoc]
  exact List.mem_append_left _ (List.mem_map_of_mem hw)

theorem Db.mem_locks_workflowVersion {w : Workflow} (hw : w ∈ d.workflows.rows) :
    .workflowVersion w.name w.version ∈ d.locks := by
  simp only [Db.locks, List.append_assoc]
  exact List.mem_append_right _ (List.mem_append_left _ (List.mem_map_of_mem hw))

/-! ## What holds of an open transaction -/

/-- The workflows of the session are new, it sees no gaps, and it still sees what it
has seen, where there were none either. -/
structure Drafted (db own : Db) (trace : List (Event Db)) : Prop where
  new : ∀ w ∈ own.workflows.rows, db.workflows.get w.id = none
  gapless : (own.overlay db).Gapless
  seen : ∀ v, .saw v ∈ trace → v.Gapless ∧
    ∀ w ∈ v.workflows.rows, w ∈ (own.overlay db).workflows.rows

namespace Drafted

theorem start (h : db.Gapless) : Drafted db Db.empty [] := by
  refine ⟨fun _ hw => absurd hw List.not_mem_nil, ?_, fun _ hv => absurd hv List.not_mem_nil⟩
  rw [show Db.empty.overlay db = db from (store false).empty_overlay db]
  exact h

theorem read (h : Drafted db own trace) : Drafted db own (.saw (own.overlay db) :: trace) := by
  refine ⟨h.new, h.gapless, fun v hv => ?_⟩
  rcases List.mem_cons.mp hv with he | hv
  · cases he
    exact ⟨h.gapless, fun _ hw => hw⟩
  · exact h.seen v hv

/-- A flush of other rows. -/
theorem insert (h : Drafted db own trace) (hd : d.workflows = Table.empty) :
    Drafted db (d.overlay own) (.wrote d :: trace) := by
  have hsame : (d.overlay own).workflows = own.workflows := by
    show d.workflows.overlay own.workflows = _
    rw [hd, Table.empty_overlay]
  have hview : ((d.overlay own).overlay db).workflows = (own.overlay db).workflows := by
    show (d.overlay own).workflows.overlay db.workflows = _
    rw [hsame]
    rfl
  refine ⟨?_, fun name => ?_, fun v hv => ?_⟩
  · rw [hsame]
    exact h.new
  · rw [Db.versions, hview]
    exact h.gapless name
  · rw [hview]
    rcases List.mem_cons.mp hv with he | hv
    · cases he
    · exact h.seen v hv

/-- A version that the session has computed and that passes the constraint is the next
one. -/
theorem next_version {v : Db} {w : Workflow} (h : Drafted db own trace) (hv : .saw v ∈ trace)
    (hversion : w.version = (v.versions w.name).length + 1)
    (hfree : w.version ∉ (own.overlay db).versions w.name) :
    w.version = ((own.overlay db).versions w.name).length + 1 := by
  obtain ⟨hgapless, hstill⟩ := h.seen v hv
  rw [hversion] at hfree ⊢
  rw [(h.gapless w.name).length_of_next (hgapless w.name) (fun u hu => ?_) hfree]
  obtain ⟨w', hw', hname, rfl⟩ := Db.mem_versions.mp hu
  exact Db.mem_versions.mpr ⟨w', hstill w' hw', hname, rfl⟩

/-- The flush of the workflow itself. -/
theorem publish {v : Db} {w : Workflow} {t : Table UUID Workflow Workflow.id}
    (h : Drafted db own trace) (ht : t.rows = [w]) (hv : .saw v ∈ trace)
    (hversion : w.version = (v.versions w.name).length + 1)
    (hvalid : (store checks).validate .insert (own.overlay db)
      { Db.empty with workflows := t } = none) :
    Drafted db (Db.overlay { Db.empty with workflows := t } own)
      (.wrote { Db.empty with workflows := t } :: trace) := by
  obtain ⟨⟨hids, hpairs, -⟩, -⟩ := validate_insertWorkflows.mp hvalid
  rw [ht] at hids hpairs
  have hfree : w.version ∉ (own.overlay db).versions w.name := by
    intro hmem
    obtain ⟨u, hu, hname, hsame⟩ := Db.mem_versions.mp hmem
    exact hpairs w (List.mem_singleton_self w) u hu (by rw [hname, hsame])
  have hview : (Db.overlay { Db.empty with workflows := t } own).overlay db
      = Db.overlay { Db.empty with workflows := t } (own.overlay db) :=
    ((store checks).overlay_overlay _ own db).symm
  have hnew : ∀ u ∈ t.rows, (own.overlay db).workflows.get u.id = none := by
    intro u hu
    rw [ht] at hu
    rw [List.mem_singleton.mp hu]
    exact Table.get_eq_none.mpr (hids w (List.mem_singleton_self w))
  refine ⟨fun u hu => ?_, fun name => ?_, fun v' hv' => ?_⟩
  · rcases Table.mem_overlay.mp hu with hu | ⟨hu, -⟩
    · have hnone := hnew u hu
      rw [Db.overlay, Table.get_overlay, Option.or_eq_none_iff] at hnone
      exact hnone.2
    · exact h.new u hu
  · rw [hview, Db.versions_overlay hnew]
    by_cases hname : w.name = name
    · -- One more version of this name, the next.
      have hone : Db.versions { Db.empty with workflows := t } name = [w.version] := by
        simp only [Db.versions, ht, List.filter_singleton, hname, decide_true, List.map_cons,
          List.map_nil, cond_true]
      rw [hone, ← hname, h.next_version hv hversion hfree]
      exact (h.gapless w.name).append_next
    · have hnone : Db.versions { Db.empty with workflows := t } name = [] := by
        simp only [Db.versions, ht, List.filter_singleton, hname, decide_false, List.map_nil,
          cond_false]
      rw [hnone, List.append_nil]
      exact h.gapless name
  · rcases List.mem_cons.mp hv' with he | hv'
    · cases he
    obtain ⟨hgapless, hstill⟩ := h.seen v' hv'
    refine ⟨hgapless, fun u hu => ?_⟩
    rw [hview]
    show u ∈ (t.overlay (own.overlay db).workflows).rows
    rw [Table.rows_overlay_of_new hnew]
    exact List.mem_append_left _ (hstill u hu)

/-- The commit of another session. Only one of the two can have versions of a name: both
would have the next one. -/
theorem commit (h : Drafted db own trace) (h' : Drafted db own' trace')
    (hdb : db.Gapless) (hdisjoint : ∀ l ∈ own.locks, l ∉ own'.locks) :
    Drafted (own'.overlay db) own trace := by
  have hnew : ∀ w ∈ own.workflows.rows, (own'.overlay db).workflows.get w.id = none := by
    intro w hw
    rw [Db.overlay, Table.get_overlay, Option.or_eq_none_iff]
    refine ⟨Table.get_eq_none.mpr (fun u hu hid => ?_), h.new w hw⟩
    refine hdisjoint _ (Db.mem_locks_workflow hw) ?_
    rw [← hid]
    exact Db.mem_locks_workflow hu
  refine ⟨hnew, fun name => ?_, fun v hv => ⟨(h.seen v hv).1, fun w hw => ?_⟩⟩
  · have hmine := h.gapless name
    have hother := h'.gapless name
    rw [Db.versions_overlay h.new] at hmine
    rw [Db.versions_overlay h'.new] at hother
    rw [Db.versions_overlay hnew, Db.versions_overlay h'.new]
    by_cases hsome : own.versions name = []
    · rw [hsome, List.append_nil]
      exact hother
    · by_cases hsome' : own'.versions name = []
      · rw [hsome', List.append_nil]
        exact hmine
      · obtain ⟨w, hw, hname, hw'⟩ := Db.mem_versions.mp ((hdb name).next_mem hmine hsome)
        obtain ⟨u, hu, huname, hu'⟩ := Db.mem_versions.mp ((hdb name).next_mem hother hsome')
        refine absurd (Db.mem_locks_workflowVersion hu) ?_
        rw [huname, hu', ← hw', ← hname]
        exact hdisjoint _ (Db.mem_locks_workflowVersion hw)
  · rcases Table.mem_overlay.mp ((h.seen v hv).2 w hw) with hw | ⟨hw, hown⟩
    · exact Table.mem_overlay.mpr (Or.inl hw)
    · refine Table.mem_overlay.mpr (Or.inr ⟨Table.mem_overlay.mpr (Or.inr ⟨hw, ?_⟩), hown⟩)
      refine Table.get_eq_none.mpr (fun u hu hid => ?_)
      exact Table.get_eq_none.mp (h'.new u hu) w hw hid.symm

end Drafted

/-! ## The transactions, statement by statement -/

section Outlines

variable {M : List (Event Db) → Db → Db → Prop} {α : Type}

theorem outline_create (p : Publish) :
    Outline (store checks) Db.Gapless Drafted M (fun _ _ _ => True)
      (create p.ids p.now p.name p.tasks p.description) own trace := by
  unfold create
  refine Outline.bind _ (Outline.lift _ (Q := fun _ _ _ => True) (fun _ _ => trivial)) ?_
  intro _ own trace _
  refine Outline.bind _ (Q := fun version _ trace' =>
    ∃ v, .saw v ∈ trace' ∧ version = ((v.versions p.name).length : ℤ) + 1) ?_ ?_
  · -- The largest of 1, …, n is n.
    intro db _ h
    refine ⟨h.read, _, List.mem_cons_self, ?_⟩
    exact congrArg (· + 1) (h.gapless p.name).foldl_max
  rintro version own trace ⟨v, hv, hversion⟩
  refine Outline.bind _ (outline_newTable (Q := fun t _ trace' => t.rows = [_] ∧ trace' = trace)
    (fun t ht => ⟨ht, rfl⟩)) ?_
  rintro row own _ ⟨hrow, rfl⟩
  refine Outline.bind _ (outline_flush (Q := fun _ _ _ => True)
    (fun _ _ h hvalid => h.publish hrow hv hversion hvalid) trivial) ?_
  intro _ own trace _
  refine Outline.bind _ (outline_newTable (Q := fun _ _ _ => True) (fun _ _ => trivial)) ?_
  intro rows own trace _
  refine Outline.bind _ (outline_flush (Q := fun _ _ _ => True)
    (fun _ _ h _ => h.insert rfl) trivial) ?_
  intro _ own trace _
  refine Outline.bind _ (outline_newTable (Q := fun _ _ _ => True) (fun _ _ => trivial)) ?_
  intro edges own trace _
  refine Outline.bind _ (outline_flush (Q := fun _ _ _ => True)
    (fun _ _ h _ => h.insert rfl) trivial) ?_
  intro _ _ _ _
  trivial

theorem outline_publishAll (calls : List Publish) :
    Outline (store checks) Db.Gapless Drafted M (fun _ _ _ => True) (publishAll calls) own
      trace := by
  induction calls generalizing own trace with
  | nil => trivial
  | cons p rest ih =>
      refine Outline.bind _ (outline_create p) (fun _ _ _ _ => ?_)
      exact Outline.bind _ ih (fun _ _ _ _ => trivial)

end Outlines

/-- The transactions keep to their annotations. -/
def drafting (checks : Bool) : Discipline (store checks) publishAll (fun _ _ => True)
    (fun _ _ _ _ => True) (fun _ _ _ _ => True) where
  I := Db.Gapless
  J := Drafted
  Q _ _ _ _ := True
  begins _ calls h _ := ⟨.start h, outline_publishAll calls⟩
  commits _ _ _ _ _ _ h _ _ := h.gapless
  stable _ _ _ _ _ hdb h h' hdisjoint := h.commit h' hdb hdisjoint

/-! ## Every interleaving -/

/-- With the versions 1, …, n, the newest is n. -/
theorem newest_version (h : Numbered (db.versions name)) :
    ((Keyset.newest Workflow.version
        (db.workflows.rows.filter (fun w => w.name = name))).head?).map Workflow.version
      = if db.versions name = [] then none else some ((db.versions name).length : ℤ) := by
  have hperm : (Keyset.newest Workflow.version
      (db.workflows.rows.filter (fun w => w.name = name))).Perm _ := Keyset.newest_perm _
  have hsorted := @Keyset.newest_sorted _ _ _ Workflow.version _ h.nodup
  have hversions : ∀ {v : ℤ}, v ∈ (Keyset.newest Workflow.version
      (db.workflows.rows.filter (fun w => w.name = name))).map Workflow.version ↔
        v ∈ db.versions name := (hperm.map Workflow.version).mem_iff
  -- The head of a list in descending order is the largest version, and n is one of them.
  revert hsorted hversions
  cases hlist : Keyset.newest Workflow.version
      (db.workflows.rows.filter (fun w => w.name = name)) with
  | nil =>
      intro _ hversions
      rw [if_pos (List.eq_nil_iff_forall_not_mem.mpr
        (fun v hv => absurd (hversions.mpr hv) List.not_mem_nil))]
      rfl
  | cons w rest =>
      intro hsorted hversions
      have hmem : w.version ∈ db.versions name := hversions.mp List.mem_cons_self
      obtain ⟨hone, hle⟩ := h.mem_iff.mp hmem
      have hlast : ((db.versions name).length : ℤ) ∈ db.versions name :=
        h.mem_iff.mpr ⟨by omega, le_refl _⟩
      rw [if_neg (List.ne_nil_of_mem hmem)]
      refine congrArg some (le_antisymm hle ?_)
      rcases List.mem_cons.mp (hversions.mpr hlast) with he | hrest
      · exact he.le
      · obtain ⟨u, hu, he⟩ := List.mem_map.mp hrest
        rw [← he]
        exact ((List.pairwise_cons.mp hsorted).1 u hu).le

/-- **Every committed state is without gaps.** -/
theorem gapless_committed {s : Sys Db Exn (List Workflow) (List Publish)}
    (h : Publishing checks s) : s.committed.Gapless :=
  ((drafting checks).safe store_lawful (fun _ hs => hs)
    (h.mono (fun s l _ => stepMeets_any _ s l))).committed

/-- The versions of a name are 1, …, n, each once, and the newest version is n. -/
structure Db.VersionedTo (checks : Bool) (db : Db) (name : String) (n : ℕ) : Prop where
  versions : (db.versions name).Perm ((List.range n).map (fun i : ℕ => (i : ℤ) + 1))
  latest : ∃ latest, exec (store checks) (get_latest name) db = .ok (db, latest) ∧
    (∀ w ∈ latest, w ∈ db.workflows.rows ∧ w.name = name) ∧
    latest.map Workflow.version = if n = 0 then none else some (n : ℤ)

/-- **Workflow versions are gapless.** -/
theorem versions_gapless {s : Sys Db Exn (List Workflow) (List Publish)}
    (h : Publishing checks s) (name : String) : ∃ n, s.committed.VersionedTo checks name n := by
  have hnumbered := gapless_committed h name
  refine ⟨_, hnumbered, _, rfl, fun w hw => ?_, ?_⟩
  · have hmem := (Keyset.newest_perm _).mem_iff.mp (List.mem_of_mem_head? hw)
    obtain ⟨hrow, hname⟩ := List.mem_filter.mp hmem
    exact ⟨hrow, of_decide_eq_true hname⟩
  · simp only [List.length_eq_zero_iff]
    exact newest_version hnumbered

/-! ## A race

Two publishes of one name read the version before either has inserted it. -/

/-- The `n`-th publish of a workflow with one task. -/
def publishSolo (n : ℕ) : Publish :=
  ⟨⟨10 * n, fun _ => 10 * n + 1⟩, 0, "solo", [sampleTask "a" [] noRetry], none⟩

/-- The transactions after a schedule, from the empty database. -/
def afterPublishes (schedule : List (Label (List Publish) Lock)) :
    Sys Db Exn (List Workflow) (List Publish) :=
  schedule.foldl (fun s l => s.step (store true) publishAll l) ⟨Db.empty, []⟩

/-- The flushes of the workflow, the tasks and the edges. -/
def flushes (i : ℕ) : List (Label (List Publish) Lock) :=
  [.start i, .next i (fun _ => false), .start i, .next i (fun _ => false), .start i,
    .next i (fun _ => false)]

def racingPublishes : List (Label (List Publish) Lock) :=
  [.begin [publishSolo 1], .begin [publishSolo 2], .next 0 (fun _ => false),
    .next 1 (fun _ => false)] ++ flushes 0 ++ [.commit 0] ++ flushes 1 ++
    [.begin [publishSolo 3], .next 2 (fun _ => false)] ++ flushes 2 ++ [.commit 2]

/-- The second is refused, and the third gets its number. -/
theorem versions_gapless_race :
    ((afterPublishes racingPublishes).committed.workflows.rows.map
      (fun w => (w.id, w.version)) = [(10, 1), (30, 2)]) ∧
    ∃ n, (afterPublishes racingPublishes).committed.VersionedTo true "solo" n :=
  ⟨by decide +kernel,
    versions_gapless (Lts.Reach.foldl (.start ⟨fun _ => Numbered.nil, rfl⟩) _) "solo"⟩

end Conductor
