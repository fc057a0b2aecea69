/-
Submitting a run with an `Idempotency-Key`.

Any number of `POST /runs` handlers, with any keys and bodies, run interleaved at
their statements under READ COMMITTED, and every reply is logged (`Txn.Logged`). The
handler looks its key up, creates the run with all its task rows, and only then
inserts the key. What keeps two runs of one key apart is the insert alone: it waits
for another open one and is refused after a committed one, and the refused handler
takes its run back with it.

The invariant of a session (`Held`) is small: the keys it has inserted are in no
committed row, and what it has seen of the key table is still there. The first is
kept because a key is locked by one session at a time, the second because key rows
are never rewritten.
-/
import Conductor.Lib.Outcomes
import Conductor.Api
import Conductor.Interleaving

set_option autoImplicit false

open Relational Txn

namespace Conductor

namespace Api

/-! ## The annotations -/

variable {checks : Bool} {fingerprint : RunCreate → String} {db₀ : Db}
  {H : IdempotencyKey → Prop}

/-- What holds of the committed database: key rows name runs and meet `H`, and the
definitions are those of the start. -/
structure Kept (db₀ : Db) (H : IdempotencyKey → Prop) (db : Db) : Prop where
  named : ∀ row ∈ db.idempotency_keys.rows, ∃ run ∈ db.workflow_runs.rows, run.id = row.run_id
  hashed : ∀ row ∈ db.idempotency_keys.rows, H row
  workflows : db.workflows = db₀.workflows
  tasks : db.tasks = db₀.tasks
  defined : ∀ r ∈ db.task_runs.rows, r ∈ db₀.task_runs.rows ∨
    ∃ task ∈ db₀.tasks.rows, task.id = r.task_id

/-- What holds of a session and the committed database. -/
structure Held (db own : Db) (trace : List (Event Db)) : Prop where
  new : ∀ row ∈ own.idempotency_keys.rows, db.idempotency_keys.get row.key = none
  seen : ∀ v, .saw v ∈ trace → ∀ row ∈ v.idempotency_keys.rows,
    row ∈ (own.overlay db).idempotency_keys.rows
  workflows : own.workflows = Table.empty
  tasks : own.tasks = Table.empty

/-- The rows of a handler that has created its run. -/
structure Wrote (db₀ : Db) (ids : RunIds) (run : WorkflowRun) (keys : List IdempotencyKey)
    (own : Db) : Prop where
  id : run.id = ids.run_id
  runs : own.workflow_runs.rows = [run]
  rows : ∀ r ∈ own.task_runs.rows, r.run_id = run.id ∧
    ∃ task ∈ db₀.tasks.rows, task.id = r.task_id ∧ r.id = ids.task_run_id task.id
  keys : own.idempotency_keys.rows = keys

/-- The key rows of a request. -/
def keyRows (fingerprint : RunCreate → String) (post : PostRun) : List IdempotencyKey :=
  (post.idempotency_key.map (fun key => keyRow fingerprint post key post.ids.run_id)).toList

/-- What a handler that replies has done: nothing but look, and name the run of its
key; or create a run and name that. -/
def Answered (fingerprint : RunCreate → String) (db₀ : Db) (post : PostRun) (reply : RunReply)
    (own : Db) (trace : List (Event Db)) : Prop :=
  (reply.status_code = 200 ∧ own = Db.empty ∧ ∃ key v row, post.idempotency_key = some key ∧
    .saw v ∈ trace ∧ v.idempotency_keys.get key = some row ∧ reply.run.id = row.run_id) ∨
  (reply.status_code = 201 ∧ reply.run.id = post.ids.run_id ∧
    ∃ run, Wrote db₀ post.ids run (keyRows fingerprint post) own)

/-- The lookup under a key writes nothing. -/
theorem writes_replay {P : Db → Db → Prop} (fingerprint : RunCreate → String) (post : PostRun) :
    (replay fingerprint post).Writes P := by
  unfold replay
  split
  · exact .ret _
  · refine .read (fun v => ?_)
    split
    · exact .ret _
    · split
      · exact .raise _
      · refine (writes_get_with_tasks _).bind (fun loaded => ?_)
        cases loaded with
        | none => exact .ret _
        | some loaded => exact (Prog.Writes.lift _).bind (fun _ => .ret _)

theorem overlay_empty (d : Db) : d.overlay Db.empty = d := by
  simp only [Db.overlay, Db.empty, Table.overlay_empty]

theorem empty_overlay (db : Db) : Db.empty.overlay db = db := (store false).empty_overlay db

namespace Held

variable {db own own' d : Db} {trace trace' : List (Event Db)}

theorem start (db : Db) : Held db Db.empty [] :=
  ⟨fun _ h => absurd h List.not_mem_nil, fun _ h => absurd h List.not_mem_nil, rfl, rfl⟩

theorem read (h : Held db own trace) : Held db own (.saw (own.overlay db) :: trace) := by
  refine ⟨h.new, fun v hv row hrow => ?_, h.workflows, h.tasks⟩
  rcases List.mem_cons.mp hv with he | hv
  · cases he
    exact hrow
  · exact h.seen v hv row hrow

/-- The keys of rows that pass the constraints are new. -/
theorem new_of_validate {view : Db} (h : (store checks).validate .insert view d = none) :
    ∀ row ∈ d.idempotency_keys.rows, view.idempotency_keys.get row.key = none := by
  intro row hrow
  refine Table.get_eq_none.mpr (fun s hs => ?_)
  have hconflict := (validate_insert.mp h).1
  simp only [Db.conflict, Option.or_eq_none_iff, uniqueConflict_eq_none] at hconflict
  exact hconflict.2.2.2.2.2.2.2.2.2.1 row hrow s hs

/-- An insert that passes the constraints. -/
theorem insert (h : Held db own trace) (hw : d.workflows = Table.empty)
    (ht : d.tasks = Table.empty)
    (hvalid : (store checks).validate .insert (own.overlay db) d = none) :
    Held db (d.overlay own) (.wrote d :: trace) := by
  have hnew := new_of_validate hvalid
  refine ⟨fun row hrow => ?_, fun v hv row hrow => ?_, ?_, ?_⟩
  · rcases Table.mem_overlay.mp hrow with hrow | ⟨hrow, -⟩
    · refine Table.get_eq_none.mpr (fun s hs hkey => ?_)
      have hnone := hnew row hrow
      rw [Db.overlay, Table.get_overlay, Option.or_eq_none_iff] at hnone
      exact Table.get_eq_none.mp hnone.2 s hs hkey
    · exact h.new row hrow
  · rcases List.mem_cons.mp hv with he | hv
    · cases he
    have hassoc : (d.overlay own).overlay db = d.overlay (own.overlay db) :=
      ((store checks).overlay_overlay d own db).symm
    have hview := h.seen v hv row hrow
    rw [hassoc]
    -- A new key is not that of a row that is there.
    refine Table.mem_overlay.mpr (Or.inr ⟨hview, Table.get_eq_none.mpr (fun s hs hkey => ?_)⟩)
    exact Table.get_eq_none.mp (hnew s hs) row hview hkey.symm
  · show d.workflows.overlay own.workflows = Table.empty
    rw [hw, h.workflows, Table.empty_overlay]
  · show d.tasks.overlay own.tasks = Table.empty
    rw [ht, h.tasks, Table.empty_overlay]

/-- The commit of another session: its keys are not those of this one, and not those
of rows that are there. -/
theorem commit (h : Held db own trace) (h' : Held db own' trace')
    (hdisjoint : ∀ l ∈ own.locks, l ∉ own'.locks) : Held (own'.overlay db) own trace := by
  have hlock : ∀ {d : Db} {row : IdempotencyKey}, row ∈ d.idempotency_keys.rows →
      .idempotencyKey row.key ∈ d.locks := by
    intro d row hrow
    exact List.mem_append_right _ (List.mem_map_of_mem hrow)
  refine ⟨fun row hrow => ?_, fun v hv row hrow => ?_, h.workflows, h.tasks⟩
  · rw [Db.overlay, Table.get_overlay, Option.or_eq_none_iff]
    refine ⟨Table.get_eq_none.mpr (fun s hs hkey => ?_), h.new row hrow⟩
    refine hdisjoint _ (hlock hrow) ?_
    rw [← hkey]
    exact hlock hs
  · rcases Table.mem_overlay.mp (h.seen v hv row hrow) with hrow | ⟨hrow, hown⟩
    · exact Table.mem_overlay.mpr (Or.inl hrow)
    · refine Table.mem_overlay.mpr (Or.inr ⟨Table.mem_overlay.mpr (Or.inr ⟨hrow, ?_⟩), hown⟩)
      refine Table.get_eq_none.mpr (fun s hs hkey => ?_)
      exact Table.get_eq_none.mp (h'.new s hs) row hrow hkey.symm

end Held

/-! ## The handler, statement by statement -/

section Outlines

variable {M : List (Event Db) → Db → Db → Prop} {own : Db} {trace : List (Event Db)} {α β : Type}

/-- A read. -/
theorem outline_read {k : Db → Tx α} {Q : α → Db → List (Event Db) → Prop}
    (h : ∀ db, Kept db₀ H db → Held db own trace → Outline (store checks) (Kept db₀ H) Held M Q
      (k (own.overlay db)) own (.saw (own.overlay db) :: trace)) :
    Outline (store checks) (Kept db₀ H) Held M Q (.read k) own trace :=
  fun db hkept hheld => ⟨hheld.read, h db hkept hheld⟩

/-- A flush of new rows. -/
theorem outline_insertRows {d : Db} {handler : Exn → Exn} {Q : Unit → Db → List (Event Db) → Prop}
    (hw : d.workflows = Table.empty) (ht : d.tasks = Table.empty)
    (h : Q () (d.overlay own) (.wrote d :: trace)) :
    Outline (store checks) (Kept db₀ H) Held M Q (insertRows d handler) own trace :=
  outline_flush (fun _ _ hheld hvalid => hheld.insert hw ht hvalid) h

/-- A run is loaded under its own id. -/
theorem outline_get_with_tasks {run_id : UUID}
    {Q : Option RunRepository.LoadedRun → Db → List (Event Db) → Prop}
    (h : ∀ loaded trace', trace ⊆ trace' → (∀ l, loaded = some l → l.run.id = run_id) →
      Q loaded own trace') :
    Outline (store checks) (Kept db₀ H) Held M Q (RunRepository.get_with_tasks run_id) own
      trace := by
  refine outline_read (fun db _ _ => ?_)
  cases hget : (own.overlay db).workflow_runs.get run_id with
  | none =>
      refine h none _ (List.subset_cons_self _ _) (fun l hl => by cases hl)
  | some run =>
      refine outline_read (fun db' _ _ => ?_)
      refine h _ _ ?_ (fun l hl => ?_)
      · exact List.Subset.trans (List.subset_cons_self _ _) (List.subset_cons_self _ _)
      · cases hl
        exact (Table.get_eq_some.mp hget).2

theorem to_response_id {loaded : RunRepository.LoadedRun} {response : RunResponse}
    (h : to_response loaded = .ok response) : response.id = loaded.run.id := by
  unfold to_response at h
  cases hrows : loaded.task_runs.mapM toTaskResponse with
  | error e =>
      rw [hrows] at h
      cases h
  | ok tasks =>
      rw [hrows] at h
      cases h
      rfl

/-- The reply under an old key names the run of its row. -/
theorem outline_replay (post : PostRun) {Q : Option RunReply → Db → List (Event Db) → Prop}
    (hnone : ∀ trace', Q none own trace')
    (hsome : ∀ reply trace', reply.status_code = 200 → (∃ key v row,
      post.idempotency_key = some key ∧ .saw v ∈ trace' ∧ v.idempotency_keys.get key = some row ∧
      reply.run.id = row.run_id) → Q (some reply) own trace') :
    Outline (store checks) (Kept db₀ H) Held M Q (replay fingerprint post) own trace := by
  unfold replay
  cases hkey : post.idempotency_key with
  | none => exact hnone _
  | some key =>
      refine outline_read (fun db _ _ => ?_)
      cases hrow : (own.overlay db).idempotency_keys.get key with
      | none => exact hnone _
      | some row =>
          dsimp only
          split
          · trivial
          · refine Outline.bind _ (outline_get_with_tasks (Q := fun loaded own' trace' =>
              own' = own ∧ .saw (own.overlay db) ∈ trace' ∧
                ∀ l, loaded = some l → l.run.id = row.run_id)
              (fun loaded trace' hsub hid => ⟨rfl, hsub List.mem_cons_self, hid⟩)) ?_
            rintro loaded own' trace' ⟨rfl, hsaw, hid⟩
            cases loaded with
            | none => exact hnone _
            | some l =>
                refine Outline.bind _ (Outline.lift _ (Q := fun response own'' trace'' =>
                  own'' = own' ∧ trace'' = trace' ∧ to_response l = .ok response)
                  (fun response hr => ⟨rfl, rfl, hr⟩)) ?_
                rintro response _ _ ⟨rfl, rfl, hresponse⟩
                refine hsome _ _ rfl ⟨key, _, row, hkey, hsaw, hrow, ?_⟩
                rw [← hid l rfl]
                exact to_response_id hresponse

/-- What the repository writes for a new run. -/
theorem outline_create_run {ids : RunIds} {clock : Clock} {workflow : Workflow}
    {dependencies : OrderedDict String (List String)} {trigger_payload : Option Dict}
    {Q : WorkflowRun → Db → List (Event Db) → Prop}
    (h : ∀ run own' trace', Wrote db₀ ids run [] own' → Q run own' trace') :
    Outline (store checks) (Kept db₀ H) Held M Q
      (RunRepository.create_run ids clock workflow dependencies trigger_payload) Db.empty
      trace := by
  unfold RunRepository.create_run
  refine Outline.bind _ (outline_newTable (Q := fun t own' _ => own' = Db.empty ∧ t.rows = _)
    (fun t ht => ⟨rfl, ht⟩)) ?_
  rintro runs _ _ ⟨rfl, hruns⟩
  refine Outline.bind _ (outline_insertRows (Q := fun _ own' _ =>
    own' = { Db.empty with workflow_runs := runs }) rfl rfl ?_) ?_
  · exact overlay_empty _
  rintro _ _ trace' rfl
  refine Outline.bind _ (outline_read (Q := fun tasks own' _ =>
    own' = { Db.empty with workflow_runs := runs } ∧ tasks = db₀.workflowTasks workflow.id)
    (fun db hkept _ => ⟨rfl, ?_⟩)) ?_
  · -- The session has written no tasks: it sees those of the start.
    show (Table.empty.overlay db.tasks).rows.filter _ = _
    rw [Table.empty_overlay, hkept.tasks]
    rfl
  rintro _ _ _ ⟨rfl, rfl⟩
  refine Outline.bind _ (Outline.lift _ (Q := fun rows own' _ =>
    own' = { Db.empty with workflow_runs := runs } ∧
      List.Forall₂ (NewRow ids clock dependencies) (db₀.workflowTasks workflow.id) rows)
    (fun rows hr => ⟨rfl, mapM_newRow.mp hr⟩)) ?_
  rintro rows _ _ ⟨rfl, hrows⟩
  split
  · trivial
  refine Outline.bind _ (outline_newTable (Q := fun t own' _ =>
    own' = { Db.empty with workflow_runs := runs } ∧ t.rows = rows) (fun t ht => ⟨rfl, ht⟩)) ?_
  rintro table _ _ ⟨rfl, htable⟩
  refine Outline.bind _ (outline_insertRows (Q := fun _ own' _ =>
    own' = { Db.empty with workflow_runs := runs, task_runs := table }) rfl rfl ?_) ?_
  · simp only [Db.overlay, Db.empty, Table.overlay_empty, Table.empty_overlay]
  rintro _ _ _ rfl
  refine h _ _ _ ⟨rfl, hruns, fun r hr => ?_, rfl⟩
  rw [htable] at hr
  obtain ⟨task, htask, policy, -, rfl⟩ := exists_left_of_forall₂ hrows hr
  exact ⟨rfl, task, (List.mem_filter.mp htask).1, rfl, rfl⟩

/-- The key row is added to the rows of the run. -/
theorem Wrote.withKey {ids : RunIds} {run : WorkflowRun} (h : Wrote db₀ ids run [] own)
    (t : Table String IdempotencyKey IdempotencyKey.key) :
    Wrote db₀ ids run t.rows (Db.overlay { Db.empty with idempotency_keys := t } own) := by
  have hkeys : own.idempotency_keys = Table.empty := Table.ext_rows h.keys
  refine ⟨h.id, ?_, ?_, ?_⟩
  · show (Table.empty.overlay own.workflow_runs).rows = _
    rw [Table.empty_overlay, h.runs]
  · show ∀ r ∈ (Table.empty.overlay own.task_runs).rows, _
    rw [Table.empty_overlay]
    exact h.rows
  · show (t.overlay own.idempotency_keys).rows = _
    rw [hkeys, Table.overlay_empty]

theorem outline_recordKey {post : PostRun} {run : WorkflowRun}
    (hwrote : Wrote db₀ post.ids run [] own) {Q : Unit → Db → List (Event Db) → Prop}
    (h : ∀ own' trace', Wrote db₀ post.ids run (keyRows fingerprint post) own' → Q () own' trace') :
    Outline (store checks) (Kept db₀ H) Held M Q (recordKey fingerprint post run.id) own
      trace := by
  unfold recordKey
  cases hkey : post.idempotency_key with
  | none =>
      refine h _ _ ?_
      rw [keyRows, hkey]
      exact hwrote
  | some key =>
      refine Outline.bind _ (outline_newTable (Q := fun t own' _ =>
        own' = own ∧ t.rows = keyRows fingerprint post) (fun t ht => ⟨rfl, ?_⟩)) ?_
      · rw [ht, keyRows, hkey, hwrote.id]
        rfl
      rintro t _ _ ⟨rfl, ht⟩
      refine outline_insertRows rfl rfl (h _ _ ?_)
      rw [← ht]
      exact hwrote.withKey t

/-- A handler that starts a run replies with that run. -/
theorem outline_startRun (post : PostRun) :
    Outline (store checks) (Kept db₀ H) Held M (Answered fingerprint db₀ post)
      (startRun fingerprint post) Db.empty trace := by
  unfold startRun
  refine Outline.bind _ (Q := fun _ own' _ => own' = Db.empty) ?_ ?_
  · unfold resolve
    split
    · exact outline_read (fun _ _ _ => rfl)
    · exact outline_read (fun _ _ _ => rfl)
  rintro workflow _ _ rfl
  cases workflow with
  | none => trivial
  | some workflow =>
      refine Outline.bind _ (outline_read (Q := fun _ own' _ => own' = Db.empty)
        (fun _ _ _ => rfl)) ?_
      rintro dependencies _ _ rfl
      refine Outline.bind _ (outline_create_run (Q := fun run own' _ =>
        Wrote db₀ post.ids run [] own') (fun _ _ _ h => h)) ?_
      intro run own₁ trace₁ hrun
      refine Outline.bind _ (outline_recordKey (Q := fun _ own' _ =>
        Wrote db₀ post.ids run (keyRows fingerprint post) own') hrun (fun _ _ h => h)) ?_
      intro _ own₂ trace₂ hwrote
      refine Outline.bind _ (outline_get_with_tasks (Q := fun loaded own' _ =>
        own' = own₂ ∧ ∀ l, loaded = some l → l.run.id = run.id)
        (fun loaded _ _ hid => ⟨rfl, hid⟩)) ?_
      rintro loaded _ _ ⟨rfl, hid⟩
      cases loaded with
      | none => trivial
      | some created =>
          refine Outline.bind _ (Outline.lift _ (Q := fun response own' _ =>
            own' = _ ∧ to_response created = .ok response) (fun _ hr => ⟨rfl, hr⟩)) ?_
          rintro response _ _ ⟨rfl, hresponse⟩
          refine Or.inr ⟨rfl, ?_, run, hwrote⟩
          rw [← hwrote.id, ← hid created rfl]
          exact to_response_id hresponse

/-- **What a handler has done when it replies.** -/
theorem outline_post (post : PostRun) :
    Outline (store checks) (Kept db₀ H) Held M (Answered fingerprint db₀ post)
      (create_run fingerprint post) Db.empty trace := by
  unfold create_run
  refine Outline.bind _ (outline_replay post (Q := fun reply own' trace' => own' = Db.empty ∧
    ∀ r, reply = some r → Answered fingerprint db₀ post r Db.empty trace')
    (fun _ => ⟨rfl, fun r hr => by cases hr⟩) (fun reply trace' hstatus hrow => ⟨rfl, ?_⟩)) ?_
  · rintro r hr
    cases hr
    exact Or.inl ⟨hstatus, rfl, hrow⟩
  rintro reply _ _ ⟨rfl, hreply⟩
  cases reply with
  | none => exact outline_startRun post
  | some reply => exact hreply reply rfl

end Outlines

theorem mem_keyRows {post : PostRun} {row : IdempotencyKey} :
    row ∈ keyRows fingerprint post ↔ ∃ key, post.idempotency_key = some key ∧
      row = keyRow fingerprint post key post.ids.run_id := by
  rw [keyRows, Option.mem_toList, Option.map_eq_some_iff]
  exact ⟨fun ⟨key, hkey, he⟩ => ⟨key, hkey, he.symm⟩, fun ⟨key, hkey, he⟩ => ⟨key, hkey, he.symm⟩⟩

/-- A run id is still there under written rows. -/
theorem exists_run_overlay {db : Db} (own : Db) {run : WorkflowRun}
    (h : run ∈ db.workflow_runs.rows) :
    ∃ run' ∈ (own.overlay db).workflow_runs.rows, run'.id = run.id := by
  cases hget : own.workflow_runs.get run.id with
  | none => exact ⟨run, Table.mem_overlay.mpr (Or.inr ⟨h, hget⟩), rfl⟩
  | some run' =>
      obtain ⟨hmem, hid⟩ := Table.get_eq_some.mp hget
      exact ⟨run', Table.mem_overlay.mpr (Or.inl hmem), hid⟩

/-- The rows of a reply keep the database as it should be. -/
theorem Kept.commit {db own : Db} {post : PostRun} {reply : RunReply} {trace : List (Event Db)}
    (h : Kept db₀ H db) (hheld : Held db own trace)
    (hanswered : Answered fingerprint db₀ post reply own trace)
    (hH : ∀ row ∈ keyRows fingerprint post, H row) : Kept db₀ H (own.overlay db) := by
  rcases hanswered with ⟨-, rfl, -⟩ | ⟨-, -, run, hwrote⟩
  · rw [empty_overlay]
    exact h
  · refine ⟨fun row hrow => ?_, fun row hrow => ?_, ?_, ?_, fun r hr => ?_⟩
    · rcases Table.mem_overlay.mp hrow with hrow | ⟨hrow, -⟩
      · rw [hwrote.keys] at hrow
        obtain ⟨key, -, rfl⟩ := mem_keyRows.mp hrow
        refine ⟨run, Table.mem_overlay.mpr (Or.inl ?_), hwrote.id⟩
        rw [hwrote.runs]
        exact List.mem_singleton_self run
      · obtain ⟨run', hrun', hid⟩ := h.named row hrow
        obtain ⟨run'', hrun'', hid'⟩ := exists_run_overlay own hrun'
        exact ⟨run'', hrun'', hid'.trans hid⟩
    · rcases Table.mem_overlay.mp hrow with hrow | ⟨hrow, -⟩
      · rw [hwrote.keys] at hrow
        exact hH row hrow
      · exact h.hashed row hrow
    · show own.workflows.overlay db.workflows = _
      rw [hheld.workflows, Table.empty_overlay, h.workflows]
    · show own.tasks.overlay db.tasks = _
      rw [hheld.tasks, Table.empty_overlay, h.tasks]
    · rcases Table.mem_overlay.mp hr with hr | ⟨hr, -⟩
      · obtain ⟨-, task, htask, hid, -⟩ := hwrote.rows r hr
        exact Or.inr ⟨task, htask, hid⟩
      · exact h.defined r hr

/-- The handlers keep to their annotations, whatever conditions their steps meet. -/
def discipline (checks : Bool) (fingerprint : RunCreate → String) (db₀ : Db)
    (H : IdempotencyKey → Prop) {B : Db → PostRun → Prop}
    {M : PostRun → List (Event Db) → Db → Db → Prop}
    {N : PostRun → Db → Db → List (Event Db) → Prop}
    (hB : ∀ db post, B db post → ∀ row ∈ keyRows fingerprint post, H row) :
    Discipline (store checks) (create_run fingerprint) B M N where
  I := Kept db₀ H
  J := Held
  Q post reply own trace := Answered fingerprint db₀ post reply own trace ∧
    ∀ row ∈ keyRows fingerprint post, H row
  begins db post _ hpost := ⟨Held.start db,
    (outline_post post).mono _ (fun _ _ _ h => ⟨h, hB db post hpost⟩)⟩
  commits _ _ _ _ _ hkept hheld hpost _ := hkept.commit hheld hpost.1 hpost.2
  stable _ _ _ _ _ _ hheld hheld' hdisjoint := hheld.commit hheld' hdisjoint

/-! ## The log -/

/-- The end of one request. -/
abbrev Replied := Record Db Exn RunReply PostRun

/-- The status of the reply to a request, if there is one. -/
def replyStatus (r : Replied) : Option ℕ :=
  match r.ending with
  | .committed reply _ => some reply.status_code
  | .failed e => some (errorStatus e)
  | .lost => none

/-- The rows that a handler has left in the database. -/
def leftBehind (r : Replied) : Db :=
  match r.ending with
  | .committed _ rows => rows
  | _ => Db.empty

/-- The runs that were created under a key. -/
def createdRuns (key : String) (log : List Replied) : List WorkflowRun :=
  (log.filter (fun r => r.call.idempotency_key = some key)).flatMap
    (fun r => (leftBehind r).workflow_runs.rows)

/-- One run was created under a key, by one request, and all replies name it. -/
structure CreatedOnce (fingerprint : RunCreate → String) (key : String) (db : Db)
    (log : List Replied) (run : WorkflowRun) : Prop where
  runs : createdRuns key log = [run]
  creator : ∃ r ∈ log, r.call.idempotency_key = some key ∧ replyStatus r = some 201 ∧
    run ∈ (leftBehind r).workflow_runs.rows ∧
    ∃ row, db.idempotency_keys.get key = some row ∧ row.run_id = run.id ∧
      row.request_hash = fingerprint r.call.body
  replies : ∀ r ∈ log, r.call.idempotency_key = some key → ∀ reply rows,
    r.ending = .committed reply rows →
      (reply.status_code = 200 ∨ reply.status_code = 201) ∧ reply.run.id = run.id

/-- No request with the key has come through. -/
structure Unused (key : String) (db : Db) (log : List Replied) : Prop where
  runs : createdRuns key log = []
  row : db.idempotency_keys.get key = none
  replies : ∀ r ∈ log, r.call.idempotency_key = some key → ∀ reply rows,
    r.ending ≠ .committed reply rows

section Ledger

variable {db own : Db} {log : List Replied} {key : String} {r : Replied}

theorem createdRuns_append (log : List Replied) (r : Replied) :
    createdRuns key (log ++ [r]) = createdRuns key log ++
      if r.call.idempotency_key = some key then (leftBehind r).workflow_runs.rows else [] := by
  unfold createdRuns
  rw [List.filter_append, List.flatMap_append]
  by_cases hkey : r.call.idempotency_key = some key <;> simp [hkey]

theorem leftBehind_eq_empty (h : ∀ reply rows, r.ending ≠ .committed reply rows) :
    leftBehind r = Db.empty := by
  unfold leftBehind
  split
  · rename_i reply rows he
    exact absurd he (h reply rows)
  · rfl

/-- A request with another key, or one that fails, adds no run. -/
theorem createdRuns_other
    (h : r.call.idempotency_key = some key → ∀ reply rows, r.ending ≠ .committed reply rows) :
    createdRuns key (log ++ [r]) = createdRuns key log := by
  rw [createdRuns_append]
  split
  · rename_i hkey
    rw [leftBehind_eq_empty (h hkey)]
    exact List.append_nil _
  · exact List.append_nil _

theorem Unused.other {db' : Db} (h : Unused key db log)
    (hdb : db'.idempotency_keys.get key = db.idempotency_keys.get key)
    (hr : r.call.idempotency_key = some key → ∀ reply rows, r.ending ≠ .committed reply rows) :
    Unused key db' (log ++ [r]) := by
  refine ⟨(createdRuns_other hr).trans h.runs, hdb.trans h.row, fun r' hr' hkey => ?_⟩
  rcases List.mem_append.mp hr' with hr' | hr'
  · exact h.replies r' hr' hkey
  · rw [List.mem_singleton.mp hr'] at hkey ⊢
    exact hr hkey

theorem CreatedOnce.other {run : WorkflowRun} {db' : Db}
    (h : CreatedOnce fingerprint key db log run)
    (hdb : db'.idempotency_keys.get key = db.idempotency_keys.get key)
    (hr : r.call.idempotency_key = some key → ∀ reply rows, r.ending ≠ .committed reply rows) :
    CreatedOnce fingerprint key db' (log ++ [r]) run := by
  obtain ⟨c, hc, hcreator⟩ := h.creator
  rw [← hdb] at hcreator
  refine ⟨(createdRuns_other hr).trans h.runs, ⟨c, List.mem_append_left _ hc, hcreator⟩,
    fun r' hr' hkey reply rows he => ?_⟩
  rcases List.mem_append.mp hr' with hr' | hr'
  · exact h.replies r' hr' hkey reply rows he
  · rw [List.mem_singleton.mp hr'] at hkey he
    exact absurd he (hr hkey reply rows)

/-- A reply from the key row names the run. -/
theorem CreatedOnce.replayed {run : WorkflowRun} (h : CreatedOnce fingerprint key db log run)
    {i : ℕ} {post : PostRun} {reply : RunReply} (hstatus : reply.status_code = 200)
    (hid : reply.run.id = run.id) :
    CreatedOnce fingerprint key db (log ++ [⟨i, post, .committed reply Db.empty⟩]) run := by
  obtain ⟨c, hc, hcreator⟩ := h.creator
  refine ⟨?_, ⟨c, List.mem_append_left _ hc, hcreator⟩, fun r' hr' hkey reply' rows he => ?_⟩
  · rw [createdRuns_append, h.runs]
    split <;> rfl
  · rcases List.mem_append.mp hr' with hr' | hr'
    · exact h.replies r' hr' hkey reply' rows he
    · rw [List.mem_singleton.mp hr'] at he
      cases he
      exact ⟨Or.inl hstatus, hid⟩

/-- The first request that comes through creates the run. -/
theorem Unused.created {run : WorkflowRun} (h : Unused key db log) {i : ℕ} {post : PostRun}
    {reply : RunReply} (hkey : post.idempotency_key = some key) (hstatus : reply.status_code = 201)
    (hid : reply.run.id = post.ids.run_id)
    (hwrote : Wrote db₀ post.ids run (keyRows fingerprint post) own) :
    CreatedOnce fingerprint key (own.overlay db) (log ++ [⟨i, post, .committed reply own⟩]) run := by
  have hrow : keyRow fingerprint post key post.ids.run_id ∈ own.idempotency_keys.rows := by
    rw [hwrote.keys]
    exact mem_keyRows.mpr ⟨key, hkey, rfl⟩
  refine ⟨?_, ⟨_, List.mem_append_right _ List.mem_cons_self, hkey, ?_, ?_, ?_⟩,
    fun r' hr' hkey' reply' rows he => ?_⟩
  · rw [createdRuns_append, h.runs, if_pos hkey]
    exact hwrote.runs
  · show some reply.status_code = some 201
    rw [hstatus]
  · show run ∈ own.workflow_runs.rows
    rw [hwrote.runs]
    exact List.mem_singleton_self run
  · refine ⟨keyRow fingerprint post key post.ids.run_id, ?_, hwrote.id.symm, rfl⟩
    exact Table.get_eq_some.mpr ⟨Table.mem_overlay.mpr (Or.inl hrow), rfl⟩
  · rcases List.mem_append.mp hr' with hr' | hr'
    · exact absurd he (h.replies r' hr' hkey' reply' rows)
    · rw [List.mem_singleton.mp hr'] at he
      cases he
      exact ⟨Or.inr hstatus, hid.trans hwrote.id.symm⟩

/-- A key is unused, or its run was created once. -/
def Ledger (fingerprint : RunCreate → String) (key : String) (db : Db) (log : List Replied) : Prop :=
  Unused key db log ∨ ∃ run, CreatedOnce fingerprint key db log run

theorem Ledger.other {db' : Db} (h : Ledger fingerprint key db log)
    (hdb : db'.idempotency_keys.get key = db.idempotency_keys.get key)
    (hr : r.call.idempotency_key = some key → ∀ reply rows, r.ending ≠ .committed reply rows) :
    Ledger fingerprint key db' (log ++ [r]) := by
  rcases h with h | ⟨run, h⟩
  · exact Or.inl (h.other hdb hr)
  · exact Or.inr ⟨run, h.other hdb hr⟩

/-- A committed reply keeps the ledger. -/
theorem Ledger.commit (h : Ledger fingerprint key db log) {i : ℕ} {post : PostRun}
    {reply : RunReply} {trace : List (Event Db)} (hheld : Held db own trace)
    (hanswered : Answered fingerprint db₀ post reply own trace) :
    Ledger fingerprint key (own.overlay db) (log ++ [⟨i, post, .committed reply own⟩]) := by
  by_cases hkey : post.idempotency_key = some key
  · rcases hanswered with ⟨hstatus, rfl, key', v, row, hkey', hsaw, hrow, hid⟩ |
      ⟨hstatus, hid, run, hwrote⟩
    · -- The row it saw is still there, so the run was created.
      rw [hkey] at hkey'
      cases hkey'
      obtain ⟨hmem, hrowkey⟩ := Table.get_eq_some.mp hrow
      have hthere := hheld.seen v hsaw row hmem
      rw [empty_overlay] at hthere ⊢
      have hget : db.idempotency_keys.get key = some row :=
        Table.get_eq_some.mpr ⟨hthere, hrowkey⟩
      rcases h with h | ⟨run, h⟩
      · rw [h.row] at hget
        cases hget
      · obtain ⟨c, -, -, -, -, row', hrow', hnames, -⟩ := h.creator
        rw [hget] at hrow'
        cases hrow'
        exact Or.inr ⟨run, h.replayed hstatus (hid.trans hnames)⟩
    · -- Its key was new, so no run was created before.
      have hrow : keyRow fingerprint post key post.ids.run_id ∈ own.idempotency_keys.rows := by
        rw [hwrote.keys]
        exact mem_keyRows.mpr ⟨key, hkey, rfl⟩
      have hnew : db.idempotency_keys.get key = none := hheld.new _ hrow
      rcases h with h | ⟨run', h⟩
      · exact Or.inr ⟨run, h.created hkey hstatus hid hwrote⟩
      · obtain ⟨c, -, -, -, -, row', hrow', -⟩ := h.creator
        rw [hnew] at hrow'
        cases hrow'
  · refine h.other ?_ (fun hkey' => absurd hkey' hkey)
    -- The rows of another key.
    rw [Db.overlay, Table.get_overlay]
    have hnone : own.idempotency_keys.get key = none := by
      refine Table.get_eq_none.mpr (fun row hrow => ?_)
      rcases hanswered with ⟨-, rfl, -⟩ | ⟨-, -, run, hwrote⟩
      · cases hrow
      · rw [hwrote.keys] at hrow
        obtain ⟨key', hkey', rfl⟩ := mem_keyRows.mp hrow
        rintro rfl
        exact hkey hkey'
    rw [hnone, Option.none_or]

/-- All that the handlers have left behind is from those that replied 201. -/
structure NothingElse (db₀ db : Db) (log : List Replied) : Prop where
  runs : ∀ run ∈ db.workflow_runs.rows, run ∈ db₀.workflow_runs.rows ∨
    ∃ r ∈ log, replyStatus r = some 201 ∧ run ∈ (leftBehind r).workflow_runs.rows
  task_runs : ∀ row ∈ db.task_runs.rows, row ∈ db₀.task_runs.rows ∨
    ∃ r ∈ log, replyStatus r = some 201 ∧ row ∈ (leftBehind r).task_runs.rows
  keys : ∀ row ∈ db.idempotency_keys.rows, row ∈ db₀.idempotency_keys.rows ∨
    ∃ r ∈ log, replyStatus r = some 201 ∧ row ∈ (leftBehind r).idempotency_keys.rows

/-- A row that came from somewhere still does, when the log grows. -/
theorem from_log_append {ρ : Type} {P : Prop} (rows : Db → List ρ) {x : ρ}
    (h : P ∨ ∃ r ∈ log, replyStatus r = some 201 ∧ x ∈ rows (leftBehind r)) (r' : Replied) :
    P ∨ ∃ r ∈ log ++ [r'], replyStatus r = some 201 ∧ x ∈ rows (leftBehind r) := by
  rcases h with h | ⟨r, hr, hrest⟩
  · exact Or.inl h
  · exact Or.inr ⟨r, List.mem_append_left _ hr, hrest⟩

theorem NothingElse.other (h : NothingElse db₀ db log) (r : Replied) :
    NothingElse db₀ db (log ++ [r]) :=
  ⟨fun x hx => from_log_append (fun d => d.workflow_runs.rows) (h.runs x hx) r,
    fun x hx => from_log_append (fun d => d.task_runs.rows) (h.task_runs x hx) r,
    fun x hx => from_log_append (fun d => d.idempotency_keys.rows) (h.keys x hx) r⟩

theorem NothingElse.commit (h : NothingElse db₀ db log) {i : ℕ} {post : PostRun}
    {reply : RunReply} {trace : List (Event Db)}
    (hanswered : Answered fingerprint db₀ post reply own trace) :
    NothingElse db₀ (own.overlay db) (log ++ [⟨i, post, .committed reply own⟩]) := by
  have hother := h.other ⟨i, post, .committed reply own⟩
  rcases hanswered with ⟨-, rfl, -⟩ | ⟨hstatus, -⟩
  · rw [empty_overlay]
    exact hother
  · have hreplied : replyStatus (⟨i, post, .committed reply own⟩ : Replied) = some 201 := by
      show some reply.status_code = some 201
      rw [hstatus]
    have hlast : (⟨i, post, .committed reply own⟩ : Replied)
        ∈ log ++ [⟨i, post, .committed reply own⟩] := List.mem_append_right _ List.mem_cons_self
    refine ⟨fun x hx => ?_, fun x hx => ?_, fun x hx => ?_⟩
    · rcases Table.mem_overlay.mp hx with hx | ⟨hx, -⟩
      · exact Or.inr ⟨_, hlast, hreplied, hx⟩
      · exact hother.runs x hx
    · rcases Table.mem_overlay.mp hx with hx | ⟨hx, -⟩
      · exact Or.inr ⟨_, hlast, hreplied, hx⟩
      · exact hother.task_runs x hx
    · rcases Table.mem_overlay.mp hx with hx | ⟨hx, -⟩
      · exact Or.inr ⟨_, hlast, hreplied, hx⟩
      · exact hother.keys x hx

end Ledger

/-! ## Every interleaving -/

/-- States of the handlers and their log, from a database on which no request has
come through yet, by any steps that meet `C`. -/
def Submitted (checks : Bool) (fingerprint : RunCreate → String) (db₀ : Db)
    (C : Sys Db Exn RunReply PostRun → Label PostRun Lock → Prop) :
    Logged Db Exn RunReply PostRun → Prop :=
  Recorded (store checks) (create_run fingerprint) (· = ⟨db₀, []⟩) C

variable {C : Sys Db Exn RunReply PostRun → Label PostRun Lock → Prop}
  {s : Logged Db Exn RunReply PostRun}

/-- Key rows name runs: the foreign key of their table. -/
def KeysNamed (db : Db) : Prop :=
  ∀ row ∈ db.idempotency_keys.rows, ∃ run ∈ db.workflow_runs.rows, run.id = row.run_id

instance (db : Db) : Decidable (KeysNamed db) :=
  inferInstanceAs (Decidable (∀ row ∈ db.idempotency_keys.rows, _))

theorem kept_start (hnamed : KeysNamed db₀) (hH : ∀ row ∈ db₀.idempotency_keys.rows, H row) :
    Kept db₀ H db₀ :=
  ⟨hnamed, hH, rfl, rfl, fun _ hr => Or.inl hr⟩

/-- **The ledger of a key that is unused at the start is right in every interleaving.** -/
theorem ledger (hnamed : KeysNamed db₀) (h : Submitted checks fingerprint db₀ C s)
    {key : String} (hunused : db₀.idempotency_keys.get key = none) :
    Ledger fingerprint key s.sys.committed s.log ∧
      NothingElse db₀ s.sys.committed s.log := by
  let d : Discipline (store checks) (create_run fingerprint) (fun _ _ => True)
      (fun _ _ _ _ => True) (fun _ _ _ _ => True) :=
    discipline checks fingerprint db₀ (fun _ => True) (fun _ _ _ _ _ => trivial)
  have hany : Recorded (store checks) (create_run fingerprint) (· = ⟨db₀, []⟩)
      (StepMeets (store checks) (fun _ _ => True) (fun _ _ _ _ => True) (fun _ _ _ _ => True)) s :=
    Recorded.mono (fun s l _ => stepMeets_any _ s l) h
  refine d.logged store_lawful (P := fun db log => Ledger fingerprint key db log ∧
    NothingElse db₀ db log) ?_ ?_ ?_ ?_ hany
  · rintro s rfl
    exact ⟨kept_start hnamed (fun _ _ => trivial), rfl⟩
  · rintro s rfl
    exact ⟨Or.inl ⟨rfl, hunused, fun r hr => absurd hr List.not_mem_nil⟩,
      fun x hx => Or.inl hx, fun x hx => Or.inl hx, fun x hx => Or.inl hx⟩
  · rintro db log r ⟨hledger, helse⟩ hr
    exact ⟨hledger.other rfl (fun _ => hr), helse.other r⟩
  · rintro db log i post reply rows trace - hheld hanswered - ⟨hledger, helse⟩
    exact ⟨hledger.commit hheld hanswered.1, helse.commit hanswered.1⟩

/-- What the submissions under one key have come to. -/
structure SubmittedOnce (fingerprint : RunCreate → String) (db₀ : Db) (key : String) (db : Db)
    (log : List Replied) : Prop where
  /-- At most one run is created. -/
  one_run : (createdRuns key log).length ≤ 1
  /-- The key row names it, with the hash of the request that created it. -/
  key_row : ∀ run ∈ createdRuns key log, ∃ r ∈ log, r.call.idempotency_key = some key ∧
    replyStatus r = some 201 ∧ run ∈ (leftBehind r).workflow_runs.rows ∧
    ∃ row ∈ db.idempotency_keys.rows, row.key = key ∧ row.run_id = run.id ∧
      row.request_hash = fingerprint r.call.body
  /-- There is no other key row. -/
  row_run : ∀ row ∈ db.idempotency_keys.rows, row.key = key →
    ∃ run ∈ createdRuns key log, row.run_id = run.id
  /-- Every 200 and every 201 names it. -/
  replies : ∀ r ∈ log, r.call.idempotency_key = some key → ∀ reply rows,
    r.ending = .committed reply rows → ∃ run ∈ createdRuns key log, reply.run.id = run.id
  /-- A request has one end, and one that does not end in a 201 leaves nothing. -/
  once : (log.map Record.session).Nodup
  nothing_else : NothingElse db₀ db log

/-- **Idempotent submission.** -/
theorem submitted_once (hnamed : KeysNamed db₀)
    (h : Submitted checks fingerprint db₀ (fun _ _ => True) s) {key : String}
    (hunused : db₀.idempotency_keys.get key = none) :
    SubmittedOnce fingerprint db₀ key s.sys.committed s.log := by
  obtain ⟨hledger, helse⟩ := ledger hnamed h hunused
  rcases hledger with hunused | ⟨run, hcreated⟩
  · refine ⟨?_, ?_, fun row hrow hkey => ?_, fun r hr hkey reply rows he => ?_, h.once, helse⟩
    · rw [hunused.runs]
      exact Nat.zero_le 1
    · rw [hunused.runs]
      exact fun run hrun => absurd hrun List.not_mem_nil
    · exact absurd hkey (Table.get_eq_none.mp hunused.row row hrow)
    · exact absurd he (hunused.replies r hr hkey reply rows)
  · obtain ⟨c, hc, hkey, hstatus, hmem, row, hrow, hnames, hhash⟩ := hcreated.creator
    obtain ⟨hrowmem, hrowkey⟩ := Table.get_eq_some.mp hrow
    refine ⟨?_, ?_, fun row' hrow' hkey' => ?_, fun r hr hkey' reply rows he => ?_, h.once, helse⟩
    · rw [hcreated.runs]
      exact Nat.le_refl 1
    · rw [hcreated.runs]
      rintro run' hrun'
      rw [List.mem_singleton.mp hrun']
      exact ⟨c, hc, hkey, hstatus, hmem, row, hrowmem, hrowkey, hnames, hhash⟩
    · rw [hcreated.runs]
      have he : row' = row :=
        Table.eq_of_key s.sys.committed.idempotency_keys hrow' hrowmem (hkey'.trans hrowkey.symm)
      exact ⟨run, List.mem_singleton_self run, by rw [he]; exact hnames⟩
    · rw [hcreated.runs]
      exact ⟨run, List.mem_singleton_self run, (hcreated.replies r hr hkey' reply rows he).2⟩

/-! ## A race

Two requests with one key look it up before either has inserted it; a third comes
after the first has committed. -/

/-- Workflow 1 with the task 2. -/
def publishedSolo : List Request :=
  [.op (.publish ⟨1, fun _ => 2⟩ 0 "solo" [sampleTask "a" [] noRetry] none)]

def soloBody : RunCreate := ⟨"solo", none, Dict.empty⟩

/-- The `n`-th attempt to start a run of it. -/
def retryPost (n : ℕ) : PostRun :=
  ⟨soloBody, some "retry", ⟨10 * n, fun task => 10 * n + task⟩, clockAt 0⟩

/-- The statements of a handler that has missed its key: the workflow, its
dependencies, the run, the tasks, the task rows, the key, and the run again. -/
def submission (i : ℕ) : List (Label PostRun Lock) :=
  [proceed i, proceed i] ++ writeAt i ++ [proceed i] ++ writeAt i ++ writeAt i ++
    [proceed i, proceed i]

/-- The statements of a handler that finds its key. -/
def replayed (i : ℕ) : List (Label PostRun Lock) := [proceed i, proceed i, proceed i]

/-- The handlers after a schedule, with the name of the workflow for a hash. -/
def afterPosts (schedule : List (Label PostRun Lock)) : Logged Db Exn RunReply PostRun :=
  schedule.foldl (Logged.step (store true) (create_run RunCreate.workflow_name))
    ⟨⟨transacted true publishedSolo, []⟩, []⟩

def raced : List (Label PostRun Lock) :=
  [.begin (retryPost 1), .begin (retryPost 2), proceed 0, proceed 1] ++ submission 0 ++
    [.commit 0] ++ submission 1

/-- One is answered with the run, the next is refused, the third is answered with the
run again. -/
theorem submitted_once_race :
    (afterPosts (raced ++ [.begin (retryPost 3)] ++ replayed 2 ++ [.commit 2])).log.map replyStatus
      = [some 201, some 500, some 200] ∧
    SubmittedOnce RunCreate.workflow_name (transacted true publishedSolo) "retry"
      (afterPosts (raced ++ [.begin (retryPost 3)] ++ replayed 2 ++ [.commit 2])).sys.committed
      (afterPosts (raced ++ [.begin (retryPost 3)] ++ replayed 2 ++ [.commit 2])).log :=
  ⟨by decide +kernel,
    submitted_once (by decide +kernel) (Lts.Reach.foldl (.start ⟨rfl, rfl⟩) _)
      (by decide +kernel)⟩

end Api

end Conductor
