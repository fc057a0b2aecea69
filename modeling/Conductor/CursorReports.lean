/-
The cursor under any reports.

Delivery is at least once, so a cursor may be told anything about its nodes, in any
order and more than once. Whatever it is told, its counters count the parents that have
not succeeded, and a node has succeeded only after all of its parents. What it is told
decides the rest: a success takes a node out of the failed ones, a failure does not
take it out of those that succeeded. A failure reported after a success leaves the node
in both sets, and one reported for a node that still waits leaves it failed when its
last parent releases it.
-/
import Conductor.DagBuild

set_option autoImplicit false

open Relational

namespace Conductor

/-- What a cursor can be told of a node. -/
inductive CursorReport (T : Type) where
  | succeeded (node : T)
  | failed (node : T)
deriving DecidableEq

namespace DagCursor

variable {T : Type} [DecidableEq T] {cursor : DagCursor T}

/-- What a report returns, the nodes it newly unblocked, or raises, and the cursor it
leaves behind. -/
def report (cursor : DagCursor T) : CursorReport T → Except (DagError T) (List T) × DagCursor T
  | .succeeded node =>
      match cursor.mark_succeeded node with
      | .ok (cursor', unblocked) => (.ok unblocked, cursor')
      | .error err => (.error err, cursor)
  | .failed node =>
      match cursor.mark_failed node with
      | .ok cursor' => (.ok [], cursor')
      | .error err => (.error err, cursor)

/-- The cursor after the first `n` reports. -/
def after (cursor : DagCursor T) (reports : List (CursorReport T)) (n : ℕ) : DagCursor T :=
  (reports.take n).foldl (fun cursor report => (cursor.report report).2) cursor

/-- No node is in both sets, and none is both ready and blocked. -/
structure Exclusive (cursor : DagCursor T) : Prop where
  apart : ∀ node ∈ cursor._succeeded, node ∉ cursor._failed
  startable : ∃ blocked, cursor.blocked = .ok blocked ∧ ∀ node ∈ cursor.ready, node ∉ blocked

/-- What a report must not do: fail a node that has succeeded, or release one that has
failed. A child is released when its counter stands at one. -/
def Orderly (cursor : DagCursor T) : CursorReport T → Prop
  | .failed node => node ∉ cursor._succeeded
  | .succeeded node =>
      node ∉ cursor._succeeded → OrderedDict.lookup cursor._pending node = some 0 →
        ∀ child ∈ cursor._dag.childrenOf node,
          OrderedDict.lookup cursor._pending child = some 1 → child ∉ cursor._failed

instance Orderly.decidable (cursor : DagCursor T) : ∀ r, Decidable (cursor.Orderly r)
  | .failed node => inferInstanceAs (Decidable (node ∉ cursor._succeeded))
  | .succeeded node => inferInstanceAs (Decidable (node ∉ cursor._succeeded →
      OrderedDict.lookup cursor._pending node = some 0 →
        ∀ child ∈ cursor._dag.childrenOf node,
          OrderedDict.lookup cursor._pending child = some 1 → child ∉ cursor._failed))

/-! ## What every report keeps -/

/-- The cursor of a graph, whatever it has been told. -/
structure Tracks (cursor : DagCursor T) : Prop where
  mirrored : cursor._dag.Mirrored
  counters : cursor._dag.Counters cursor._succeeded cursor._pending
  pending : OrderedDict.keys cursor._pending = cursor._dag.nodes
  succeeded : ∀ node ∈ cursor._succeeded, node ∈ cursor._dag.nodes
  failed : ∀ node ∈ cursor._failed, node ∈ cursor._dag.nodes
  closed : ∀ node ∈ cursor._succeeded, ∀ p ∈ cursor._dag.parentsOf node, p ∈ cursor._succeeded

/-- What `mark_succeeded` leaves behind when it does not return early. -/
def withSuccess (cursor : DagCursor T) (node : T) : DagCursor T :=
  { cursor with
    _pending := (Dag.release (cursor._dag.childrenOf node) cursor._pending).1
    _succeeded := cursor._succeeded ++ [node]
    _failed := cursor._failed.filter (· ≠ node) }

/-- The children that `mark_succeeded` returns. -/
def released (cursor : DagCursor T) (node : T) : List T :=
  (Dag.release (cursor._dag.childrenOf node) cursor._pending).2

def withFailure (cursor : DagCursor T) (node : T) : DagCursor T :=
  { cursor with
    _failed := if node ∈ cursor._failed then cursor._failed else cursor._failed ++ [node] }

/-- **What a success does**: it changes nothing, or it records a node all of whose
parents have succeeded. -/
theorem report_succeeded_cases (h : cursor.Tracks) (node : T) :
    ((cursor.report (.succeeded node)).2 = cursor ∧
      (∀ unblocked, (cursor.report (.succeeded node)).1 = .ok unblocked → unblocked = []) ∧
      ¬ (node ∉ cursor._succeeded ∧ OrderedDict.lookup cursor._pending node = some 0)) ∨
    (node ∈ cursor._dag.nodes ∧ node ∉ cursor._succeeded ∧
      OrderedDict.lookup cursor._pending node = some 0 ∧
      cursor.report (.succeeded node) = (.ok (cursor.released node), cursor.withSuccess node)) := by
  by_cases hnode : node ∈ cursor._dag.nodes
  · have hcontains := Dag.contains_iff.mpr hnode
    -- The guards in the order of `mark_succeeded`: unknown node, repeated success, blocked node.
    by_cases hdone : node ∈ cursor._succeeded
    · have hrun : cursor.mark_succeeded node = .ok (cursor, []) := by
        unfold mark_succeeded
        rw [hcontains, if_neg (by decide), if_pos hdone]
      refine .inl ?_
      unfold report
      simp only [hrun]
      exact ⟨trivial, fun unblocked hok => (Except.ok.inj hok).symm, fun hc => hc.1 hdone⟩
    by_cases hzero : OrderedDict.lookup cursor._pending node = some 0
    · have hrun : cursor.mark_succeeded node =
          .ok (cursor.withSuccess node, cursor.released node) := by
        unfold mark_succeeded
        rw [hcontains, if_neg (by decide), if_neg hdone, if_neg (not_not.mpr hzero),
          children_ok hnode]
        rfl
      refine .inr ⟨hnode, hdone, hzero, ?_⟩
      unfold report
      simp only [hrun]
    · have hrun : ∃ err, cursor.mark_succeeded node = .error err := by
        refine ⟨.ValueError node " succeeded while still blocked -- scheduler bug", ?_⟩
        unfold mark_succeeded
        rw [hcontains, if_neg (by decide), if_neg hdone, if_pos hzero]
      obtain ⟨err, hrun⟩ := hrun
      refine .inl ?_
      unfold report
      simp only [hrun]
      refine ⟨trivial, fun unblocked hok => ?_, fun hc => hzero hc.2⟩
      cases hok
  · have hcontains := Dag.contains_eq_false hnode
    have hrun : cursor.mark_succeeded node = .error (.UnknownNodeError node) := by
      unfold mark_succeeded
      rw [hcontains, if_pos (by decide)]
    have hunknown : OrderedDict.lookup cursor._pending node = none := by
      rw [OrderedDict.lookup_eq_none, h.pending]
      exact hnode
    refine .inl ?_
    unfold report
    simp only [hrun]
    refine ⟨trivial, fun unblocked hok => ?_, fun hc => ?_⟩
    · cases hok
    · rw [hunknown] at hc
      cases hc.2

/-- What a failure does: it changes nothing, or it records a node. -/
theorem report_failed_cases (cursor : DagCursor T) (node : T) :
    (∃ err, cursor.report (.failed node) = (.error err, cursor) ∧ node ∉ cursor._dag.nodes) ∨
    (node ∈ cursor._dag.nodes ∧
      cursor.report (.failed node) = (.ok [], cursor.withFailure node)) := by
  by_cases hnode : node ∈ cursor._dag.nodes
  · have hrun : cursor.mark_failed node = .ok (cursor.withFailure node) := by
      unfold mark_failed
      rw [Dag.contains_iff.mpr hnode, if_neg (by decide)]
      rfl
    refine .inr ⟨hnode, ?_⟩
    unfold report
    simp only [hrun]
  · have hcontains := Dag.contains_eq_false hnode
    have hrun : cursor.mark_failed node = .error (.UnknownNodeError node) := by
      unfold mark_failed
      rw [hcontains, if_pos (by decide)]
    refine .inl ⟨.UnknownNodeError node, ?_, hnode⟩
    unfold report
    simp only [hrun]

theorem mem_withFailure {node k : T} :
    k ∈ (cursor.withFailure node)._failed ↔ k ∈ cursor._failed ∨ k = node := by
  unfold withFailure
  dsimp only
  split
  · rename_i hin
    exact ⟨Or.inl, fun h => h.elim id (fun he => he ▸ hin)⟩
  · rw [List.mem_append, List.mem_singleton]

theorem Tracks.withFailure (h : cursor.Tracks) {node : T} (hnode : node ∈ cursor._dag.nodes) :
    (cursor.withFailure node).Tracks where
  mirrored := h.mirrored
  counters := h.counters
  pending := h.pending
  succeeded := h.succeeded
  failed := by
    intro k hk
    rcases mem_withFailure.mp hk with hk | rfl
    · exact h.failed k hk
    · exact hnode
  closed := h.closed

/-- A counter at zero: every parent has succeeded. -/
theorem Tracks.parents_succeeded (h : cursor.Tracks) {node : T}
    (hnode : node ∈ cursor._dag.nodes)
    (hzero : OrderedDict.lookup cursor._pending node = some 0) :
    ∀ p ∈ cursor._dag.parentsOf node, p ∈ cursor._succeeded := by
  rw [h.counters node hnode] at hzero
  exact Dag.unmet_eq_zero.mp (Int.natCast_eq_zero.mp (Option.some.inj hzero))

theorem Tracks.withSuccess (h : cursor.Tracks) {node : T} (hnode : node ∈ cursor._dag.nodes)
    (hnew : node ∉ cursor._succeeded)
    (hzero : OrderedDict.lookup cursor._pending node = some 0) :
    (cursor.withSuccess node).Tracks where
  mirrored := h.mirrored
  counters := (h.counters.release h.mirrored hnew).1
  pending := ((Dag.release_spec (h.mirrored.children_nodup node) cursor._pending).2.2).trans
    h.pending
  succeeded := by
    intro k hk
    rcases List.mem_append.mp hk with hk | hk
    · exact h.succeeded k hk
    · rw [List.mem_singleton.mp hk]
      exact hnode
  failed := fun k hk => h.failed k (List.mem_of_mem_filter hk)
  closed := by
    -- A counter of zero says that the parents of the node have succeeded already.
    intro k hk p hp
    refine List.mem_append_left _ ?_
    rcases List.mem_append.mp hk with hk | hk
    · exact h.closed k hk p hp
    · rw [List.mem_singleton.mp hk] at hp
      exact h.parents_succeeded hnode hzero p hp

/-- Every report keeps track. -/
theorem Tracks.report (h : cursor.Tracks) (r : CursorReport T) : (cursor.report r).2.Tracks := by
  cases r with
  | succeeded node =>
      rcases report_succeeded_cases h node with ⟨hsame, -⟩ | ⟨hnode, hnew, hzero, hrun⟩
      · rw [hsame]
        exact h
      · rw [hrun]
        exact h.withSuccess hnode hnew hzero
  | failed node =>
      rcases cursor.report_failed_cases node with ⟨err, hrun, -⟩ | ⟨hnode, hrun⟩
      · rw [hrun]
        exact h
      · rw [hrun]
        exact h.withFailure hnode

/-! ## What orderly reports keep -/

/-- Only the two sets can overlap: a node that is ready has no failed ancestor unless one
has also succeeded. -/
theorem Tracks.exclusive_iff (h : cursor.Tracks) :
    cursor.Exclusive ↔ ∀ node ∈ cursor._succeeded, node ∉ cursor._failed := by
  refine ⟨Exclusive.apart, fun hapart => ⟨hapart, ?_⟩⟩
  obtain ⟨blocked, hblocked, hmem⟩ := blocked_ok h.mirrored h.failed
  refine ⟨blocked, hblocked, fun node hready hin => ?_⟩
  obtain ⟨hzero, -, -⟩ := mem_ready.mp hready
  obtain ⟨f, hf, hpath⟩ := (hmem node).mp hin
  have hnode : node ∈ cursor._dag.nodes := by
    rw [← h.pending]
    exact OrderedDict.lookup_isSome.mp (by rw [hzero]; rfl)
  -- Back along the path, from the parents of the ready node: all of it has succeeded.
  have hdone : f ∈ cursor._succeeded := by
    clear hin hready hf
    induction hpath using Relation.TransGen.head_induction_on with
    | single hedge => exact h.parents_succeeded hnode hzero _ hedge
    | head hedge _ ih => exact h.closed _ ih _ hedge
  exact hapart f hdone hf

/-- The children that a success releases are those whose counter stood at one. -/
theorem Tracks.mem_released (h : cursor.Tracks) {node : T} (hnew : node ∉ cursor._succeeded)
    {child : T} :
    child ∈ cursor.released node ↔ child ∈ cursor._dag.childrenOf node ∧
      OrderedDict.lookup cursor._pending child = some 1 := by
  have hreleased := (h.counters.release h.mirrored hnew).2 child
  unfold released
  rw [hreleased, ← h.mirrored.mirror]
  refine and_congr_right (fun hedge => ?_)
  have hparent := (h.mirrored.mirror node child).mp hedge
  have hcount := Dag.unmet_append h.mirrored hnew child
  rw [if_pos hparent] at hcount
  rw [h.counters child (h.mirrored.declared node child hparent).2, hcount, Option.some.injEq]
  omega

/-- A released child is ready unless it has failed. -/
theorem Tracks.released_ready_iff (h : cursor.Tracks) {node : T}
    (hnode : node ∈ cursor._dag.nodes) (hnew : node ∉ cursor._succeeded)
    (hzero : OrderedDict.lookup cursor._pending node = some 0) {child : T}
    (hchild : child ∈ cursor.released node) :
    child ∈ (cursor.withSuccess node).ready ↔ child ∉ cursor._failed := by
  obtain ⟨hparent, hcount⟩ := ((h.counters.release h.mirrored hnew).2 child).mp hchild
  have hdeclared := (h.mirrored.declared node child hparent).2
  have hne : child ≠ node := by
    rintro rfl
    exact h.mirrored.irrefl child hparent
  -- Of the three conditions of `ready`, the success has brought about the first two.
  have hpending : OrderedDict.lookup (cursor.withSuccess node)._pending child = some 0 := by
    rw [(h.withSuccess hnode hnew hzero).counters child hdeclared]
    exact congrArg some (Int.natCast_eq_zero.mpr hcount)
  have hsucceeded : child ∉ (cursor.withSuccess node)._succeeded := by
    intro hin
    rcases List.mem_append.mp hin with hin | hin
    · exact hnew (h.closed child hin node hparent)
    · exact hne (List.mem_singleton.mp hin)
  have hfailed : child ∈ (cursor.withSuccess node)._failed ↔ child ∈ cursor._failed := by
    show child ∈ cursor._failed.filter (· ≠ node) ↔ child ∈ cursor._failed
    rw [List.mem_filter, decide_eq_true_eq]
    exact and_iff_left hne
  rw [mem_ready, hfailed]
  exact ⟨fun hready => hready.2.2, fun hin => ⟨hpending, hsucceeded, hin⟩⟩

/-- **One report.** Told of nodes it keeps apart, a cursor keeps them apart and returns
nodes that are ready exactly when the report is orderly. -/
theorem Tracks.report_iff (h : cursor.Tracks)
    (hapart : ∀ node ∈ cursor._succeeded, node ∉ cursor._failed) (r : CursorReport T) :
    ((∀ node ∈ (cursor.report r).2._succeeded, node ∉ (cursor.report r).2._failed) ∧
      ∀ unblocked, (cursor.report r).1 = .ok unblocked →
        ∀ node ∈ unblocked, node ∈ (cursor.report r).2.ready) ↔ cursor.Orderly r := by
  cases r with
  | succeeded node =>
      rcases report_succeeded_cases h node with
        ⟨hsame, hreply, hearly⟩ | ⟨hnode, hnew, hzero, hrun⟩
      -- An early return changes nothing, and nothing is asked of it.
      · rw [hsame]
        refine iff_of_true ⟨hapart, fun unblocked hok k hk => ?_⟩
          (fun hnew hzero => absurd ⟨hnew, hzero⟩ hearly)
        rw [hreply unblocked hok] at hk
        cases hk
      · rw [hrun]
        constructor
        -- A failed child would be returned without being ready.
        · rintro ⟨-, hready⟩ - - child hchild hone
          have hreleased := (h.mem_released hnew).mpr ⟨hchild, hone⟩
          exact (h.released_ready_iff hnode hnew hzero hreleased).mp
            (hready _ rfl child hreleased)
        · intro horderly
          refine ⟨fun k hk hfailed => ?_, fun unblocked hok k hk => ?_⟩
          -- The new success has been taken out of the failed set.
          · obtain ⟨hfailed, hne⟩ := List.mem_filter.mp hfailed
            rcases List.mem_append.mp hk with hk | hk
            · exact hapart k hk hfailed
            · exact of_decide_eq_true hne (List.mem_singleton.mp hk)
          · obtain rfl := Except.ok.inj hok
            obtain ⟨hchild, hone⟩ := (h.mem_released hnew).mp hk
            exact (h.released_ready_iff hnode hnew hzero hk).mpr
              (horderly hnew hzero k hchild hone)
  | failed node =>
      rcases cursor.report_failed_cases node with ⟨err, hrun, hunknown⟩ | ⟨hnode, hrun⟩
      · rw [hrun]
        exact iff_of_true ⟨hapart, nofun⟩ (fun hin => hunknown (h.succeeded node hin))
      · rw [hrun]
        constructor
        · rintro ⟨happart', -⟩ hin
          exact happart' node hin (mem_withFailure.mpr (.inr rfl))
        · intro horderly
          refine ⟨fun k hk hfailed => ?_, fun unblocked hok k hk => ?_⟩
          · rcases mem_withFailure.mp hfailed with hfailed | rfl
            · exact hapart k hk hfailed
            · exact horderly hk
          · obtain rfl := Except.ok.inj hok
            cases hk

/-! ## Every run -/

/-- A new cursor has been told nothing. -/
theorem new_eq {dag : Dag T} (hnew : DagCursor.new dag = .ok cursor) :
    cursor = ⟨dag, dag.in_degrees, [], []⟩ := by
  unfold DagCursor.new at hnew
  cases hacyclic : dag.is_acyclic with
  | error err =>
      rw [hacyclic] at hnew
      cases hnew
  | ok acyclic =>
      rw [hacyclic] at hnew
      cases acyclic with
      | true => exact (Except.ok.inj hnew).symm
      | false =>
          cases hcycle : dag.find_cycle with
          | error err =>
              simp only [hcycle] at hnew
              cases hnew
          | ok cycle =>
              simp only [hcycle] at hnew
              cases hnew

theorem tracks_new {dag : Dag T} (hm : dag.Mirrored) :
    Tracks ⟨dag, dag.in_degrees, [], []⟩ where
  mirrored := hm
  counters := Dag.counters_in_degrees hm
  pending := by
    rw [← hm.keys]
    unfold Dag.in_degrees OrderedDict.keys
    rw [List.map_map]
    rfl
  succeeded := fun node hnode => absurd hnode List.not_mem_nil
  failed := fun node hnode => absurd hnode List.not_mem_nil
  closed := fun node hnode => absurd hnode List.not_mem_nil

theorem after_succ {reports : List (CursorReport T)} {n : ℕ} {r : CursorReport T}
    (hr : reports[n]? = some r) :
    cursor.after reports (n + 1) = ((cursor.after reports n).report r).2 := by
  unfold after
  rw [List.take_add_one, hr, Option.toList_some, List.foldl_append]
  rfl

theorem after_succ_of_none {reports : List (CursorReport T)} {n : ℕ} (hr : reports[n]? = none) :
    cursor.after reports (n + 1) = cursor.after reports n := by
  unfold after
  rw [List.take_add_one, hr, Option.toList_none, List.append_nil]

theorem Tracks.after (h : cursor.Tracks) (reports : List (CursorReport T)) (n : ℕ) :
    (cursor.after reports n).Tracks := by
  induction n with
  | zero => exact h
  | succ n ih =>
      cases hr : reports[n]? with
      | none =>
          rw [after_succ_of_none hr]
          exact ih
      | some r =>
          rw [after_succ hr]
          exact ih.report r

/-- **When the cursor is exclusive.** After every report of a run, no node is in both
sets and none is both ready and blocked, and every node that a success returned is
ready, exactly when every report of the run is orderly. -/
theorem exclusive_iff_orderly {dag : Dag T} (hdag : dag.Constructed)
    (hnew : DagCursor.new dag = .ok cursor) (reports : List (CursorReport T)) :
    ((∀ n, (cursor.after reports n).Exclusive) ∧
      ∀ n r unblocked, reports[n]? = some r →
        ((cursor.after reports n).report r).1 = .ok unblocked →
        ∀ node ∈ unblocked, node ∈ (cursor.after reports (n + 1)).ready) ↔
      Lts.Meets (fun cursor r => (cursor.report r).2) Orderly cursor reports := by
  have hstart : cursor.Tracks ∧ cursor._succeeded = [] := by
    rw [new_eq hnew]
    exact ⟨tracks_new hdag.mirrored, rfl⟩
  have htracks := hstart.1.after reports
  rw [Lts.meets_iff]
  constructor
  -- Each report is judged in the state it finds.
  · rintro ⟨hexclusive, hready⟩ n r hr
    refine ((htracks n).report_iff (hexclusive n).apart r).mp ⟨?_, fun unblocked hok => ?_⟩
    · have hnext := (hexclusive (n + 1)).apart
      rw [after_succ hr] at hnext
      exact hnext
    · have hnext := hready n r unblocked hr hok
      rw [after_succ hr] at hnext
      exact hnext
  · intro horderly
    -- Induction on the number of reports; what one report keeps is `report_iff`.
    have hapart : ∀ n, ∀ node ∈ (cursor.after reports n)._succeeded,
        node ∉ (cursor.after reports n)._failed := by
      intro n
      induction n with
      | zero =>
          intro node hnode
          have hnil : node ∈ cursor._succeeded := hnode
          rw [hstart.2] at hnil
          cases hnil
      | succ n ih =>
          cases hr : reports[n]? with
          | none =>
              rw [after_succ_of_none hr]
              exact ih
          | some r =>
              rw [after_succ hr]
              exact (((htracks n).report_iff ih r).mpr (horderly n r hr)).1
    refine ⟨fun n => (htracks n).exclusive_iff.mpr (hapart n), fun n r unblocked hr hok => ?_⟩
    rw [after_succ hr]
    exact (((htracks n).report_iff (hapart n) r).mpr (horderly n r hr)).2 unblocked hok

/-- Two tasks, the second waiting for the first. -/
def twoTasks : Dag String :=
  Dag.empty.built [.add_node "extract", .add_node "load", .add_edge "extract" "load"]

/-- A failure that is followed by a success, and a repeated success, are orderly. -/
theorem exclusive_iff_orderly_retried :
    ∃ cursor, DagCursor.new twoTasks = .ok cursor ∧
      (∀ n, (cursor.after [.failed "extract", .succeeded "extract", .succeeded "extract",
        .failed "load"] n).Exclusive) := by
  have hdag : twoTasks.Constructed := ⟨Table.empty, _, _, .inl rfl, rfl⟩
  have hnew : DagCursor.new twoTasks = .ok ⟨twoTasks, twoTasks.in_degrees, [], []⟩ := rfl
  exact ⟨_, hnew, ((exclusive_iff_orderly hdag hnew _).mpr (by decide +kernel)).1⟩

/-- A failure reported after the success leaves a node in both sets; one reported while
the node waits leaves it out of `ready` when it is returned as newly unblocked. -/
theorem reports_overlap :
    ∃ cursor, DagCursor.new twoTasks = .ok cursor ∧
      ("extract" ∈ (cursor.after [.succeeded "extract", .failed "extract"] 2)._succeeded ∧
        "extract" ∈ (cursor.after [.succeeded "extract", .failed "extract"] 2)._failed) ∧
      ((cursor.after [.failed "load"] 1).report (.succeeded "extract")).1 = .ok ["load"] ∧
        "load" ∉ (cursor.after [.failed "load", .succeeded "extract"] 2).ready := by
  refine ⟨_, rfl, ⟨?_, ?_⟩, rfl, ?_⟩
  · decide +kernel
  · decide +kernel
  · decide +kernel

end DagCursor

end Conductor
