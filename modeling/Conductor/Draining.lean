/-
The counters of the cursor over a whole run, and what they add up to.

Here the cursor is an object, as in the source: a call leaves one behind whether it
returns or raises, `mark_succeeded` writes its sets before it looks at the children, and
lowering a counter raises for a key that is not there. On a cursor that keeps track of
its graph the calls never get that far: what raises, raises at the guards, with nothing
written.

A counter is at zero when the last parent has succeeded, and a parent succeeds once, so
a node is returned by the success that completes its parents and by no other. A graph
without a cycle has nothing to wait for in a circle: what is not ready, has not
succeeded and has not failed is below something that failed.
-/
import Conductor.CursorReports
import Conductor.CycleSearch

set_option autoImplicit false

open Relational

namespace Conductor

namespace DagCursor

variable {T : Type} [DecidableEq T] {cursor : DagCursor T}

/-! ## Calls -/

/-- The loop of `mark_succeeded` over the children: the nodes it unblocks, and the counters
it leaves behind. -/
def lowerEach : List T → List T → OrderedDict T ℤ →
    Except (DagFault T) (List T) × OrderedDict T ℤ
  | [], unblocked, pending => (.ok unblocked, pending)
  | child :: rest, unblocked, pending =>
      if (OrderedDict.lookup pending child).isNone then (.error (.KeyError child), pending)
      else
        let pending := OrderedDict.modify pending child (· - 1)
        lowerEach rest
          (if OrderedDict.lookup pending child = some 0 then unblocked ++ [child] else unblocked)
          pending

/-- A call of `mark_succeeded` or `mark_failed`, statement by statement. -/
def perform (cursor : DagCursor T) :
    CursorReport T → Except (DagFault T) (List T) × DagCursor T
  | .succeeded node =>
      if !cursor._dag.contains node then (.error (.raised (.UnknownNodeError node)), cursor)
      else if node ∈ cursor._succeeded then (.ok [], cursor)
      else
        match OrderedDict.lookup cursor._pending node with
        | none => (.error (.KeyError node), cursor)
        | some unmet =>
            if unmet ≠ 0 then
              (.error (.raised
                (.ValueError node " succeeded while still blocked -- scheduler bug")), cursor)
            else
              let cursor := { cursor with
                _succeeded := cursor._succeeded ++ [node]
                _failed := cursor._failed.filter (· ≠ node) }
              match cursor._dag.children node with
              | .error err => (.error (.raised err), cursor)
              | .ok children =>
                  let (reply, pending) := lowerEach children [] cursor._pending
                  (reply, { cursor with _pending := pending })
  | .failed node =>
      if !cursor._dag.contains node then (.error (.raised (.UnknownNodeError node)), cursor)
      else (.ok [], cursor.withFailure node)

/-- The cursor after some calls, whether they return or raise. -/
def told (cursor : DagCursor T) (reports : List (CursorReport T)) : DagCursor T :=
  (Lts.replies perform cursor reports).2

/-- The nodes that a call returned. -/
def unblockedBy : Except (DagFault T) (List T) → List T
  | .ok unblocked => unblocked
  | .error _ => []

/-- The nodes that some calls returned, one call after another. -/
def returned (cursor : DagCursor T) (reports : List (CursorReport T)) : List T :=
  (Lts.replies perform cursor reports).1.flatMap unblockedBy

theorem told_cons (r : CursorReport T) (reports : List (CursorReport T)) :
    cursor.told (r :: reports) = (cursor.perform r).2.told reports := rfl

theorem returned_cons (r : CursorReport T) (reports : List (CursorReport T)) :
    cursor.returned (r :: reports) =
      unblockedBy (cursor.perform r).1 ++ (cursor.perform r).2.returned reports := by
  show ((cursor.perform r).1 :: (Lts.replies perform (cursor.perform r).2 reports).1).flatMap
    unblockedBy = _
  rw [List.flatMap_cons]
  rfl

/-- With a counter for every child the loop is `release`. -/
theorem lowerEach_eq (children unblocked : List T) (pending : OrderedDict T ℤ)
    (hkeys : ∀ child ∈ children, child ∈ OrderedDict.keys pending) :
    lowerEach children unblocked pending =
      (.ok (unblocked ++ (Dag.release children pending).2), (Dag.release children pending).1) := by
  induction children generalizing unblocked pending with
  | nil =>
      unfold lowerEach Dag.release
      rw [List.append_nil]
  | cons child rest ih =>
      obtain ⟨hchild, hrest⟩ := List.forall_mem_cons.mp hkeys
      have hfound := Option.isNone_eq_false_iff.mpr (OrderedDict.lookup_isSome.mpr hchild)
      unfold lowerEach Dag.release
      rw [hfound, if_neg Bool.false_ne_true]
      dsimp only
      rw [ih]
      -- The child is collected in front of the rest, as it is appended before them.
      · split
        · rw [List.append_assoc, List.singleton_append]
        · rfl
      · intro x hx
        rw [OrderedDict.keys_modify]
        exact hrest x hx

/-- Every child has its counter. -/
theorem Tracks.children_pending (h : cursor.Tracks) (node : T) :
    ∀ child ∈ cursor._dag.childrenOf node, child ∈ OrderedDict.keys cursor._pending := by
  intro child hchild
  rw [h.pending]
  exact (h.mirrored.declared node child ((h.mirrored.mirror node child).mp hchild)).2

/-- What a success does, case by case: it is refused at a guard, it has been recorded
already, or it is recorded now. -/
theorem perform_succeeded_cases (h : cursor.Tracks) (node : T) :
    ((∃ err, cursor.perform (.succeeded node) = (.error err, cursor)) ∧
      (node ∉ cursor._dag.nodes ∨ node ∉ cursor._succeeded ∧
        ∃ p ∈ cursor._dag.parentsOf node, p ∉ cursor._succeeded)) ∨
    (node ∈ cursor._succeeded ∧ cursor.perform (.succeeded node) = (.ok [], cursor)) ∨
    (node ∈ cursor._dag.nodes ∧ node ∉ cursor._succeeded ∧
      (∀ p ∈ cursor._dag.parentsOf node, p ∈ cursor._succeeded) ∧
      cursor.perform (.succeeded node) =
        (.ok (cursor.released node), cursor.withSuccess node)) := by
  unfold perform
  dsimp only
  by_cases hnode : node ∈ cursor._dag.nodes
  · rw [Dag.contains_iff.mpr hnode, if_neg (by decide)]
    by_cases hdone : node ∈ cursor._succeeded
    · rw [if_pos hdone]
      exact .inr (.inl ⟨hdone, rfl⟩)
    rw [if_neg hdone, h.counters node hnode]
    dsimp only
    by_cases hmet : ∀ p ∈ cursor._dag.parentsOf node, p ∈ cursor._succeeded
    · have hzero : cursor._dag.unmet cursor._succeeded node = 0 := Dag.unmet_eq_zero.mpr hmet
      rw [hzero, if_neg (by simp), children_ok hnode]
      dsimp only
      rw [lowerEach_eq _ _ _ (h.children_pending node), List.nil_append]
      exact .inr (.inr ⟨hnode, hdone, hmet, rfl⟩)
    · have hblocked : (cursor._dag.unmet cursor._succeeded node : ℤ) ≠ 0 :=
        fun hzero => hmet (Dag.unmet_eq_zero.mp (Int.natCast_eq_zero.mp hzero))
      rw [if_pos hblocked]
      push Not at hmet
      exact .inl ⟨⟨_, rfl⟩, .inr ⟨hdone, hmet⟩⟩
  · have hcontains := Dag.contains_eq_false hnode
    rw [hcontains, if_pos (by decide)]
    exact .inl ⟨⟨_, rfl⟩, .inl hnode⟩

/-- What a failure does. -/
theorem perform_failed_cases (cursor : DagCursor T) (node : T) :
    (node ∉ cursor._dag.nodes ∧ ∃ err, cursor.perform (.failed node) = (.error err, cursor)) ∨
    (node ∈ cursor._dag.nodes ∧
      cursor.perform (.failed node) = (.ok [], cursor.withFailure node)) := by
  unfold perform
  dsimp only
  by_cases hnode : node ∈ cursor._dag.nodes
  · rw [Dag.contains_iff.mpr hnode, if_neg (by decide)]
    exact .inr ⟨hnode, rfl⟩
  · have hcontains := Dag.contains_eq_false hnode
    rw [hcontains, if_pos (by decide)]
    exact .inl ⟨hnode, _, rfl⟩

/-- On a cursor that keeps track, a call does what the report says: no key is missing. -/
theorem perform_eq_report (h : cursor.Tracks) (r : CursorReport T) :
    cursor.perform r = ((cursor.report r).1.mapError .raised, (cursor.report r).2) := by
  cases r with
  | succeeded node =>
      unfold perform report mark_succeeded
      dsimp only
      by_cases hnode : node ∈ cursor._dag.nodes
      · rw [Dag.contains_iff.mpr hnode, Bool.not_true, if_neg Bool.false_ne_true,
          if_neg Bool.false_ne_true]
        by_cases hdone : node ∈ cursor._succeeded
        · rw [if_pos hdone, if_pos hdone]
          rfl
        rw [if_neg hdone, if_neg hdone, h.counters node hnode]
        dsimp only
        by_cases hzero : (cursor._dag.unmet cursor._succeeded node : ℤ) = 0
        · rw [if_neg (not_not.mpr hzero), hzero, if_neg (not_not.mpr rfl), children_ok hnode]
          dsimp only
          rw [lowerEach_eq _ _ _ (h.children_pending node), List.nil_append]
          rfl
        · rw [if_pos hzero, if_pos (fun he => hzero (Option.some.inj he))]
          rfl
      · have hcontains := Dag.contains_eq_false hnode
        rw [hcontains, Bool.not_false, if_pos rfl, if_pos rfl]
        rfl
  | failed node =>
      unfold perform report mark_failed
      dsimp only
      cases hcontains : cursor._dag.contains node with
      | false => rfl
      | true => rfl

/-! ## One call -/

/-- Every parent of the node has succeeded. -/
def Released (cursor : DagCursor T) (node : T) : Prop :=
  ∀ p ∈ cursor._dag.parentsOf node, p ∈ cursor._succeeded

instance Released.decidable (cursor : DagCursor T) (node : T) : Decidable (cursor.Released node) :=
  inferInstanceAs (Decidable (∀ p ∈ cursor._dag.parentsOf node, p ∈ cursor._succeeded))

theorem Tracks.perform (h : cursor.Tracks) (r : CursorReport T) :
    (cursor.perform r).2.Tracks := by
  rw [perform_eq_report h]
  exact h.report r

theorem Tracks.perform_dag (h : cursor.Tracks) (r : CursorReport T) :
    (cursor.perform r).2._dag = cursor._dag := by
  cases r with
  | succeeded node =>
      rcases perform_succeeded_cases h node with
        ⟨⟨err, hrun⟩, -⟩ | ⟨-, hrun⟩ | ⟨-, -, -, hrun⟩
      · rw [hrun]
      · rw [hrun]
      · rw [hrun]
        rfl
  | failed node =>
      rcases cursor.perform_failed_cases node with ⟨-, err, hrun⟩ | ⟨-, hrun⟩
      · rw [hrun]
      · rw [hrun]
        rfl

/-- **When a success is refused.** -/
theorem Tracks.raises_iff (h : cursor.Tracks) (node : T) :
    (∃ err, (cursor.perform (.succeeded node)).1 = .error err) ↔
      node ∉ cursor._dag.nodes ∨ node ∉ cursor._succeeded ∧
        ∃ p ∈ cursor._dag.parentsOf node, p ∉ cursor._succeeded := by
  rcases perform_succeeded_cases h node with
    ⟨⟨err, hrun⟩, hrefused⟩ | ⟨hdone, hrun⟩ | ⟨hnode, hnew, hmet, hrun⟩
  · rw [hrun]
    exact iff_of_true ⟨err, rfl⟩ hrefused
  · rw [hrun]
    refine iff_of_false ?_ ?_
    · rintro ⟨err, herr⟩
      cases herr
    · rintro (hunknown | ⟨hnew, -⟩)
      · exact hunknown (h.succeeded node hdone)
      · exact hnew hdone
  · rw [hrun]
    refine iff_of_false ?_ ?_
    · rintro ⟨err, herr⟩
      cases herr
    · rintro (hunknown | ⟨-, p, hp, hmissing⟩)
      · exact hunknown hnode
      · exact hmissing (hmet p hp)

/-- A call that raises leaves the cursor as it was. -/
theorem Tracks.perform_error (h : cursor.Tracks) {r : CursorReport T} {err : DagFault T}
    (herror : (cursor.perform r).1 = .error err) : (cursor.perform r).2 = cursor := by
  cases r with
  | succeeded node =>
      rcases perform_succeeded_cases h node with
        ⟨⟨err', hrun⟩, -⟩ | ⟨-, hrun⟩ | ⟨-, -, -, hrun⟩
      · rw [hrun]
      · rw [hrun]
      · rw [hrun] at herror
        cases herror
  | failed node =>
      rcases cursor.perform_failed_cases node with ⟨-, err', hrun⟩ | ⟨-, hrun⟩
      · rw [hrun]
      · rw [hrun] at herror
        cases herror

/-- The children of a new success that it releases are those it was the last missing parent
of, and it lists each once. -/
theorem Tracks.count_released (h : cursor.Tracks) {node : T} (hnew : node ∉ cursor._succeeded)
    (n : T) :
    (cursor.released node).count n + (if cursor.Released n then 1 else 0) =
      if (cursor.withSuccess node).Released n then 1 else 0 := by
  have hnodup : (cursor.released node).Nodup := by
    unfold released
    rw [(Dag.release_spec (h.mirrored.children_nodup node) cursor._pending).2.1]
    exact List.Nodup.filter _ (h.mirrored.children_nodup node)
  have hmem : n ∈ cursor.released node ↔ node ∈ cursor._dag.parentsOf n ∧
      (cursor.withSuccess node).Released n :=
    ((h.counters.release h.mirrored hnew).2 n).trans (and_congr_right (fun _ => Dag.unmet_eq_zero))
  by_cases hparent : node ∈ cursor._dag.parentsOf n
  · -- Until now this parent was missing.
    have hbefore : ¬ cursor.Released n := fun hall => hnew (hall node hparent)
    rw [if_neg hbefore, Nat.add_zero]
    by_cases hafter : (cursor.withSuccess node).Released n
    · rw [if_pos hafter]
      exact List.count_eq_one_of_mem hnodup (hmem.mpr ⟨hparent, hafter⟩)
    · rw [if_neg hafter]
      exact List.count_eq_zero_of_not_mem (fun hin => hafter (hmem.mp hin).2)
  · have hsame : (cursor.withSuccess node).Released n ↔ cursor.Released n := by
      refine forall₂_congr (fun p hp => ?_)
      show p ∈ cursor._succeeded ++ [node] ↔ p ∈ cursor._succeeded
      rw [List.mem_append, List.mem_singleton]
      refine or_iff_left ?_
      rintro rfl
      exact hparent hp
    rw [List.count_eq_zero_of_not_mem (fun hin => hparent (hmem.mp hin).1), Nat.zero_add]
    exact if_congr hsame.symm rfl rfl

/-- **One call** returns a node exactly when it completes the parents of that node. -/
theorem Tracks.count_unblockedBy (h : cursor.Tracks) (r : CursorReport T) (n : T) :
    (unblockedBy (cursor.perform r).1).count n + (if cursor.Released n then 1 else 0) =
      if (cursor.perform r).2.Released n then 1 else 0 := by
  cases r with
  | succeeded node =>
      rcases perform_succeeded_cases h node with
        ⟨⟨err, hrun⟩, -⟩ | ⟨-, hrun⟩ | ⟨-, hnew, -, hrun⟩
      · rw [hrun]
        exact Nat.zero_add _
      · rw [hrun]
        exact Nat.zero_add _
      · rw [hrun]
        exact h.count_released hnew n
  | failed node =>
      rcases cursor.perform_failed_cases node with ⟨-, err, hrun⟩ | ⟨-, hrun⟩
      · rw [hrun]
        exact Nat.zero_add _
      · rw [hrun]
        exact Nat.zero_add _

/-! ## Every run -/

theorem Tracks.told (h : cursor.Tracks) (reports : List (CursorReport T)) :
    (cursor.told reports).Tracks ∧ (cursor.told reports)._dag = cursor._dag := by
  induction reports generalizing cursor with
  | nil => exact ⟨h, rfl⟩
  | cons r reports ih =>
      obtain ⟨htracks, hdag⟩ := ih (h.perform r)
      exact ⟨htracks, hdag.trans (h.perform_dag r)⟩

/-- Over a run a node is returned as often as its parents are completed. -/
theorem Tracks.count_returned (h : cursor.Tracks) (reports : List (CursorReport T)) (n : T) :
    (cursor.returned reports).count n + (if cursor.Released n then 1 else 0) =
      if (cursor.told reports).Released n then 1 else 0 := by
  induction reports generalizing cursor with
  | nil => exact Nat.zero_add _
  | cons r reports ih =>
      have hfirst := h.count_unblockedBy r n
      have hrest := ih (h.perform r)
      rw [returned_cons, told_cons, List.count_append]
      omega

/-- The cursor of a graph without a cycle. -/
theorem new_of_acyclic {dag : Dag T} (hm : dag.Mirrored) (hacyclic : dag.Acyclic) :
    DagCursor.new dag = .ok ⟨dag, dag.in_degrees, [], []⟩ := by
  obtain ⟨order, horder⟩ := (Dag.topological_order_isOk hm).mpr (hm.acyclic_iff.mp hacyclic)
  exact new_ok horder

/-- **The counters are exact.** Whatever the cursor of a graph without a cycle is told, its
counter of a node is the number of the node's parents that have not succeeded; it refuses a
success exactly of a node it does not know, or of one that has a parent that has not
succeeded and has not itself, and is left as it was; and a node with parents has been
returned once when all of them have succeeded, and not at all before. -/
theorem counters_exact {dag : Dag T} (hdag : dag.Constructed) (hacyclic : dag.Acyclic) :
    ∃ cursor, DagCursor.new dag = .ok cursor ∧ ∀ reports : List (CursorReport T),
      (∀ n ∈ dag.nodes, OrderedDict.lookup (cursor.told reports)._pending n =
        some (dag.unmet (cursor.told reports)._succeeded n : ℤ)) ∧
      (∀ n, (∃ err, ((cursor.told reports).perform (.succeeded n)).1 = .error err) ↔
        n ∉ dag.nodes ∨ n ∉ (cursor.told reports)._succeeded ∧
          ∃ p ∈ dag.parentsOf n, p ∉ (cursor.told reports)._succeeded) ∧
      (∀ n err, ((cursor.told reports).perform (.succeeded n)).1 = .error err →
        ((cursor.told reports).perform (.succeeded n)).2 = cursor.told reports) ∧
      ∀ n ∈ dag.nodes, dag.parentsOf n ≠ [] → (cursor.returned reports).count n =
        if ∀ p ∈ dag.parentsOf n, p ∈ (cursor.told reports)._succeeded then 1 else 0 := by
  have hm := hdag.mirrored
  refine ⟨_, new_of_acyclic hm hacyclic, fun reports => ?_⟩
  have hnew := tracks_new hm
  obtain ⟨htracks, hsame⟩ := hnew.told reports
  refine ⟨fun n hn => ?_, fun n => ?_, fun n err => htracks.perform_error, fun n hn hparents => ?_⟩
  · have hcount := htracks.counters
    rw [hsame] at hcount
    exact hcount n hn
  · have hiff := htracks.raises_iff n
    rw [hsame] at hiff
    exact hiff
  · have hcount := hnew.count_returned reports n
    -- A node with parents starts with none of them succeeded.
    have hwaits : ¬ DagCursor.Released ⟨dag, dag.in_degrees, [], []⟩ n := by
      obtain ⟨p, hp⟩ := List.exists_mem_of_ne_nil _ hparents
      exact fun hall => List.not_mem_nil (hall p hp)
    rw [if_neg hwaits, Nat.add_zero] at hcount
    rw [hcount]
    refine if_congr ?_ rfl rfl
    unfold Released
    rw [hsame]

/-- Two branches, and a join that waits for both. -/
def diamond : Dag String :=
  Dag.empty.built [.add_node "start", .add_node "left", .add_node "right", .add_node "join",
    .add_edge "start" "left", .add_edge "start" "right", .add_edge "left" "join",
    .add_edge "right" "join"]

theorem diamond_constructed : diamond.Constructed := ⟨Table.empty, _, _, .inl rfl, rfl⟩

theorem diamond_acyclic : diamond.Acyclic := by
  have horder : diamond.topological_order = .ok ["start", "left", "right", "join"] := rfl
  exact diamond_constructed.mirrored.acyclic_iff.mpr
    ((Dag.topological_order_isOk diamond_constructed.mirrored).mp ⟨_, horder⟩)

/-- A repeated success and one that comes too early do not release the join twice. -/
def untidy : List (CursorReport String) :=
  [.succeeded "join", .succeeded "start", .succeeded "left", .failed "left", .succeeded "left",
    .succeeded "right", .succeeded "right"]

theorem counters_exact_untidy :
    ∃ cursor, DagCursor.new diamond = .ok cursor ∧ (cursor.returned untidy).count "join" = 1 := by
  obtain ⟨cursor, hnew, hall⟩ := counters_exact diamond_constructed diamond_acyclic
  refine ⟨cursor, hnew, ?_⟩
  obtain rfl : cursor = ⟨diamond, diamond.in_degrees, [], []⟩ := new_eq hnew
  rw [(hall untidy).2.2.2 "join" (by decide +kernel) (by decide +kernel)]
  decide +kernel

/-! ## Nothing is forgotten -/

/-- The nodes that have succeeded, in the order of their successes: each once, and after
all of its parents. -/
structure InOrder (cursor : DagCursor T) : Prop where
  once : cursor._succeeded.Nodup
  sorted : cursor._dag.Sorted cursor._succeeded

theorem InOrder.withSuccess (h : cursor.InOrder) {node : T} (hnew : node ∉ cursor._succeeded)
    (hmet : cursor.Released node) : (cursor.withSuccess node).InOrder where
  once := by
    have hconcat := h.once.concat hnew
    rw [List.concat_eq_append] at hconcat
    exact hconcat
  sorted := h.sorted.append hmet

theorem InOrder.perform (htracks : cursor.Tracks) (h : cursor.InOrder) (r : CursorReport T) :
    (cursor.perform r).2.InOrder := by
  cases r with
  | succeeded node =>
      rcases perform_succeeded_cases htracks node with
        ⟨⟨err, hrun⟩, -⟩ | ⟨-, hrun⟩ | ⟨-, hnew, hmet, hrun⟩
      · rw [hrun]
        exact h
      · rw [hrun]
        exact h
      · rw [hrun]
        exact h.withSuccess hnew hmet
  | failed node =>
      rcases cursor.perform_failed_cases node with ⟨-, err, hrun⟩ | ⟨-, hrun⟩
      · rw [hrun]
        exact h
      · rw [hrun]
        exact ⟨h.once, h.sorted⟩

theorem InOrder.told (htracks : cursor.Tracks) (h : cursor.InOrder)
    (reports : List (CursorReport T)) : (cursor.told reports).InOrder := by
  induction reports generalizing cursor with
  | nil => exact h
  | cons r reports ih => exact ih (htracks.perform r) (h.perform htracks r)

/-- A success fails nothing. -/
theorem Tracks.perform_succeeded_failed (h : cursor.Tracks) (hnone : cursor._failed = [])
    (node : T) : (cursor.perform (.succeeded node)).2._failed = [] := by
  rcases perform_succeeded_cases h node with
    ⟨⟨err, hrun⟩, -⟩ | ⟨-, hrun⟩ | ⟨-, -, -, hrun⟩
  · rw [hrun]
    exact hnone
  · rw [hrun]
    exact hnone
  · rw [hrun]
    show cursor._failed.filter (· ≠ node) = []
    rw [hnone]
    rfl

theorem Tracks.told_failed (h : cursor.Tracks) (hnone : cursor._failed = [])
    {reports : List (CursorReport T)} (hreports : ∀ node, .failed node ∉ reports) :
    (cursor.told reports)._failed = [] := by
  induction reports generalizing cursor with
  | nil => exact hnone
  | cons r reports ih =>
      have hrest : ∀ node, .failed node ∉ reports :=
        fun node hin => hreports node (List.mem_cons_of_mem r hin)
      cases r with
      | failed node => exact absurd List.mem_cons_self (hreports node)
      | succeeded node =>
          exact ih (h.perform (.succeeded node)) (h.perform_succeeded_failed hnone node) hrest

/-- With nothing ready, every node has succeeded, has failed or is below a failed one. -/
theorem Tracks.stuck (h : cursor.Tracks) (hacyclic : cursor._dag.Acyclic)
    (hready : cursor.ready = []) {n : T} (hn : n ∈ cursor._dag.nodes) :
    n ∈ cursor._succeeded ∨ n ∈ cursor._failed ∨
      ∃ f ∈ cursor._failed, Above cursor._dag f n := by
  -- From the roots down: a node that waits, waits for a parent.
  induction n using (Dag.wellFounded_parentsOf h.mirrored
    (h.mirrored.acyclic_iff.mp hacyclic)).induction with
  | _ n ih =>
      by_cases hdone : n ∈ cursor._succeeded
      · exact .inl hdone
      by_cases hfailed : n ∈ cursor._failed
      · exact .inr (.inl hfailed)
      have hwaits : ¬ cursor.Released n := by
        intro hall
        have hzero : OrderedDict.lookup cursor._pending n = some 0 := by
          rw [h.counters n hn, Dag.unmet_eq_zero.mpr hall]
          rfl
        have hin : n ∈ cursor.ready := mem_ready.mpr ⟨hzero, hdone, hfailed⟩
        rw [hready] at hin
        cases hin
      unfold Released at hwaits
      push Not at hwaits
      obtain ⟨p, hp, hmissing⟩ := hwaits
      refine .inr (.inr ?_)
      rcases ih p hp (h.mirrored.declared p n hp).1 with hin | hin | ⟨f, hf, hpath⟩
      · exact absurd hin hmissing
      · exact ⟨p, hin, .single hp⟩
      · exact ⟨f, hf, hpath.tail hp⟩

/-- Without failures nothing is left to do exactly when everything is done. -/
theorem Tracks.ready_nil_iff (h : cursor.Tracks) (horder : cursor.InOrder)
    (hacyclic : cursor._dag.Acyclic) (hnone : cursor._failed = []) :
    cursor.ready = [] ↔ cursor._succeeded.length = cursor._dag.nodes.length := by
  have hsub := List.subperm_of_subset horder.once h.succeeded
  constructor
  · intro hready
    have hall : ∀ n ∈ cursor._dag.nodes, n ∈ cursor._succeeded := by
      intro n hn
      refine (h.stuck hacyclic hready hn).resolve_right ?_
      rw [hnone]
      rintro (hin | ⟨f, hf, -⟩)
      · cases hin
      · cases hf
    exact Nat.le_antisymm hsub.length_le
      (List.subperm_of_subset cursor._dag.nodes_nodup hall).length_le
  · intro hlength
    have hperm := hsub.perm_of_length_le (Nat.le_of_eq hlength.symm)
    refine List.eq_nil_iff_forall_not_mem.mpr (fun n hin => ?_)
    obtain ⟨hzero, hdone, -⟩ := mem_ready.mp hin
    refine hdone (hperm.mem_iff.mpr ?_)
    rw [← h.pending]
    exact OrderedDict.lookup_isSome.mp (by rw [hzero]; rfl)

theorem is_complete_iff : cursor.is_complete = true ↔ cursor.ready = [] := List.isEmpty_iff

omit [DecidableEq T] in
theorem is_successful_iff :
    cursor.is_successful = true ↔ cursor._succeeded.length = cursor._dag.nodes.length :=
  decide_eq_true_iff

/-! ## The loop over `ready` -/

/-- One round of the loop: the node it picks is marked as succeeded. -/
def mark (cursor : DagCursor T) (node : T) : DagCursor T := (cursor.perform (.succeeded node)).2

/-- Nodes that the loop may pick one after another: each is ready when its turn comes. -/
def Picks (cursor : DagCursor T) (picks : List T) : Prop :=
  Lts.Meets mark (fun cursor node => node ∈ cursor.ready) cursor picks

/-- A ready node can be marked. -/
theorem Tracks.perform_ready (h : cursor.Tracks) {node : T} (hready : node ∈ cursor.ready) :
    node ∉ cursor._succeeded ∧ cursor.Released node ∧
      cursor.perform (.succeeded node) =
        (.ok (cursor.released node), cursor.withSuccess node) := by
  obtain ⟨hzero, hnew, -⟩ := mem_ready.mp hready
  have hnode : node ∈ cursor._dag.nodes := by
    rw [← h.pending]
    exact OrderedDict.lookup_isSome.mp (by rw [hzero]; rfl)
  have hmet : cursor.Released node := h.parents_succeeded hnode hzero
  rcases perform_succeeded_cases h node with
    ⟨-, hunknown | ⟨-, p, hp, hmissing⟩⟩ | ⟨hdone, -⟩ | ⟨-, -, -, hrun⟩
  · exact absurd hnode hunknown
  · exact absurd (hmet p hp) hmissing
  · exact absurd hdone hnew
  · exact ⟨hnew, hmet, hrun⟩

/-- After some rounds, the nodes that have succeeded are those that were picked. -/
theorem Tracks.picks (h : cursor.Tracks) (horder : cursor.InOrder) (hnone : cursor._failed = [])
    {picks : List T} (hpicks : cursor.Picks picks) :
    (picks.foldl mark cursor).Tracks ∧ (picks.foldl mark cursor).InOrder ∧
      (picks.foldl mark cursor)._failed = [] ∧
      (picks.foldl mark cursor)._dag = cursor._dag ∧
      (picks.foldl mark cursor)._succeeded = cursor._succeeded ++ picks := by
  induction picks generalizing cursor with
  | nil => exact ⟨h, horder, hnone, rfl, (List.append_nil _).symm⟩
  | cons node picks ih =>
      obtain ⟨hready, hrest⟩ := hpicks
      obtain ⟨-, -, hrun⟩ := h.perform_ready hready
      have hmark : cursor.mark node = cursor.withSuccess node := by
        unfold mark
        rw [hrun]
      have htracks : (cursor.mark node).Tracks := h.perform _
      have horder' : (cursor.mark node).InOrder := horder.perform h _
      have hnone' : (cursor.mark node)._failed = [] := h.perform_succeeded_failed hnone node
      obtain ⟨h1, h2, h3, h4, h5⟩ := ih htracks horder' hnone' hrest
      refine ⟨h1, h2, h3, h4.trans (h.perform_dag _), ?_⟩
      rw [List.foldl_cons, h5, hmark]
      show (cursor._succeeded ++ [node]) ++ picks = cursor._succeeded ++ node :: picks
      rw [List.append_assoc, List.singleton_append]

/-- **Nothing is left behind.** Whatever the cursor of a graph without a cycle is told: with
nothing ready, every node has succeeded, has failed or is blocked. If no failure is
reported, the run is complete exactly when it is successful. The loop that marks a node of
`ready` for as long as there is one ends after as many rounds as there are nodes, whatever
it picks; no mark of it is refused, and it marks every node once and after its parents. -/
theorem cursor_completes {dag : Dag T} (hdag : dag.Constructed) (hacyclic : dag.Acyclic) :
    ∃ cursor, DagCursor.new dag = .ok cursor ∧
      (∀ reports : List (CursorReport T), (cursor.told reports).ready = [] →
        ∃ blocked, (cursor.told reports).blocked = .ok blocked ∧ ∀ n ∈ dag.nodes,
          n ∈ (cursor.told reports)._succeeded ∨ n ∈ (cursor.told reports)._failed ∨
            n ∈ blocked) ∧
      (∀ reports : List (CursorReport T), (∀ node, .failed node ∉ reports) →
        ((cursor.told reports).is_complete = true ↔
          (cursor.told reports).is_successful = true)) ∧
      ∀ picks, cursor.Picks picks →
        (∀ node ∈ (picks.foldl mark cursor).ready, ∃ unblocked,
          ((picks.foldl mark cursor).perform (.succeeded node)).1 = .ok unblocked) ∧
        picks.length ≤ dag.nodes.length ∧
        ((picks.foldl mark cursor).ready = [] ↔ picks.length = dag.nodes.length) ∧
        ((picks.foldl mark cursor).ready = [] → picks.Perm dag.nodes) ∧
        picks.Nodup ∧ dag.Sorted picks := by
  have hm := hdag.mirrored
  have hnew := tracks_new hm
  have hstart : InOrder ⟨dag, dag.in_degrees, [], []⟩ := by
    refine ⟨List.nodup_nil, fun before n after hsplit => ?_⟩
    cases before with
    | nil => cases hsplit
    | cons _ _ => cases hsplit
  refine ⟨_, new_of_acyclic hm hacyclic, fun reports hready => ?_, fun reports hreports => ?_,
    fun picks hpicks => ?_⟩
  -- Nothing is ready: a waiting node that is not blocked would have a ready ancestor.
  · obtain ⟨htracks, hsame⟩ := hnew.told reports
    obtain ⟨blocked, hblocked, hmem⟩ := blocked_ok htracks.mirrored htracks.failed
    refine ⟨blocked, hblocked, fun n hn => ?_⟩
    rw [hmem]
    refine htracks.stuck ?_ hready ?_
    · rw [hsame]
      exact hacyclic
    · rw [hsame]
      exact hn
  · obtain ⟨htracks, hsame⟩ := hnew.told reports
    rw [is_complete_iff, is_successful_iff]
    apply htracks.ready_nil_iff (hstart.told hnew reports)
    · rw [hsame]
      exact hacyclic
    · exact hnew.told_failed rfl hreports
  -- What was picked is what has succeeded, once each and in order; it ends with all nodes.
  · obtain ⟨htracks, horder, hnone, hsame, hmarked⟩ := hnew.picks hstart rfl hpicks
    have hends := htracks.ready_nil_iff horder (by rw [hsame]; exact hacyclic) hnone
    have hsub := List.subperm_of_subset horder.once htracks.succeeded
    have hsorted := horder.sorted
    have honce := horder.once
    rw [hmarked, List.nil_append] at honce
    rw [hmarked, hsame, List.nil_append] at hends hsub hsorted
    refine ⟨fun node hready => ?_, hsub.length_le, hends, fun hready => ?_, honce, hsorted⟩
    · obtain ⟨-, -, hrun⟩ := htracks.perform_ready hready
      rw [hrun]
      exact ⟨_, rfl⟩
    · exact hsub.perm_of_length_le (Nat.le_of_eq (hends.mp hready).symm)

theorem cursor_completes_diamond :
    ∃ cursor, DagCursor.new diamond = .ok cursor ∧
      ["start", "right", "left", "join"].Perm diamond.nodes ∧
      (["start", "right", "left", "join"].foldl mark cursor).ready = [] := by
  obtain ⟨cursor, hnew, -, -, hall⟩ := cursor_completes diamond_constructed diamond_acyclic
  refine ⟨cursor, hnew, ?_⟩
  obtain rfl : cursor = ⟨diamond, diamond.in_degrees, [], []⟩ := new_eq hnew
  have hpicks : Picks ⟨diamond, diamond.in_degrees, [], []⟩ ["start", "right", "left", "join"] := by
    unfold Picks
    decide +kernel
  obtain ⟨-, -, hends, hperm, -, -⟩ := hall _ hpicks
  have hready := hends.mpr rfl
  exact ⟨hperm hready, hready⟩

end DagCursor

end Conductor
