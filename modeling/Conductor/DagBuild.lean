/-
Building a graph, call by call.

A caller that catches what `add_edge` raises goes on with the graph it has, so here the
graph is an object: a call leaves one behind whether it returns or raises, and
`add_edge` writes the two dictionaries one after the other. The second write would
raise on its own for a node that only the first dictionary has; on graphs whose
dictionaries mirror each other it never does, and then a call that raises has written
nothing.
-/
import Mathlib.Data.Finset.Card
import Conductor.Lib.Runs
import Conductor.DagSpec

set_option autoImplicit false

open Relational

namespace Conductor

/-- A call that changes a graph. -/
inductive DagCall (T : Type) where
  | add_node (node : T)
  | add_edge (parent child : T)
deriving DecidableEq

/-- What such a call raises: an error of the graph code, or a subscript with a key that is
not there. -/
inductive DagFault (T : Type) where
  | raised (err : DagError T)
  | KeyError (key : T)

namespace Dag

variable {T : Type} [DecidableEq T]

/-! ## Calls -/

/-- `self._children[parent].append(child)` and `self._parents[child].append(parent)`. -/
def appendEdge (dag : Dag T) (parent child : T) : Except (DagFault T) Unit × Dag T :=
  if (OrderedDict.lookup dag._children parent).isNone then (.error (.KeyError parent), dag)
  else
    let dag := { dag with _children := OrderedDict.modify dag._children parent (· ++ [child]) }
    if (OrderedDict.lookup dag._parents child).isNone then (.error (.KeyError child), dag)
    else (.ok (), { dag with _parents := OrderedDict.modify dag._parents child (· ++ [parent]) })

def perform (dag : Dag T) : DagCall T → Except (DagFault T) Unit × Dag T
  | .add_node node => (.ok (), dag.add_node node)
  | .add_edge parent child =>
      if !dag.contains parent then (.error (.raised (.UnknownNodeError parent)), dag)
      else if !dag.contains child then (.error (.raised (.UnknownNodeError child)), dag)
      else if parent = child then (.error (.raised (.CycleError [parent, parent])), dag)
      else if child ∈ dag.childrenOf parent then (.ok (), dag)
      else dag.appendEdge parent child

/-- The graph after some calls. -/
def built (dag : Dag T) (calls : List (DagCall T)) : Dag T := (Lts.replies perform dag calls).2

variable {dag : Dag T}

/-- On a mirrored graph both writes of `add_edge` find their key. -/
theorem appendEdge_eq (hm : dag.Mirrored) {parent child : T} (hparent : parent ∈ dag.nodes)
    (hchild : child ∈ dag.nodes) :
    dag.appendEdge parent child = (.ok (), dag.withEdge parent child) := by
  have hfound := Option.isNone_eq_false_iff.mpr (OrderedDict.lookup_isSome.mpr hparent)
  have hchild' : child ∈ OrderedDict.keys dag._parents := by
    rw [hm.keys]
    exact hchild
  have hfound' := Option.isNone_eq_false_iff.mpr (OrderedDict.lookup_isSome.mpr hchild')
  unfold appendEdge
  rw [hfound, if_neg Bool.false_ne_true]
  dsimp only
  rw [hfound', if_neg Bool.false_ne_true]
  rfl

/-- What `add_edge` does on a mirrored graph, case by case. -/
theorem perform_add_edge_cases (hm : dag.Mirrored) (parent child : T) :
    (¬ (parent ∈ dag.nodes ∧ child ∈ dag.nodes ∧ parent ≠ child) ∧
      ∃ err, dag.perform (.add_edge parent child) = (.error (.raised err), dag) ∧
        dag.add_edge parent child = .error err) ∨
    (parent ∈ dag.nodes ∧ child ∈ dag.nodes ∧ parent ≠ child ∧
      ∃ dag', dag.perform (.add_edge parent child) = (.ok (), dag') ∧
        dag.add_edge parent child = .ok dag') := by
  unfold perform add_edge
  dsimp only
  by_cases hparent : parent ∈ dag.nodes
  · obtain ⟨children, hchildren⟩ :=
      Option.isSome_iff_exists.mp (OrderedDict.lookup_isSome.mpr hparent)
    have hof : dag.childrenOf parent = children := by
      unfold childrenOf
      rw [hchildren]
      rfl
    rw [contains_iff.mpr hparent, if_neg (by decide), hchildren, hof]
    by_cases hchild : child ∈ dag.nodes
    · have hfound := Option.isNone_eq_false_iff.mpr (OrderedDict.lookup_isSome.mpr hchild)
      rw [contains_iff.mpr hchild, if_neg (by decide)]
      dsimp only
      rw [hfound, if_neg Bool.false_ne_true]
      by_cases hne : parent = child
      · rw [if_pos hne, if_pos hne]
        exact .inl ⟨fun h => h.2.2 hne, _, rfl, rfl⟩
      rw [if_neg hne, if_neg hne]
      -- An edge that is there already is left as it is, by both.
      by_cases hthere : child ∈ children
      · rw [if_pos hthere, if_pos hthere]
        exact .inr ⟨hparent, hchild, hne, _, rfl, rfl⟩
      · rw [if_neg hthere, if_neg hthere, appendEdge_eq hm hparent hchild]
        exact .inr ⟨hparent, hchild, hne, _, rfl, rfl⟩
    · have hmissing := OrderedDict.lookup_eq_none.mpr hchild
      have hcontains := contains_eq_false hchild
      rw [hcontains, if_pos (by decide), hmissing]
      exact .inl ⟨fun h => hchild h.2.1, _, rfl, rfl⟩
  · have hmissing := OrderedDict.lookup_eq_none.mpr hparent
    have hcontains := contains_eq_false hparent
    rw [hcontains, hmissing]
    exact .inl ⟨fun h => hparent h.1, _, rfl, rfl⟩

/-- Every call keeps the dictionaries mirrored. -/
theorem Mirrored.perform (hm : dag.Mirrored) (call : DagCall T) : (dag.perform call).2.Mirrored := by
  cases call with
  | add_node node => exact hm.add_node node
  | add_edge parent child =>
      rcases perform_add_edge_cases hm parent child with
        ⟨-, err, hrun, -⟩ | ⟨-, -, -, dag', hrun, hadd⟩
      · rw [hrun]
        exact hm
      · rw [hrun]
        exact (add_edge_ok hm hadd).1

theorem Mirrored.built (hm : dag.Mirrored) (calls : List (DagCall T)) :
    (dag.built calls).Mirrored := by
  induction calls generalizing dag with
  | nil => exact hm
  | cons call calls ih => exact ih (hm.perform call)

/-- A call that raises leaves the graph as it was. -/
theorem perform_error (hm : dag.Mirrored) {call : DagCall T} {err : DagFault T}
    (h : (dag.perform call).1 = .error err) : (dag.perform call).2 = dag := by
  cases call with
  | add_node node => cases h
  | add_edge parent child =>
      rcases perform_add_edge_cases hm parent child with
        ⟨-, err', hrun, -⟩ | ⟨-, -, -, dag', hrun, -⟩
      · rw [hrun]
      · rw [hrun] at h
        cases h

/-- A graph that some calls made of a new one, or of one that `from_dependencies`
returned. -/
def Constructed (dag : Dag T) : Prop :=
  ∃ m start calls, (start = empty ∨ from_dependencies m = .ok start) ∧ dag = start.built calls

theorem Constructed.mirrored (h : dag.Constructed) : dag.Mirrored := by
  obtain ⟨m, start, calls, hstart, rfl⟩ := h
  rcases hstart with rfl | hdag
  · exact mirrored_empty.built calls
  · exact (from_dependencies_ok hdag).1.built calls

/-! ## Degrees and edges -/

theorem mem_edges {p c : T} : (p, c) ∈ dag.edges ↔ c ∈ dag.childrenOf p := by
  unfold edges childrenOf
  simp only [List.mem_flatMap, List.mem_map, Prod.mk.injEq, Prod.exists]
  constructor
  · rintro ⟨p', children, hitem, c', hc, rfl, rfl⟩
    rw [OrderedDict.lookup_eq_some.mpr hitem]
    exact hc
  · intro hc
    cases hlook : OrderedDict.lookup dag._children p with
    | none =>
        rw [hlook] at hc
        cases hc
    | some children =>
        rw [hlook] at hc
        exact ⟨p, children, OrderedDict.lookup_eq_some.mp hlook, c, hc, rfl, rfl⟩

/-- A degree is the number of distinct parents. -/
theorem in_degrees_eq (hm : dag.Mirrored) {n : T} (hn : n ∈ dag.nodes) :
    OrderedDict.lookup dag.in_degrees n = some ((dag.parentsOf n).toFinset.card : ℤ) := by
  have hall : (dag.parentsOf n).filter (· ∉ ([] : List T)) = dag.parentsOf n :=
    List.filter_eq_self.mpr (fun _ _ => decide_eq_true List.not_mem_nil)
  rw [counters_in_degrees hm n hn, unmet, hall, List.toFinset_card_of_nodup (hm.parents_nodup n)]

/-! ## When `from_dependencies` returns -/

theorem add_edge_isOk (hm : dag.Mirrored) (parent child : T) :
    (∃ dag', dag.add_edge parent child = .ok dag') ↔
      parent ∈ dag.nodes ∧ child ∈ dag.nodes ∧ parent ≠ child := by
  rcases perform_add_edge_cases hm parent child with
    ⟨hrefused, err, -, hadd⟩ | ⟨hparent, hchild, hne, dag', -, hadd⟩
  · refine iff_of_false ?_ hrefused
    rintro ⟨dag', hok⟩
    rw [hadd] at hok
    cases hok
  · exact iff_of_true ⟨dag', hadd⟩ ⟨hparent, hchild, hne⟩

theorem add_edges_isOk {child : T} (parents : List T) (hm : dag.Mirrored)
    (hchild : child ∈ dag.nodes) :
    (∃ dag', parents.foldlM (fun dag parent => dag.add_edge parent child) dag = .ok dag') ↔
      ∀ p ∈ parents, p ∈ dag.nodes ∧ p ≠ child := by
  induction parents generalizing dag with
  | nil => exact iff_of_true ⟨dag, rfl⟩ (fun p hp => absurd hp List.not_mem_nil)
  | cons parent rest ih =>
      have hfirst := add_edge_isOk hm parent child
      rw [List.foldlM_cons, List.forall_mem_cons]
      cases hadd : dag.add_edge parent child with
      | error err =>
          refine iff_of_false ?_ (fun h => ?_)
          · rintro ⟨dag', hok⟩
            cases hok
          · obtain ⟨dag', hok⟩ := hfirst.mpr ⟨h.1.1, hchild, h.1.2⟩
            rw [hadd] at hok
            cases hok
      -- An edge adds no node, so what is asked of the rest is asked of the same nodes.
      | ok dag1 =>
          obtain ⟨hm1, hnodes, -⟩ := add_edge_ok hm hadd
          obtain ⟨hparent, -, hne⟩ := hfirst.mp ⟨dag1, hadd⟩
          have hrest := ih hm1 (hnodes ▸ hchild)
          rw [hnodes] at hrest
          exact hrest.trans (and_iff_right ⟨hparent, hne⟩).symm

theorem add_all_edges_isOk {items : List (T × List T)} (hm : dag.Mirrored)
    (hitems : ∀ item ∈ items, item.1 ∈ dag.nodes) :
    (∃ dag', items.foldlM (fun dag item =>
        item.2.foldlM (fun dag parent => dag.add_edge parent item.1) dag) dag = .ok dag') ↔
      ∀ item ∈ items, ∀ p ∈ item.2, p ∈ dag.nodes ∧ p ≠ item.1 := by
  induction items generalizing dag with
  | nil => exact iff_of_true ⟨dag, rfl⟩ (fun item hitem => absurd hitem List.not_mem_nil)
  | cons item rest ih =>
      have hfirst := add_edges_isOk item.2 hm (hitems item List.mem_cons_self)
      rw [List.foldlM_cons, List.forall_mem_cons]
      cases hadd : item.2.foldlM (fun dag parent => dag.add_edge parent item.1) dag with
      -- The first item that is refused ends the loop.
      | error err =>
          refine iff_of_false ?_ (fun h => ?_)
          · rintro ⟨dag', hok⟩
            cases hok
          · obtain ⟨dag', hok⟩ := hfirst.mpr h.1
            rw [hadd] at hok
            cases hok
      | ok dag1 =>
          obtain ⟨hm1, hnodes, -⟩ := add_edges_ok hm hadd
          have hknown := hfirst.mp ⟨dag1, hadd⟩
          have hrest := ih hm1 (fun item' hitem' =>
            hnodes ▸ hitems item' (List.mem_cons_of_mem item hitem'))
          rw [hnodes] at hrest
          exact hrest.trans (and_iff_right hknown).symm

/-- `from_dependencies` refuses a parent that is not a key, and a key that lists itself,
and nothing else. -/
theorem from_dependencies_isOk {dependencies : OrderedDict T (List T)} :
    (∃ dag, from_dependencies dependencies = .ok dag) ↔
      ∀ n parents, OrderedDict.lookup dependencies n = some parents →
        ∀ p ∈ parents, p ∈ OrderedDict.keys dependencies ∧ p ≠ n := by
  have hnodup : ((empty : Dag T).nodes ++ OrderedDict.keys dependencies).Nodup := dependencies.nodup
  obtain ⟨hm, hnodes, -⟩ := add_nodes mirrored_empty hnodup
  have hnodes' : ((OrderedDict.keys dependencies).foldl add_node empty).nodes =
      OrderedDict.keys dependencies := hnodes
  have hitems : ∀ item ∈ dependencies.rows,
      item.1 ∈ ((OrderedDict.keys dependencies).foldl add_node empty).nodes := by
    intro item hitem
    rw [hnodes']
    exact List.mem_map_of_mem hitem
  unfold from_dependencies
  rw [add_all_edges_isOk hm hitems, hnodes']
  constructor
  · intro h n parents hlook
    exact h (n, parents) (OrderedDict.lookup_eq_some.mp hlook)
  · intro h item hitem
    exact h item.1 item.2 (OrderedDict.lookup_eq_some.mpr hitem)

/-- **The representation invariant.** Whatever calls are made on a new graph or on one
that `from_dependencies` returned, raising ones among them: the dictionaries have the
same keys in the same order and mirror each other, without repetitions, loops or unknown
nodes; degrees count distinct parents; and a call that raises leaves the graph as it
was. `from_dependencies` returns exactly when every listed parent is another key, with
exactly the listed edges. -/
theorem representation (m : OrderedDict T (List T)) (calls : List (DagCall T)) :
    (∀ start : Dag T, start = empty ∨ from_dependencies m = .ok start →
      (start.built calls).Mirrored ∧
      (∀ n ∈ (start.built calls).nodes, OrderedDict.lookup (start.built calls).in_degrees n =
        some (((start.built calls).parentsOf n).toFinset.card : ℤ)) ∧
      ∀ call err, ((start.built calls).perform call).1 = .error err →
        ((start.built calls).perform call).2 = start.built calls) ∧
    ((∃ dag, from_dependencies m = .ok dag) ↔
      ∀ n parents, OrderedDict.lookup m n = some parents →
        ∀ p ∈ parents, p ∈ OrderedDict.keys m ∧ p ≠ n) ∧
    ∀ dag, from_dependencies m = .ok dag → ∀ p n, (p, n) ∈ dag.edges ↔
      ∃ parents, OrderedDict.lookup m n = some parents ∧ p ∈ parents := by
  refine ⟨fun start hstart => ?_, from_dependencies_isOk, fun dag hdag p n => ?_⟩
  · have hbuilt := Constructed.mirrored ⟨m, start, calls, hstart, rfl⟩
    exact ⟨hbuilt, fun n hn => in_degrees_eq hbuilt hn, fun call err => perform_error hbuilt⟩
  · obtain ⟨hm, -, hparents⟩ := from_dependencies_ok hdag
    rw [mem_edges, hm.mirror, hparents]

/-- `{"extract": [], "clean": ["extract"]}` -/
def pipeline : OrderedDict String (List String) :=
  ⟨[("extract", []), ("clean", ["extract"])], by decide⟩

/-- `add_node("load")`, an edge to it, and an edge to a node that nobody has declared. -/
def pipelineCalls : List (DagCall String) :=
  [.add_node "load", .add_edge "clean" "load", .add_edge "load" "publish"]

/-- The second edge raises, and the graph is the one that the first has left. -/
theorem representation_pipeline :
    ∃ dag, from_dependencies pipeline = .ok dag ∧ ("extract", "clean") ∈ dag.edges ∧
      (dag.built pipelineCalls).Mirrored ∧
      OrderedDict.lookup (dag.built pipelineCalls).in_degrees "load" = some 1 ∧
      ((dag.built pipelineCalls).perform (.add_edge "load" "publish")).2 =
        dag.built pipelineCalls := by
  obtain ⟨hbuilt, -, hedges⟩ := representation pipeline pipelineCalls
  obtain ⟨dag, hdag⟩ : ∃ dag, from_dependencies pipeline = .ok dag := ⟨_, rfl⟩
  obtain ⟨hmirrored, hdegrees, hraising⟩ := hbuilt dag (.inr hdag)
  refine ⟨dag, hdag, (hedges dag hdag _ _).mpr ⟨["extract"], rfl, List.mem_singleton_self _⟩,
    hmirrored, ?_, ?_⟩
  · cases hdag
    exact hdegrees "load" (by decide)
  · cases hdag
    exact hraising _ (.raised (.UnknownNodeError "publish")) rfl

end Dag

end Conductor
