/-
What `core/dag.py` guarantees.

The two adjacency dictionaries of a graph mirror each other (`Mirrored`), every
construction keeps that, and `from_dependencies` builds exactly the edges its
mapping lists. On a mirrored graph `release` lowers the counters of exactly the
children of the finished node, which is the one step that Kahn's algorithm and
the run cursor share. From it: an order that `topological_order` returns lists
every node once and after all of its parents, so a graph it accepts has no cycle.
-/
import Mathlib.Logic.Relation
import Mathlib.Data.List.Perm.Subperm
import Mathlib.Data.List.Dedup
import Conductor.Dag
import Conductor.Lib.Precedence

set_option autoImplicit false

open Relational

namespace Conductor

namespace Dag

variable {T : Type} [DecidableEq T]

/-- `self._parents[node]`, on a declared node. -/
def parentsOf (dag : Dag T) (node : T) : List T :=
  (OrderedDict.lookup dag._parents node).getD []

/-- The two adjacency lists are one relation, read both ways. -/
structure Mirrored (dag : Dag T) : Prop where
  keys : OrderedDict.keys dag._parents = dag.nodes
  mirror : ∀ p c, c ∈ dag.childrenOf p ↔ p ∈ dag.parentsOf c
  children_nodup : ∀ p, (dag.childrenOf p).Nodup
  parents_nodup : ∀ c, (dag.parentsOf c).Nodup
  declared : ∀ p c, p ∈ dag.parentsOf c → p ∈ dag.nodes ∧ c ∈ dag.nodes
  irrefl : ∀ n, n ∉ dag.parentsOf n

omit [DecidableEq T] in
theorem nodes_nodup (dag : Dag T) : dag.nodes.Nodup := dag._children.nodup

theorem contains_iff {dag : Dag T} {node : T} : dag.contains node = true ↔ node ∈ dag.nodes :=
  OrderedDict.lookup_isSome

theorem contains_eq_false {dag : Dag T} {node : T} (hnode : node ∉ dag.nodes) :
    dag.contains node = false :=
  Bool.eq_false_iff.mpr (fun hc => hnode (contains_iff.mp hc))

/-! ## Construction -/

theorem mirrored_empty : (empty : Dag T).Mirrored := by
  have hc : ∀ p, (empty : Dag T).childrenOf p = [] := fun _ => rfl
  have hp : ∀ p, (empty : Dag T).parentsOf p = [] := fun _ => rfl
  constructor
  · rfl
  · intro p c
    rw [hc, hp]
    simp
  · intro p
    rw [hc]
    exact List.nodup_nil
  · intro c
    rw [hp]
    exact List.nodup_nil
  · intro p c h
    rw [hp] at h
    exact absurd h List.not_mem_nil
  · intro n
    rw [hp]
    exact List.not_mem_nil

section AddNode

variable {dag : Dag T} (node : T)

theorem childrenOf_add_node (x : T) : (dag.add_node node).childrenOf x = dag.childrenOf x := by
  unfold childrenOf add_node
  rw [OrderedDict.lookup_setdefault]
  split
  · rename_i h
    rw [h]
    rfl
  · rfl

theorem parentsOf_add_node (x : T) : (dag.add_node node).parentsOf x = dag.parentsOf x := by
  unfold parentsOf add_node
  rw [OrderedDict.lookup_setdefault]
  split
  · rename_i h
    rw [h]
    rfl
  · rfl

/-- A node is added once, at the end. -/
theorem nodes_add_node :
    (dag.add_node node).nodes = if node ∈ dag.nodes then dag.nodes else dag.nodes ++ [node] :=
  OrderedDict.keys_setdefault _ _ _

/-- A new node has neither parents nor children. -/
theorem Mirrored.add_node (h : dag.Mirrored) : (dag.add_node node).Mirrored := by
  have hsub : ∀ x ∈ dag.nodes, x ∈ (dag.add_node node).nodes := by
    intro x hx
    rw [nodes_add_node]
    split
    · exact hx
    · exact List.mem_append_left _ hx
  constructor
  · rw [nodes_add_node, ← h.keys]
    exact OrderedDict.keys_setdefault _ _ _
  · intro p c
    rw [childrenOf_add_node, parentsOf_add_node]
    exact h.mirror p c
  · intro p
    rw [childrenOf_add_node]
    exact h.children_nodup p
  · intro c
    rw [parentsOf_add_node]
    exact h.parents_nodup c
  · intro p c hpc
    rw [parentsOf_add_node] at hpc
    obtain ⟨hp, hc⟩ := h.declared p c hpc
    exact ⟨hsub p hp, hsub c hc⟩
  · intro n
    rw [parentsOf_add_node]
    exact h.irrefl n

end AddNode

section WithEdge

variable {dag : Dag T} {parent child : T}

/-- The graph after `add_edge` has appended an edge that was not there. -/
def withEdge (dag : Dag T) (parent child : T) : Dag T :=
  ⟨OrderedDict.modify dag._children parent (· ++ [child]),
    OrderedDict.modify dag._parents child (· ++ [parent])⟩

theorem nodes_withEdge : (dag.withEdge parent child).nodes = dag.nodes :=
  OrderedDict.keys_modify _ _ _

theorem childrenOf_withEdge (hparent : parent ∈ dag.nodes) (x : T) :
    (dag.withEdge parent child).childrenOf x
      = if x = parent then dag.childrenOf x ++ [child] else dag.childrenOf x := by
  obtain ⟨children, hchildren⟩ := Option.isSome_iff_exists.mp (OrderedDict.lookup_isSome.mpr hparent)
  simp only [withEdge, childrenOf, OrderedDict.lookup_modify]
  split
  · rename_i hx
    rw [hx, hchildren]
    rfl
  · rfl

theorem parentsOf_withEdge (hm : dag.Mirrored) (hchild : child ∈ dag.nodes) (x : T) :
    (dag.withEdge parent child).parentsOf x
      = if x = child then dag.parentsOf x ++ [parent] else dag.parentsOf x := by
  rw [← hm.keys] at hchild
  obtain ⟨parents, hparents⟩ := Option.isSome_iff_exists.mp (OrderedDict.lookup_isSome.mpr hchild)
  simp only [withEdge, parentsOf, OrderedDict.lookup_modify]
  split
  · rename_i hx
    rw [hx, hparents]
    rfl
  · rfl

/-- A new edge is one more parent of its child. -/
theorem mem_parentsOf_withEdge (hm : dag.Mirrored) (hchild : child ∈ dag.nodes) (p c : T) :
    p ∈ (dag.withEdge parent child).parentsOf c ↔
      p ∈ dag.parentsOf c ∨ (p = parent ∧ c = child) := by
  rw [parentsOf_withEdge hm hchild]
  split
  · rename_i hc
    simp [hc]
  · rename_i hc
    simp [hc]

/-- Both dictionaries take the edge. -/
theorem Mirrored.withEdge (hm : dag.Mirrored) (hparent : parent ∈ dag.nodes)
    (hchild : child ∈ dag.nodes) (hne : parent ≠ child) (hnew : child ∉ dag.childrenOf parent) :
    (dag.withEdge parent child).Mirrored := by
  have hmem : ∀ p c, p ∈ (dag.withEdge parent child).parentsOf c ↔
      p ∈ dag.parentsOf c ∨ (p = parent ∧ c = child) := mem_parentsOf_withEdge hm hchild
  constructor
  · rw [nodes_withEdge]
    exact (OrderedDict.keys_modify _ _ _).trans hm.keys
  -- The edge is written on both sides.
  · intro p c
    rw [hmem, childrenOf_withEdge hparent, ← hm.mirror]
    split
    · rename_i hp
      simp [hp]
    · rename_i hp
      simp [hp]
  · intro p
    rw [childrenOf_withEdge hparent]
    split
    · rename_i hp
      subst hp
      exact List.nodup_append.mpr ⟨hm.children_nodup _, List.nodup_singleton _,
        fun a ha b hb hab => hnew (List.mem_singleton.mp hb ▸ hab ▸ ha)⟩
    · exact hm.children_nodup p
  · intro c
    rw [parentsOf_withEdge hm hchild]
    split
    · rename_i hc
      subst hc
      exact List.nodup_append.mpr ⟨hm.parents_nodup _, List.nodup_singleton _,
        fun a ha b hb hab => hnew ((hm.mirror _ _).mpr (List.mem_singleton.mp hb ▸ hab ▸ ha))⟩
    · exact hm.parents_nodup c
  · intro p c hpc
    rw [nodes_withEdge]
    rcases (hmem p c).mp hpc with h | ⟨rfl, rfl⟩
    · exact hm.declared p c h
    · exact ⟨hparent, hchild⟩
  · intro n hn
    rcases (hmem n n).mp hn with h | ⟨rfl, he⟩
    · exact hm.irrefl n h
    · exact hne he

end WithEdge

/-- What a call of `add_edge` that returns has done: nothing but put the edge
there. -/
theorem add_edge_ok {dag dag' : Dag T} {parent child : T} (hm : dag.Mirrored)
    (h : dag.add_edge parent child = .ok dag') :
    dag'.Mirrored ∧ dag'.nodes = dag.nodes ∧
      ∀ p c, p ∈ dag'.parentsOf c ↔ p ∈ dag.parentsOf c ∨ (p = parent ∧ c = child) := by
  unfold add_edge at h
  cases hpar : OrderedDict.lookup dag._children parent with
  | none => simp [hpar] at h
  | some children =>
      simp only [hpar] at h
      have hparent : parent ∈ dag.nodes := OrderedDict.lookup_isSome.mp (by rw [hpar]; rfl)
      have hof : dag.childrenOf parent = children := by simp [childrenOf, hpar]
      split at h
      · cases h
      · rename_i hsome
        have hchild : child ∈ dag.nodes := OrderedDict.lookup_isSome.mp
          (Option.isSome_iff_ne_none.mpr (by simpa using hsome))
        split at h
        · cases h
        · rename_i hne
          split at h
          · rename_i hmem
            cases h
            refine ⟨hm, rfl, fun p c => ⟨Or.inl, ?_⟩⟩
            rintro (hpc | ⟨rfl, rfl⟩)
            · exact hpc
            · exact (hm.mirror _ _).mp (hof ▸ hmem)
          · rename_i hmem
            cases h
            exact ⟨hm.withEdge hparent hchild hne (hof ▸ hmem), nodes_withEdge,
              mem_parentsOf_withEdge hm hchild⟩

/-- The edges into one node, as `from_dependencies` adds them. -/
theorem add_edges_ok {child : T} {parents : List T} {dag dag' : Dag T} (hm : dag.Mirrored)
    (h : parents.foldlM (fun dag parent => dag.add_edge parent child) dag = .ok dag') :
    dag'.Mirrored ∧ dag'.nodes = dag.nodes ∧
      ∀ p c, p ∈ dag'.parentsOf c ↔ p ∈ dag.parentsOf c ∨ (p ∈ parents ∧ c = child) := by
  induction parents generalizing dag with
  | nil =>
      cases h
      exact ⟨hm, rfl, by simp⟩
  | cons parent rest ih =>
      rw [List.foldlM_cons] at h
      cases hadd : dag.add_edge parent child with
      | error e =>
          rw [hadd] at h
          cases h
      | ok dag1 =>
          rw [hadd] at h
          obtain ⟨hm1, hn1, he1⟩ := add_edge_ok hm hadd
          obtain ⟨hm2, hn2, he2⟩ := ih hm1 h
          refine ⟨hm2, hn2.trans hn1, fun p c => ?_⟩
          rw [he2, he1, List.mem_cons]
          tauto

theorem add_all_edges_ok {items : List (T × List T)} {dag dag' : Dag T} (hm : dag.Mirrored)
    (h : items.foldlM (fun dag item =>
      item.2.foldlM (fun dag parent => dag.add_edge parent item.1) dag) dag = .ok dag') :
    dag'.Mirrored ∧ dag'.nodes = dag.nodes ∧
      ∀ p c, p ∈ dag'.parentsOf c ↔
        p ∈ dag.parentsOf c ∨ ∃ item ∈ items, p ∈ item.2 ∧ c = item.1 := by
  induction items generalizing dag with
  | nil =>
      cases h
      exact ⟨hm, rfl, by simp⟩
  | cons item rest ih =>
      rw [List.foldlM_cons] at h
      cases hadd : item.2.foldlM (fun dag parent => dag.add_edge parent item.1) dag with
      | error e =>
          rw [hadd] at h
          cases h
      | ok dag1 =>
          rw [hadd] at h
          obtain ⟨hm1, hn1, he1⟩ := add_edges_ok hm hadd
          obtain ⟨hm2, hn2, he2⟩ := ih hm1 h
          refine ⟨hm2, hn2.trans hn1, fun p c => ?_⟩
          rw [he2, he1]
          simp only [List.mem_cons, exists_eq_or_imp]
          tauto

theorem add_nodes {keys : List T} {dag : Dag T} (hm : dag.Mirrored)
    (hnodup : (dag.nodes ++ keys).Nodup) :
    (keys.foldl add_node dag).Mirrored ∧ (keys.foldl add_node dag).nodes = dag.nodes ++ keys ∧
      ∀ c, (keys.foldl add_node dag).parentsOf c = dag.parentsOf c := by
  induction keys generalizing dag with
  | nil => exact ⟨hm, by simp, fun _ => rfl⟩
  | cons key rest ih =>
      have hnew : key ∉ dag.nodes := by
        rw [List.nodup_append] at hnodup
        exact fun hin => hnodup.2.2 key hin key (by simp) rfl
      have hnodes : (dag.add_node key).nodes = dag.nodes ++ [key] := by
        rw [nodes_add_node, if_neg hnew]
      obtain ⟨h1, h2, h3⟩ := ih (hm.add_node key) (by
        rw [hnodes, List.append_assoc]
        exact hnodup)
      refine ⟨h1, ?_, fun c => ?_⟩
      · rw [List.foldl_cons, h2, hnodes, List.append_assoc]
        rfl
      · rw [List.foldl_cons, h3, parentsOf_add_node]

/-- **`from_dependencies` builds the graph its mapping describes.** -/
theorem from_dependencies_ok {dependencies : OrderedDict T (List T)} {dag : Dag T}
    (h : from_dependencies dependencies = .ok dag) :
    dag.Mirrored ∧ dag.nodes = OrderedDict.keys dependencies ∧
      ∀ p c, p ∈ dag.parentsOf c ↔
        ∃ parents, OrderedDict.lookup dependencies c = some parents ∧ p ∈ parents := by
  unfold from_dependencies at h
  have hnodup : ((empty : Dag T).nodes ++ OrderedDict.keys dependencies).Nodup := dependencies.nodup
  obtain ⟨h1, h2, h3⟩ := add_nodes mirrored_empty hnodup
  obtain ⟨hm, hn, he⟩ := add_all_edges_ok h1 h
  refine ⟨hm, hn.trans h2, fun p c => ?_⟩
  rw [he, h3]
  constructor
  · rintro (hnil | ⟨⟨c', parents⟩, hitem, hp, rfl⟩)
    · exact absurd hnil List.not_mem_nil
    · exact ⟨parents, OrderedDict.lookup_eq_some.mpr hitem, hp⟩
  · rintro ⟨parents, hlook, hp⟩
    exact Or.inr ⟨(c, parents), OrderedDict.lookup_eq_some.mp hlook, hp, rfl⟩

/-! ## Counters

`Counters dag done counts` says that every node's counter is the number of its
parents outside `done`. -/

/-- How many parents of a node are not in `done`. -/
def unmet (dag : Dag T) (done : List T) (node : T) : ℕ :=
  ((dag.parentsOf node).filter (· ∉ done)).length

def Counters (dag : Dag T) (done : List T) (counts : OrderedDict T ℤ) : Prop :=
  ∀ n ∈ dag.nodes, OrderedDict.lookup counts n = some (dag.unmet done n : ℤ)

theorem unmet_eq_zero {dag : Dag T} {done : List T} {n : T} :
    dag.unmet done n = 0 ↔ ∀ p ∈ dag.parentsOf n, p ∈ done := by
  simp [unmet, List.filter_eq_nil_iff]

/-- Finishing one more node lowers the count of each of its children by one. -/
theorem unmet_append {dag : Dag T} (hm : dag.Mirrored) {done : List T} {node : T}
    (hnode : node ∉ done) (n : T) :
    dag.unmet done n
      = dag.unmet (done ++ [node]) n + (if node ∈ dag.parentsOf n then 1 else 0) := by
  have hnd := (hm.parents_nodup n).filter (fun p => decide (p ∉ done))
  have herase : (dag.parentsOf n).filter (· ∉ done ++ [node])
      = ((dag.parentsOf n).filter (· ∉ done)).erase node := by
    rw [hnd.erase_eq_filter, List.filter_filter]
    refine List.filter_congr (fun p _ => ?_)
    by_cases hp : p = node
    · simp [hp]
    · simp [hp]
  unfold unmet
  rw [herase]
  split
  · rename_i hmem
    have hin : node ∈ (dag.parentsOf n).filter (· ∉ done) := by simp [hmem, hnode]
    have hpos := List.length_pos_of_mem hin
    rw [List.length_erase_of_mem hin]
    omega
  · rename_i hmem
    rw [List.erase_of_not_mem (by simp [hmem])]
    rfl

/-- At the start nothing is done, and a node waits for all its parents. -/
theorem counters_in_degrees {dag : Dag T} (hm : dag.Mirrored) : dag.Counters [] dag.in_degrees := by
  intro n hn
  rw [← hm.keys] at hn
  obtain ⟨parents, hparents⟩ := Option.isSome_iff_exists.mp (OrderedDict.lookup_isSome.mpr hn)
  have hof : dag.parentsOf n = parents := by simp [parentsOf, hparents]
  have hrow := OrderedDict.lookup_eq_some.mp hparents
  rw [OrderedDict.lookup_eq_some]
  refine List.mem_map.mpr ⟨(n, parents), hrow, ?_⟩
  simp [unmet, hof]

/-- `release` lowers the counters of `children` and returns those it brought to
zero. -/
theorem release_spec {children : List T} (hnodup : children.Nodup) (counts : OrderedDict T ℤ) :
    (∀ n, OrderedDict.lookup (release children counts).1 n
      = if n ∈ children then (OrderedDict.lookup counts n).map (· - 1)
        else OrderedDict.lookup counts n) ∧
    (release children counts).2
      = children.filter (fun c => OrderedDict.lookup counts c = some 1) ∧
    OrderedDict.keys (release children counts).1 = OrderedDict.keys counts := by
  induction children generalizing counts with
  | nil => exact ⟨fun n => by simp [release], rfl, rfl⟩
  | cons child rest ih =>
      rw [List.nodup_cons] at hnodup
      obtain ⟨h1, h2, h3⟩ := ih hnodup.2 (OrderedDict.modify counts child (· - 1))
      -- The first child is brought to zero when it stood at one, and it comes once.
      have hchild : OrderedDict.lookup (OrderedDict.modify counts child (· - 1)) child = some 0 ↔
          OrderedDict.lookup counts child = some 1 := by
        rw [OrderedDict.lookup_modify, if_pos rfl]
        cases OrderedDict.lookup counts child with
        | none => simp
        | some v =>
            simp only [Option.map_some, Option.some.injEq]
            omega
      refine ⟨fun n => ?_, ?_, ?_⟩
      · simp only [release]
        rw [h1, OrderedDict.lookup_modify]
        by_cases hn : n = child
        · subst hn
          simp [hnodup.1]
        · simp [hn]
      · simp only [release]
        rw [h2, List.filter_cons]
        have hrest : rest.filter (fun c => OrderedDict.lookup
            (OrderedDict.modify counts child (· - 1)) c = some 1)
            = rest.filter (fun c => OrderedDict.lookup counts c = some 1) := by
          refine List.filter_congr (fun c hc => ?_)
          have hne : c ≠ child := fun h => hnodup.1 (h ▸ hc)
          rw [OrderedDict.lookup_modify, if_neg hne]
        rw [hrest]
        simp only [hchild, decide_eq_true_eq]
      · simp only [release]
        rw [h3, OrderedDict.keys_modify]

/-- Releasing the children of a node that is just done keeps the counters exact,
and returns the children it has met the last need of. -/
theorem Counters.release {dag : Dag T} (hm : dag.Mirrored) {done : List T}
    {counts : OrderedDict T ℤ} (hc : dag.Counters done counts) {node : T} (hnode : node ∉ done) :
    dag.Counters (done ++ [node]) (release (dag.childrenOf node) counts).1 ∧
    ∀ c, c ∈ (release (dag.childrenOf node) counts).2 ↔
      node ∈ dag.parentsOf c ∧ dag.unmet (done ++ [node]) c = 0 := by
  obtain ⟨h1, h2, -⟩ := release_spec (hm.children_nodup node) counts
  refine ⟨fun n hn => ?_, fun c => ?_⟩
  · have hu := unmet_append hm hnode n
    rw [h1, hc n hn]
    by_cases hchild : n ∈ dag.childrenOf node
    · rw [if_pos ((hm.mirror node n).mp hchild)] at hu
      rw [if_pos hchild, Option.map_some, hu]
      congr 1
      omega
    · rw [if_neg (fun hp => hchild ((hm.mirror node n).mpr hp))] at hu
      rw [if_neg hchild, hu]
      rfl
  · rw [h2, List.mem_filter, hm.mirror, decide_eq_true_eq]
    refine and_congr_right (fun hp => ?_)
    have hu := unmet_append hm hnode c
    rw [if_pos hp] at hu
    rw [hc c (hm.declared node c hp).2, Option.some.injEq, hu]
    omega

/-! ## Kahn's algorithm -/

/-- Every node of the list comes after all of its parents. -/
def Sorted (dag : Dag T) (order : List T) : Prop :=
  ∀ l₁ n l₂, order = l₁ ++ n :: l₂ → ∀ p ∈ dag.parentsOf n, p ∈ l₁

/-- A node whose parents are all in the order may come next. -/
theorem Sorted.append {dag : Dag T} {order : List T} (h : dag.Sorted order) {node : T}
    (hnode : ∀ p ∈ dag.parentsOf node, p ∈ order) : dag.Sorted (order ++ [node]) := by
  intro l₁ n l₂ he p hp
  rcases List.eq_nil_or_concat l₂ with rfl | ⟨l, b, rfl⟩
  · have := List.append_inj' he (by simp)
    simp only [List.cons.injEq, and_true] at this
    obtain ⟨rfl, rfl⟩ := this
    exact hnode p hp
  · rw [List.concat_eq_append, ← List.cons_append, ← List.append_assoc] at he
    have := List.append_inj' he (by simp)
    exact h l₁ n l this.1 p hp

/-- What holds at the head of the `while queue` loop. -/
structure KahnInv (dag : Dag T) (queue order : List T) (in_degree : OrderedDict T ℤ) : Prop where
  counters : dag.Counters order in_degree
  nodup : (queue ++ order).Nodup
  declared : ∀ n, n ∈ queue ∨ n ∈ order → n ∈ dag.nodes
  enqueued : ∀ n ∈ dag.nodes, (n ∈ queue ∨ n ∈ order ↔ dag.unmet order n = 0)
  sorted : dag.Sorted order

theorem KahnInv.start {dag : Dag T} (hm : dag.Mirrored) :
    dag.KahnInv (dag.nodes.filter (fun node =>
      OrderedDict.lookup dag.in_degrees node = some 0)) [] dag.in_degrees := by
  have hc := counters_in_degrees hm
  refine ⟨hc, ?_, ?_, ?_, ?_⟩
  · rw [List.append_nil]
    exact List.Nodup.filter _ dag.nodes_nodup
  · rintro n (hn | hn)
    · exact (List.mem_filter.mp hn).1
    · exact absurd hn List.not_mem_nil
  · intro n hn
    rw [List.mem_filter, hc n hn]
    simp [hn]
  · intro l₁ n l₂ he
    exact absurd he.symm (by simp)

theorem KahnInv.next {dag : Dag T} (hm : dag.Mirrored) {node : T} {queue order : List T}
    {in_degree : OrderedDict T ℤ} (h : dag.KahnInv (node :: queue) order in_degree) :
    dag.KahnInv (queue ++ (release (dag.childrenOf node) in_degree).2) (order ++ [node])
      (release (dag.childrenOf node) in_degree).1 := by
  have hnd := h.nodup
  rw [List.cons_append, List.nodup_cons] at hnd
  have hnode : node ∉ order := fun hin => hnd.1 (List.mem_append_right _ hin)
  obtain ⟨hcounters, hreleased⟩ := h.counters.release hm hnode
  have hndecl : node ∈ dag.nodes := h.declared node (Or.inl List.mem_cons_self)
  have hzero : dag.unmet order node = 0 :=
    (h.enqueued node hndecl).mp (Or.inl List.mem_cons_self)
  -- A released node had an unmet parent until now, so it is in neither list.
  have hfresh : ∀ c, c ∈ (release (dag.childrenOf node) in_degree).2 →
      ¬ (c ∈ node :: queue ∨ c ∈ order) := by
    intro c hc hin
    obtain ⟨hp, -⟩ := (hreleased c).mp hc
    have hmet := unmet_eq_zero.mp ((h.enqueued c (h.declared c hin)).mp hin) node hp
    exact hnode hmet
  refine ⟨hcounters, ?_, ?_, ?_, ?_⟩
  · have hrel : (release (dag.childrenOf node) in_degree).2.Nodup := by
      rw [(release_spec (hm.children_nodup node) in_degree).2.1]
      exact List.Nodup.filter _ (hm.children_nodup node)
    rw [List.append_assoc, List.nodup_append]
    refine ⟨(List.nodup_append.mp hnd.2).1, ?_, ?_⟩
    · refine List.nodup_append.mpr ⟨hrel, ?_, ?_⟩
      · exact List.nodup_append.mpr ⟨(List.nodup_append.mp hnd.2).2.1, List.nodup_singleton _,
          fun a ha b hb hab => hnode (List.mem_singleton.mp hb ▸ hab ▸ ha)⟩
      · rintro a ha b hb rfl
        refine hfresh a ha ?_
        rcases List.mem_append.mp hb with hb | hb
        · exact Or.inr hb
        · exact Or.inl (List.mem_singleton.mp hb ▸ List.mem_cons_self)
    · rintro a ha b hb rfl
      rcases List.mem_append.mp hb with hb | hb
      · exact hfresh a hb (Or.inl (List.mem_cons_of_mem _ ha))
      · rcases List.mem_append.mp hb with hb | hb
        · exact (List.nodup_append.mp hnd.2).2.2 a ha a hb rfl
        · exact hnd.1 (List.mem_append_left _ (List.mem_singleton.mp hb ▸ ha))
  · intro n hn
    simp only [List.mem_append, List.mem_singleton] at hn
    rcases hn with (hn | hn) | hn | rfl
    · exact h.declared n (Or.inl (List.mem_cons_of_mem _ hn))
    · exact (hm.declared node n ((hreleased n).mp hn).1).2
    · exact h.declared n (Or.inr hn)
    · exact hndecl
  · intro n hn
    have hu := unmet_append hm hnode n
    have hold := h.enqueued n hn
    simp only [List.mem_append, List.mem_singleton, hreleased]
    rw [List.mem_cons] at hold
    by_cases hp : node ∈ dag.parentsOf n
    · -- A child of `node` was not enqueued before; it is now iff its count is zero.
      rw [if_pos hp] at hu
      have hnot : ¬ ((n = node ∨ n ∈ queue) ∨ n ∈ order) := by
        intro hin
        have := hold.mp hin
        omega
      push Not at hnot
      constructor
      · rintro ((hq | ⟨-, hz⟩) | ho | rfl)
        · exact absurd hq hnot.1.2
        · exact hz
        · exact absurd ho hnot.2
        · exact absurd rfl hnot.1.1
      · intro hz
        exact Or.inl (Or.inr ⟨hp, hz⟩)
    · rw [if_neg hp] at hu
      rw [show dag.unmet (order ++ [node]) n = dag.unmet order n from hu.symm, ← hold]
      tauto
  · exact h.sorted.append (unmet_eq_zero.mp hzero)

/-- The loop ends, and what it ends with. -/
theorem topoLoop_spec {dag : Dag T} (hm : dag.Mirrored) (rounds : ℕ) (queue order : List T)
    (in_degree : OrderedDict T ℤ) (h : dag.KahnInv queue order in_degree)
    (hrounds : dag.nodes.length ≤ rounds + order.length) :
    ∃ order' in_degree', dag.topoLoop rounds queue order in_degree = some order' ∧
      dag.KahnInv [] order' in_degree' := by
  induction rounds generalizing queue order in_degree with
  | zero =>
      -- All nodes are in `order`, so none is left for the queue.
      have hle := (List.subperm_of_subset h.nodup (fun n hn =>
        h.declared n (List.mem_append.mp hn))).length_le
      rw [List.length_append] at hle
      have hq : queue = [] := List.eq_nil_of_length_eq_zero (by omega)
      subst hq
      exact ⟨order, in_degree, by simp [topoLoop], h⟩
  | succ rounds ih =>
      cases queue with
      | nil => exact ⟨order, in_degree, by simp [topoLoop], h⟩
      | cons node queue =>
          simp only [topoLoop]
          exact ih _ _ _ (h.next hm) (by rw [List.length_append]; simp; omega)

/-- **An order that `topological_order` returns is one:** every node once, and
after all of its parents. -/
theorem topological_order_ok {dag : Dag T} (hm : dag.Mirrored) {order : List T}
    (h : dag.topological_order = .ok order) :
    dag.Sorted order ∧ order.Nodup ∧ order.Perm dag.nodes := by
  obtain ⟨order', in_degree', hloop, hinv⟩ := topoLoop_spec hm dag.nodes.length _ [] dag.in_degrees
    (KahnInv.start hm) (by simp)
  unfold topological_order at h
  simp only [hloop] at h
  split at h
  · cases hf : dag.find_cycle <;> simp [hf, bind, Except.bind] at h
  · rename_i hlen
    cases h
    have hnd : order.Nodup := by simpa using hinv.nodup
    have hsub : order.Subperm dag.nodes :=
      List.subperm_of_subset hnd (fun n hn => hinv.declared n (Or.inr hn))
    refine ⟨hinv.sorted, hnd, hsub.perm_of_length_le ?_⟩
    push Not at hlen
    exact Nat.le_of_eq hlen.symm

/-- In a sorted list every parent has a smaller index than its child. -/
theorem Sorted.idxOf_lt {dag : Dag T} {order : List T}
    (hsorted : dag.Sorted order) {p c : T} (hc : c ∈ order) (hp : p ∈ dag.parentsOf c) :
    order.idxOf p < order.idxOf c := by
  obtain ⟨before, after, hsplit, hbefore⟩ := List.eq_append_cons_of_mem hc
  have hfirst := hsorted before c after hsplit p hp
  rw [hsplit, List.idxOf_append_of_mem hfirst, List.idxOf_append_of_notMem hbefore,
    List.idxOf_cons_self, Nat.add_zero]
  exact List.idxOf_lt_length_of_mem hfirst

/-- A graph that can be sorted has no cycle. -/
theorem acyclic_of_sorted {dag : Dag T} (hm : dag.Mirrored) {order : List T}
    (hsorted : dag.Sorted order) (hall : ∀ n ∈ dag.nodes, n ∈ order) (t : T) :
    ¬ Relation.TransGen (fun p c => p ∈ dag.parentsOf c) t t := by
  have hlt : ∀ p c, p ∈ dag.parentsOf c → order.idxOf p < order.idxOf c :=
    fun p c hpc => hsorted.idxOf_lt (hall c (hm.declared p c hpc).2) hpc
  have htrans : ∀ a b, Relation.TransGen (fun p c => p ∈ dag.parentsOf c) a b →
      order.idxOf a < order.idxOf b := by
    intro a b hab
    induction hab with
    | single hpc => exact hlt _ _ hpc
    | tail _ hpc ih => exact Nat.lt_trans ih (hlt _ _ hpc)
  exact fun h => absurd (htrans t t h) (Nat.lt_irrefl _)

/-- Without a cycle, every walk from child to parent ends. -/
theorem wellFounded_parentsOf {dag : Dag T} (hm : dag.Mirrored)
    (hacyclic : ∀ n, ¬ Relation.TransGen (fun p c => p ∈ dag.parentsOf c) n n) :
    WellFounded (fun p c => p ∈ dag.parentsOf c) := by
  have hedge : Precedence.Edge (fun c => (dag.parentsOf c).toFinset)
      = fun p c => p ∈ dag.parentsOf c := by
    funext p c
    exact propext List.mem_toFinset
  rw [← hedge]
  refine Precedence.wellFounded_of_acyclic dag.nodes.toFinset (fun p c hp => ?_) (fun n hn => ?_)
  · exact List.mem_toFinset.mpr (hm.declared p c (List.mem_toFinset.mp hp)).2
  · rw [Precedence.Below, hedge] at hn
    exact hacyclic n hn

/-- **A graph can be sorted exactly when it has no cycle.** -/
theorem topological_order_isOk {dag : Dag T} (hm : dag.Mirrored) :
    (∃ order, dag.topological_order = .ok order) ↔
      ∀ n, ¬ Relation.TransGen (fun p c => p ∈ dag.parentsOf c) n n := by
  constructor
  · rintro ⟨order, horder⟩
    obtain ⟨hsorted, -, hperm⟩ := topological_order_ok hm horder
    exact acyclic_of_sorted hm hsorted (fun n hn => hperm.mem_iff.mpr hn)
  · intro hacyclic
    obtain ⟨order, in_degree, hloop, hinv⟩ := topoLoop_spec hm dag.nodes.length _ []
      dag.in_degrees (KahnInv.start hm) (by simp)
    -- From the roots on, a node whose parents are in the order is in it too.
    have hall : ∀ n, n ∈ dag.nodes → n ∈ order := by
      intro n
      induction n using (wellFounded_parentsOf hm hacyclic).induction with
      | _ n ih =>
          intro hn
          have hmet : dag.unmet order n = 0 :=
            unmet_eq_zero.mpr (fun p hp => ih p hp (hm.declared p n hp).1)
          exact ((hinv.enqueued n hn).mpr hmet).resolve_left List.not_mem_nil
    have hnodup : order.Nodup := by simpa using hinv.nodup
    have hperm : order.Perm dag.nodes :=
      (List.perm_ext_iff_of_nodup hnodup dag.nodes_nodup).mpr
        (fun n => ⟨fun hn => hinv.declared n (Or.inr hn), hall n⟩)
    refine ⟨order, ?_⟩
    unfold topological_order
    dsimp only
    rw [hloop]
    exact if_neg (not_not.mpr hperm.length_eq)

/-- A root has no parents. -/
theorem mem_roots {dag : Dag T} (hm : dag.Mirrored) {n : T} :
    n ∈ dag.roots ↔ n ∈ dag.nodes ∧ dag.parentsOf n = [] := by
  unfold roots parentsOf
  rw [← hm.keys, ← OrderedDict.lookup_isSome]
  simp only [List.mem_map, List.mem_filter, List.isEmpty_iff, Prod.exists]
  constructor
  · rintro ⟨n', parents, ⟨hitem, rfl⟩, rfl⟩
    rw [OrderedDict.lookup_eq_some.mpr hitem]
    exact ⟨rfl, rfl⟩
  · rintro ⟨hfound, hnone⟩
    obtain ⟨parents, hlook⟩ := Option.isSome_iff_exists.mp hfound
    rw [hlook] at hnone
    exact ⟨n, parents, ⟨OrderedDict.lookup_eq_some.mp hlook, hnone⟩, rfl⟩

/-- A graph without a cycle has a root, unless it has no nodes. -/
theorem roots_ne_nil {dag : Dag T} (hm : dag.Mirrored)
    (hacyclic : ∀ n, ¬ Relation.TransGen (fun p c => p ∈ dag.parentsOf c) n n)
    (hne : dag.nodes ≠ []) : dag.roots ≠ [] := by
  obtain ⟨n, hn⟩ := List.exists_mem_of_ne_nil _ hne
  obtain ⟨root, hroot, hfirst⟩ :=
    (wellFounded_parentsOf hm hacyclic).has_min {n | n ∈ dag.nodes} ⟨n, hn⟩
  refine List.ne_nil_of_mem ((mem_roots hm).mpr ⟨hroot, ?_⟩)
  refine List.eq_nil_iff_forall_not_mem.mpr (fun p hp => ?_)
  exact hfirst p (hm.declared p root hp).1 hp

end Dag

/-! ## The cursor

On a mirrored graph the cursor's counters are those of its succeeded nodes, and
`blocked` walks exactly to what is below its failed nodes. -/

namespace DagCursor

variable {T : Type} [DecidableEq T]

/-- `p` is a strict ancestor of `c` in the graph. -/
abbrev Above (dag : Dag T) : T → T → Prop := Relation.TransGen (fun p c => p ∈ dag.parentsOf c)

theorem new_ok {dag : Dag T} {order : List T} (h : dag.topological_order = .ok order) :
    DagCursor.new dag = .ok ⟨dag, dag.in_degrees, [], []⟩ := by
  have hacyclic : dag.is_acyclic = .ok true := by
    unfold Dag.is_acyclic
    rw [h]
  unfold new
  rw [hacyclic]
  rfl

theorem children_ok {dag : Dag T} {node : T} (h : node ∈ dag.nodes) :
    dag.children node = .ok (dag.childrenOf node) := by
  obtain ⟨children, hlook⟩ := Option.isSome_iff_exists.mp (OrderedDict.lookup_isSome.mpr h)
  simp [Dag.children, Dag.childrenOf, hlook]

/-- A success of a released node is recorded, and lowers its children's counters. -/
theorem mark_succeeded_ok {cursor : DagCursor T} (hm : cursor._dag.Mirrored)
    (hc : cursor._dag.Counters cursor._succeeded cursor._pending) {node : T}
    (hnode : node ∈ cursor._dag.nodes) (hnew : node ∉ cursor._succeeded)
    (hzero : cursor._dag.unmet cursor._succeeded node = 0) :
    ∃ cursor' unblocked, cursor.mark_succeeded node = .ok (cursor', unblocked) ∧
      cursor'._dag = cursor._dag ∧ cursor'._succeeded = cursor._succeeded ++ [node] ∧
      cursor'._failed = cursor._failed.filter (· ≠ node) ∧
      OrderedDict.keys cursor'._pending = OrderedDict.keys cursor._pending ∧
      cursor'._dag.Counters cursor'._succeeded cursor'._pending := by
  have hlook : OrderedDict.lookup cursor._pending node = some 0 := by
    rw [hc node hnode, hzero]
    rfl
  refine ⟨⟨cursor._dag, (Dag.release (cursor._dag.childrenOf node) cursor._pending).1,
    cursor._succeeded ++ [node], cursor._failed.filter (· ≠ node)⟩,
    (Dag.release (cursor._dag.childrenOf node) cursor._pending).2, ?_, rfl, rfl, rfl,
    (Dag.release_spec (hm.children_nodup node) cursor._pending).2.2, (hc.release hm hnew).1⟩
  unfold mark_succeeded
  rw [Dag.contains_iff.mpr hnode, if_neg (by simp), if_neg hnew, if_neg (by simp [hlook]),
    children_ok hnode]
  rfl

theorem mark_failed_ok {cursor : DagCursor T} {node : T} (hnode : node ∈ cursor._dag.nodes) :
    ∃ cursor', cursor.mark_failed node = .ok cursor' ∧ cursor'._dag = cursor._dag ∧
      cursor'._succeeded = cursor._succeeded ∧ cursor'._pending = cursor._pending ∧
      ∀ k, k ∈ cursor'._failed ↔ k ∈ cursor._failed ∨ k = node := by
  refine ⟨⟨cursor._dag, cursor._pending, cursor._succeeded,
    if node ∈ cursor._failed then cursor._failed else cursor._failed ++ [node]⟩, ?_, rfl, rfl, rfl,
    fun k => ?_⟩
  · unfold mark_failed
    rw [Dag.contains_iff.mpr hnode, if_neg (by simp)]
  · dsimp only
    split
    · rename_i hin
      exact ⟨Or.inl, fun h => h.elim id (fun he => he ▸ hin)⟩
    · rw [List.mem_append, List.mem_singleton]

/-- `ready` lists the nodes whose counter is zero and that have not ended. -/
theorem mem_ready {cursor : DagCursor T} {k : T} :
    k ∈ cursor.ready ↔ OrderedDict.lookup cursor._pending k = some 0 ∧ k ∉ cursor._succeeded ∧
      k ∉ cursor._failed := by
  simp only [ready, List.mem_map, List.mem_filter, Bool.and_eq_true, decide_eq_true_eq,
    OrderedDict.lookup_eq_some]
  constructor
  · rintro ⟨⟨k', v⟩, ⟨hmem, ⟨rfl, hs⟩, hf⟩, rfl⟩
    exact ⟨hmem, hs, hf⟩
  · rintro ⟨hmem, hs, hf⟩
    exact ⟨(k, 0), ⟨hmem, ⟨rfl, hs⟩, hf⟩, rfl⟩

/-! ### Poisoning -/

theorem mem_freshlyPoisoned {children poisoned : List T} {x : T} :
    x ∈ freshlyPoisoned children poisoned ↔ x ∈ children ∧ x ∉ poisoned := by
  induction children generalizing poisoned with
  | nil => simp [freshlyPoisoned]
  | cons child rest ih =>
      unfold freshlyPoisoned
      split
      · rename_i hin
        rw [ih, List.mem_cons]
        refine ⟨fun h => ⟨Or.inr h.1, h.2⟩, fun h => ⟨h.1.resolve_left ?_, h.2⟩⟩
        rintro rfl
        exact h.2 hin
      · rename_i hnot
        rw [List.mem_cons, ih, List.mem_cons, List.mem_append, List.mem_singleton]
        by_cases hx : x = child
        · subst hx
          simp [hnot]
        · simp [hx]

theorem nodup_freshlyPoisoned (children poisoned : List T) :
    (freshlyPoisoned children poisoned).Nodup := by
  induction children generalizing poisoned with
  | nil => exact List.nodup_nil
  | cons child rest ih =>
      unfold freshlyPoisoned
      split
      · exact ih poisoned
      · refine List.nodup_cons.mpr ⟨fun hin => ?_, ih _⟩
        exact (mem_freshlyPoisoned.mp hin).2 (List.mem_append_right _ (List.mem_singleton.mpr rfl))

/-- Where the walk from the failed nodes stands: what it poisoned is below a failed
node, and everything it has not looked at any more has its children poisoned. -/
structure PoisonInv (dag : Dag T) (failed queue poisoned : List T) : Prop where
  declared : ∀ x ∈ queue ++ poisoned, x ∈ dag.nodes
  nodup : poisoned.Nodup
  sound : ∀ x ∈ poisoned, ∃ f ∈ failed, Above dag f x
  seen : ∀ x ∈ queue, x ∈ failed ∨ x ∈ poisoned
  closed : ∀ x, x ∈ failed ∨ x ∈ poisoned → x ∈ queue ∨ ∀ c, x ∈ dag.parentsOf c → c ∈ poisoned

theorem PoisonInv.next {dag : Dag T} (hm : dag.Mirrored) {failed queue poisoned : List T} {node : T}
    (h : PoisonInv dag failed (node :: queue) poisoned) :
    PoisonInv dag failed (queue ++ freshlyPoisoned (dag.childrenOf node) poisoned)
      (poisoned ++ freshlyPoisoned (dag.childrenOf node) poisoned) := by
  have hfresh : ∀ x ∈ freshlyPoisoned (dag.childrenOf node) poisoned, node ∈ dag.parentsOf x :=
    fun x hx => (hm.mirror node x).mp (mem_freshlyPoisoned.mp hx).1
  refine ⟨?_, ?_, ?_, ?_, ?_⟩
  · intro x hx
    simp only [List.mem_append] at hx
    rcases hx with (hx | hx) | (hx | hx)
    · exact h.declared x (by simp [hx])
    · exact (hm.declared _ _ (hfresh x hx)).2
    · exact h.declared x (by simp [hx])
    · exact (hm.declared _ _ (hfresh x hx)).2
  · refine List.nodup_append.mpr ⟨h.nodup, nodup_freshlyPoisoned _ _, ?_⟩
    rintro x hx y hy rfl
    exact (mem_freshlyPoisoned.mp hy).2 hx
  · intro x hx
    rcases List.mem_append.mp hx with hx | hx
    · exact h.sound x hx
    · have hedge := hfresh x hx
      rcases h.seen node List.mem_cons_self with hf | hp
      · exact ⟨node, hf, Relation.TransGen.single hedge⟩
      · obtain ⟨f, hf, hpath⟩ := h.sound node hp
        exact ⟨f, hf, hpath.tail hedge⟩
  · intro x hx
    rcases List.mem_append.mp hx with hx | hx
    · rcases h.seen x (List.mem_cons_of_mem _ hx) with hf | hp
      · exact Or.inl hf
      · exact Or.inr (List.mem_append_left _ hp)
    · exact Or.inr (List.mem_append_right _ hx)
  · intro x hx
    by_cases hnew : x ∈ freshlyPoisoned (dag.childrenOf node) poisoned
    · exact Or.inl (List.mem_append_right _ hnew)
    · have hold : x ∈ failed ∨ x ∈ poisoned := by
        rcases hx with hx | hx
        · exact Or.inl hx
        · exact Or.inr ((List.mem_append.mp hx).resolve_right hnew)
      rcases h.closed x hold with hq | hchildren
      · rcases List.mem_cons.mp hq with rfl | hq
        · -- The node just taken off the queue: its children are poisoned now.
          refine Or.inr (fun c hc => ?_)
          by_cases hin : c ∈ poisoned
          · exact List.mem_append_left _ hin
          · exact List.mem_append_right _
              (mem_freshlyPoisoned.mpr ⟨(hm.mirror x c).mpr hc, hin⟩)
        · exact Or.inl (List.mem_append_left _ hq)
      · exact Or.inr (fun c hc => List.mem_append_left _ (hchildren c hc))

/-- The walk ends, with exactly what is below a failed node. -/
theorem poisonLoop_spec {dag : Dag T} (hm : dag.Mirrored) {failed : List T} (rounds : ℕ)
    (queue poisoned : List T) (h : PoisonInv dag failed queue poisoned)
    (hrounds : queue.length + dag.nodes.length ≤ rounds + poisoned.length) :
    ∃ result, poisonLoop dag rounds queue poisoned = .ok result ∧
      ∀ x, x ∈ result ↔ ∃ f ∈ failed, Above dag f x := by
  have hdone : ∀ poisoned, PoisonInv dag failed [] poisoned →
      ∀ x, x ∈ poisoned ↔ ∃ f ∈ failed, Above dag f x := by
    intro poisoned h x
    refine ⟨h.sound x, ?_⟩
    rintro ⟨f, hf, hpath⟩
    have hstep : ∀ p c, p ∈ failed ∨ p ∈ poisoned → p ∈ dag.parentsOf c → c ∈ poisoned :=
      fun p c hp hc => ((h.closed p hp).resolve_left List.not_mem_nil) c hc
    induction hpath with
    | single hedge => exact hstep _ _ (Or.inl hf) hedge
    | tail _ hedge ih => exact hstep _ _ (Or.inr ih) hedge
  induction rounds generalizing queue poisoned with
  | zero =>
      -- Every node is poisoned, so nothing is left for the queue.
      have hle := (List.subperm_of_subset h.nodup (fun x hx =>
        h.declared x (List.mem_append_right _ hx))).length_le
      have hq : queue = [] := List.eq_nil_of_length_eq_zero (by omega)
      subst hq
      exact ⟨poisoned, by simp [poisonLoop], hdone poisoned h⟩
  | succ rounds ih =>
      cases queue with
      | nil => exact ⟨poisoned, by simp [poisonLoop], hdone poisoned h⟩
      | cons node queue =>
          simp only [poisonLoop]
          rw [children_ok (h.declared node (by simp))]
          refine ih _ _ (h.next hm) ?_
          simp only [List.length_cons, List.length_append] at hrounds ⊢
          omega

/-- **`blocked` returns, and lists exactly the nodes below a failed one.** -/
theorem blocked_ok {cursor : DagCursor T} (hm : cursor._dag.Mirrored)
    (hfailed : ∀ x ∈ cursor._failed, x ∈ cursor._dag.nodes) :
    ∃ blocked, cursor.blocked = .ok blocked ∧
      ∀ x, x ∈ blocked ↔ ∃ f ∈ cursor._failed, Above cursor._dag f x := by
  unfold DagCursor.blocked
  split
  · rename_i hempty
    rw [List.isEmpty_iff.mp hempty]
    exact ⟨[], rfl, fun x => by simp⟩
  · have hstart : PoisonInv cursor._dag cursor._failed cursor._failed [] :=
      ⟨fun x hx => hfailed x (by simpa using hx), List.nodup_nil,
        fun x hx => absurd hx List.not_mem_nil, fun x hx => Or.inl hx,
        fun x hx => Or.inl (hx.resolve_right List.not_mem_nil)⟩
    obtain ⟨result, hloop, hresult⟩ := poisonLoop_spec hm
      (cursor._failed.length + cursor._dag.nodes.length) _ _ hstart (Nat.le_refl _)
    refine ⟨cursor._dag.nodes.filter (· ∈ result), by rw [hloop]; rfl, fun x => ?_⟩
    rw [List.mem_filter, decide_eq_true_eq, hresult]
    refine and_iff_right_of_imp ?_
    rintro ⟨f, -, hpath⟩
    obtain ⟨p, -, hedge⟩ := Relation.TransGen.tail'_iff.mp hpath
    exact (hm.declared p x hedge).2

end DagCursor

end Conductor
