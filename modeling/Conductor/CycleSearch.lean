/-
The cycle search, and the sort that depends on it.

`_find_cycle` keeps three things in step: the colours, the stack of nodes with the
index of the next child of each, and the path. A node is grey while it is on the stack,
and the path lists the stack from its bottom. Every child that a node on the stack has
been asked for is black, except the one that was pushed on top of it; so a node is
finished when all of its children are black, and everything below a black node is black
and on no cycle (`SearchInv`).

A search that meets a grey child has the edge that closes the path into a cycle. One
that meets none leaves every node black, and then the graph has no cycle. How long it
takes is counted by `remaining`: every round looks at one child or finishes one node.

`topological_order` calls the search when its order is short, which happens exactly on
a graph that has a cycle.
-/
import Mathlib.Algebra.BigOperators.Group.Finset.Basic
import Mathlib.Algebra.GroupWithZero.Nat
import Mathlib.Algebra.Order.BigOperators.Group.Finset
import Mathlib.Data.List.Chain
import Conductor.DagBuild

set_option autoImplicit false

open Relational

namespace Conductor

namespace Dag

variable {T : Type}

/-- `parent -> child` is an edge of the graph. -/
abbrev Edge (dag : Dag T) (parent child : T) : Prop := (parent, child) ∈ dag.edges

/-- No node is its own strict ancestor. -/
def Acyclic (dag : Dag T) : Prop := ∀ node, ¬ Relation.TransGen dag.Edge node node

/-- A walk along edges that comes back to where it started and meets nothing else twice. -/
structure IsCycle (dag : Dag T) (cycle : List T) : Prop where
  long : 3 ≤ cycle.length
  returns : cycle.head? = cycle.getLast?
  distinct : cycle.dropLast.Nodup
  edges : cycle.IsChain dag.Edge

/-- A walk of at least one edge. -/
theorem transGen_of_isChain {α : Type} {r : α → α → Prop} {a b : α} {walk : List α}
    (h : (a :: (walk ++ [b])).IsChain r) : Relation.TransGen r a b := by
  induction walk generalizing a with
  | nil => exact .single (List.isChain_pair.mp h)
  | cons c walk ih =>
      obtain ⟨hac, hrest⟩ := List.isChain_cons_cons.mp h
      exact .head hac (ih hrest)

theorem IsCycle.not_acyclic {dag : Dag T} {cycle : List T} (h : dag.IsCycle cycle) :
    ¬ dag.Acyclic := by
  intro hacyclic
  cases cycle with
  | nil => exact absurd h.long (by simp)
  | cons first rest =>
      rcases List.eq_nil_or_concat rest with rfl | ⟨walk, last, rfl⟩
      · exact absurd h.long (by simp)
      · rw [List.concat_eq_append] at h
        have hlast : first = last := by
          have hreturns := h.returns
          rw [← List.cons_append, List.getLast?_concat] at hreturns
          exact Option.some.inj hreturns
        subst hlast
        exact hacyclic first (transGen_of_isChain h.edges)

variable [DecidableEq T] {dag : Dag T}

theorem Mirrored.edge_iff (hm : dag.Mirrored) {p c : T} : dag.Edge p c ↔ p ∈ dag.parentsOf c :=
  mem_edges.trans (hm.mirror p c)

theorem Mirrored.acyclic_iff (hm : dag.Mirrored) :
    dag.Acyclic ↔ ∀ n, ¬ Relation.TransGen (fun p c => p ∈ dag.parentsOf c) n n := by
  have hedge : dag.Edge = fun p c => p ∈ dag.parentsOf c := by
    funext p c
    exact propext hm.edge_iff
  unfold Acyclic
  rw [hedge]

/-! ## What the search knows -/

/-- The stack from its top. Of each node it lists, the children that were asked for are
black, but for the node `above`, which was pushed on top of it. -/
def Climb (dag : Dag T) (colour : OrderedDict T Colour) : Option T → List (T × ℕ) → Prop
  | _, [] => True
  | above, (node, index) :: stack =>
      (∀ child, above = some child → dag.Edge node child) ∧
      (∀ child ∈ (dag.childrenOf node).take index,
        OrderedDict.lookup colour child = some .BLACK ∨ above = some child) ∧
      dag.Climb colour (some node) stack

/-- What holds at the head of the `while stack` loop. -/
structure SearchInv (dag : Dag T) (colour : OrderedDict T Colour) (stack : List (T × ℕ))
    (path : List T) : Prop where
  keys : OrderedDict.keys colour = dag.nodes
  path_eq : path = (stack.map Prod.fst).reverse
  nodup : (stack.map Prod.fst).Nodup
  grey : ∀ n, OrderedDict.lookup colour n = some .GREY ↔ n ∈ stack.map Prod.fst
  climb : dag.Climb colour none stack
  closed : ∀ n, OrderedDict.lookup colour n = some .BLACK →
    ∀ c, dag.Edge n c → OrderedDict.lookup colour c = some .BLACK
  safe : ∀ n, OrderedDict.lookup colour n = some .BLACK → ¬ Relation.TransGen dag.Edge n n

/-- Colours only darken. -/
def Darkens (colour colour' : OrderedDict T Colour) : Prop :=
  ∀ n, OrderedDict.lookup colour n ≠ some .WHITE → OrderedDict.lookup colour' n ≠ some .WHITE

theorem lookup_recolour {colour : OrderedDict T Colour} {node : T} {old c : Colour}
    (hold : OrderedDict.lookup colour node = some old) (n : T) :
    OrderedDict.lookup (OrderedDict.modify colour node (fun _ => c)) n =
      if n = node then some c else OrderedDict.lookup colour n := by
  rw [OrderedDict.lookup_modify]
  split
  · rename_i hn
    rw [hn, hold]
    rfl
  · rfl

/-- A white node that turns grey leaves the black ones as they are. -/
theorem black_iff_of_white {colour : OrderedDict T Colour} {node : T}
    (hwhite : OrderedDict.lookup colour node = some .WHITE) (n : T) :
    OrderedDict.lookup (OrderedDict.modify colour node (fun _ => .GREY)) n = some .BLACK ↔
      OrderedDict.lookup colour n = some .BLACK := by
  rw [lookup_recolour hwhite]
  by_cases hn : n = node
  · rw [if_pos hn, hn, hwhite]
    simp
  · rw [if_neg hn]

/-- Black nodes may only become more. -/
theorem Climb.mono {colour colour' : OrderedDict T Colour} {stack : List (T × ℕ)} {above : Option T}
    (hblack : ∀ n, OrderedDict.lookup colour n = some .BLACK →
      OrderedDict.lookup colour' n = some .BLACK)
    (h : dag.Climb colour above stack) : dag.Climb colour' above stack := by
  induction stack generalizing above with
  | nil => trivial
  | cons entry stack ih =>
      obtain ⟨node, index⟩ := entry
      obtain ⟨habove, hasked, hrest⟩ := h
      refine ⟨habove, fun child hchild => ?_, ih hrest⟩
      rcases hasked child hchild with hc | hc
      · exact .inl (hblack child hc)
      · exact .inr hc

/-- The stack climbs along edges. -/
theorem Climb.isChain {colour : OrderedDict T Colour} {node : T} {index : ℕ}
    {stack : List (T × ℕ)} {above : Option T}
    (h : dag.Climb colour above ((node, index) :: stack)) :
    ((stack.map Prod.fst).reverse ++ [node]).IsChain dag.Edge := by
  induction stack generalizing node index above with
  | nil => exact List.isChain_singleton node
  | cons entry stack ih =>
      obtain ⟨below, index'⟩ := entry
      have hrest := h.2.2
      have hedge : dag.Edge below node := hrest.1 node rfl
      rw [List.map_cons, List.reverse_cons, List.append_assoc, List.singleton_append,
        List.isChain_append_cons_cons]
      exact ⟨ih hrest, hedge, List.isChain_singleton node⟩

/-- The children before the next index, and the one at it. -/
theorem mem_take_succ {α : Type} {l : List α} {i : ℕ} {a x : α} (ha : l[i]? = some a) :
    x ∈ l.take (i + 1) ↔ x ∈ l.take i ∨ x = a := by
  rw [List.take_add_one, ha, Option.toList_some, List.mem_append, List.mem_singleton]

/-! ## The rounds of the loop -/

section Rounds

variable {colour : OrderedDict T Colour} {node child : T} {index : ℕ} {stack : List (T × ℕ)}
  {path : List T}

/-- **A grey child closes a cycle:** the path from that child on, and the child again. -/
theorem SearchInv.isCycle (hm : dag.Mirrored)
    (h : dag.SearchInv colour ((node, index) :: stack) path)
    (hchild : (dag.childrenOf node)[index]? = some child)
    (hgrey : OrderedDict.lookup colour child = some .GREY) :
    dag.IsCycle (path.drop (path.idxOf child) ++ [child]) := by
  have hedge : dag.Edge node child := mem_edges.mpr (List.mem_of_getElem? hchild)
  have hchain : path.IsChain dag.Edge := by
    rw [h.path_eq, List.map_cons, List.reverse_cons]
    exact h.climb.isChain
  have hnodup : path.Nodup := by
    rw [h.path_eq]
    exact List.nodup_reverse.mpr h.nodup
  have hmem : child ∈ path := by
    rw [h.path_eq, List.mem_reverse]
    exact (h.grey child).mp hgrey
  have hlast : path.getLast? = some node := by
    rw [h.path_eq, List.map_cons, List.reverse_cons, List.getLast?_concat]
  -- The path splits at its only occurrence of the child.
  obtain ⟨before, after, hsplit, hbefore⟩ := List.eq_append_cons_of_mem hmem
  have hdrop : path.drop (path.idxOf child) = child :: after := by
    rw [hsplit, List.idxOf_append_of_notMem hbefore, List.idxOf_cons_self, Nat.add_zero,
      List.drop_left]
  rw [hdrop]
  rw [hsplit] at hchain hnodup hlast
  have htail := List.IsChain.right_of_append hchain
  -- The child is not the end of the path, since no node is its own parent.
  rcases List.eq_nil_or_concat after with rfl | ⟨between, last, rfl⟩
  · rw [List.getLast?_concat] at hlast
    have hself := Option.some.inj hlast
    subst hself
    exact absurd (hm.edge_iff.mp hedge) (hm.irrefl child)
  · rw [List.concat_eq_append, ← List.cons_append, ← List.append_assoc,
      List.getLast?_concat] at hlast
    have hend := Option.some.inj hlast
    subst hend
    rw [List.concat_eq_append] at htail hnodup ⊢
    refine ⟨?_, ?_, ?_, ?_⟩
    · simp only [List.length_append, List.length_cons]
      omega
    · rw [List.getLast?_concat]
      rfl
    · rw [List.dropLast_concat]
      exact (List.nodup_append.mp hnodup).2.1
    · rw [List.cons_append, List.append_assoc, List.singleton_append, ← List.cons_append,
        List.isChain_append_cons_cons]
      exact ⟨htail, hedge, List.isChain_singleton child⟩

/-- A child that is black is passed over. -/
theorem SearchInv.skip (h : dag.SearchInv colour ((node, index) :: stack) path)
    (hchild : (dag.childrenOf node)[index]? = some child)
    (hblack : OrderedDict.lookup colour child = some .BLACK) :
    dag.SearchInv colour ((node, index + 1) :: stack) path := by
  refine ⟨h.keys, h.path_eq, h.nodup, h.grey, ⟨h.climb.1, fun x hx => ?_, h.climb.2.2⟩, h.closed,
    h.safe⟩
  rcases (mem_take_succ hchild).mp hx with hx | rfl
  · exact h.climb.2.1 x hx
  · exact .inl hblack

/-- A child that is white is pushed. -/
theorem SearchInv.push (h : dag.SearchInv colour ((node, index) :: stack) path)
    (hchild : (dag.childrenOf node)[index]? = some child)
    (hwhite : OrderedDict.lookup colour child = some .WHITE) :
    dag.SearchInv (OrderedDict.modify colour child (fun _ => .GREY))
      ((child, 0) :: (node, index + 1) :: stack) (path ++ [child]) := by
  have hlook := lookup_recolour (c := .GREY) hwhite
  have hblack := black_iff_of_white hwhite
  have hfresh : child ∉ ((node, index) :: stack).map Prod.fst := by
    intro hin
    rw [← h.grey, hwhite] at hin
    cases hin
  refine ⟨(OrderedDict.keys_modify _ _ _).trans h.keys, ?_, ?_, ?_, ?_, ?_, ?_⟩
  · rw [h.path_eq]
    simp only [List.map_cons, List.reverse_cons]
  · exact List.nodup_cons.mpr ⟨hfresh, h.nodup⟩
  · intro n
    rw [hlook, List.map_cons, List.mem_cons]
    by_cases hn : n = child
    · rw [if_pos hn]
      exact iff_of_true rfl (.inl hn)
    · rw [if_neg hn, h.grey]
      exact (or_iff_right hn).symm
  · have hrest := Climb.mono (fun n => (hblack n).mpr) h.climb
    refine ⟨fun _ hnone => ?_, fun x hx => ?_, fun x hx => ?_, fun x hx => ?_, hrest.2.2⟩
    · cases hnone
    · rw [List.take_zero] at hx
      cases hx
    · obtain rfl := Option.some.inj hx
      exact mem_edges.mpr (List.mem_of_getElem? hchild)
    · rcases (mem_take_succ hchild).mp hx with hx | rfl
      · rcases hrest.2.1 x hx with hx | hx
        · exact .inl hx
        · cases hx
      · exact .inr rfl
  · intro n hn c hc
    exact (hblack c).mpr (h.closed n ((hblack n).mp hn) c hc)
  · exact fun n hn => h.safe n ((hblack n).mp hn)

/-- What is below a node whose children are all black is black. -/
theorem SearchInv.below_black {colour : OrderedDict T Colour} {stack : List (T × ℕ)} {path : List T}
    (h : dag.SearchInv colour stack path) {n x : T}
    (hn : ∀ c, dag.Edge n c → OrderedDict.lookup colour c = some .BLACK)
    (hpath : Relation.TransGen dag.Edge n x) : OrderedDict.lookup colour x = some .BLACK := by
  induction hpath with
  | single hedge => exact hn _ hedge
  | tail _ hedge ih => exact h.closed _ ih _ hedge

/-- A node whose children have all been asked for is finished. -/
theorem SearchInv.finish (h : dag.SearchInv colour ((node, index) :: stack) path)
    (hend : (dag.childrenOf node)[index]? = none) :
    dag.SearchInv (OrderedDict.modify colour node (fun _ => .BLACK)) stack path.dropLast := by
  have hgrey : OrderedDict.lookup colour node = some .GREY :=
    (h.grey node).mpr (List.mem_cons_self)
  have hlook := lookup_recolour (c := .BLACK) hgrey
  have hmono : ∀ n, OrderedDict.lookup colour n = some .BLACK →
      OrderedDict.lookup (OrderedDict.modify colour node (fun _ => .BLACK)) n = some .BLACK := by
    intro n hn
    rw [hlook]
    split
    · rfl
    · exact hn
  have hchildren : ∀ c, dag.Edge node c → OrderedDict.lookup colour c = some .BLACK := by
    intro c hc
    have hall : (dag.childrenOf node).take index = dag.childrenOf node :=
      List.take_of_length_le (List.getElem?_eq_none_iff.mp hend)
    have hasked := h.climb.2.1 c (hall.symm ▸ mem_edges.mp hc)
    exact hasked.resolve_right (fun hnone => by cases hnone)
  obtain ⟨hnotin, hnodup⟩ := List.nodup_cons.mp h.nodup
  refine ⟨(OrderedDict.keys_modify _ _ _).trans h.keys, ?_, hnodup, ?_, ?_, ?_, ?_⟩
  · rw [h.path_eq, List.map_cons, List.reverse_cons, List.dropLast_concat]
  · intro n
    rw [hlook]
    by_cases hn : n = node
    · rw [if_pos hn, hn]
      exact iff_of_false (by simp) hnotin
    · rw [if_neg hn, h.grey, List.map_cons, List.mem_cons]
      exact or_iff_right hn
  · -- The node below the finished one was waiting for it alone.
    have hrest := h.climb.2.2
    cases stack with
    | nil => trivial
    | cons entry stack =>
        refine ⟨fun _ hnone => ?_, fun x hx => ?_, Climb.mono hmono hrest.2.2⟩
        · cases hnone
        · rcases hrest.2.1 x hx with hx | hx
          · exact .inl (hmono x hx)
          · obtain rfl := Option.some.inj hx
            exact .inl (by rw [hlook, if_pos rfl])
  · intro n hn c hc
    rw [hlook] at hn
    split at hn
    · rename_i he
      exact hmono c (hchildren c (he ▸ hc))
    · exact hmono c (h.closed n hn c hc)
  · intro n hn hloop
    rw [hlook] at hn
    split at hn
    -- A cycle through the finished node would make it black before.
    · rename_i he
      subst he
      rw [h.below_black hchildren hloop] at hgrey
      cases hgrey
    · exact h.safe n hn hloop

end Rounds

/-! ## How many rounds it takes -/

/-- The nodes that the search has not met yet. -/
def white (dag : Dag T) (colour : OrderedDict T Colour) : Finset T :=
  dag.nodes.toFinset.filter (fun n => OrderedDict.lookup colour n = some .WHITE)

/-- The rounds that are left: of every node on the stack the children not asked for yet, and
finishing it; of every white node all of its children, and finishing it. -/
def remaining (dag : Dag T) (colour : OrderedDict T Colour) (stack : List (T × ℕ)) : ℕ :=
  (stack.map (fun entry => (dag.childrenOf entry.1).length - entry.2 + 1)).sum +
    ∑ n ∈ dag.white colour, ((dag.childrenOf n).length + 1)

theorem edges_length :
    dag.edges.length = (dag.nodes.map (fun n => (dag.childrenOf n).length)).sum := by
  unfold edges nodes OrderedDict.keys
  rw [List.length_flatMap, List.map_map]
  congr 1
  refine List.map_congr_left (fun item hitem => ?_)
  rw [List.length_map]
  show item.2.length = (dag.childrenOf item.1).length
  unfold childrenOf
  rw [OrderedDict.lookup_eq_some.mpr hitem]
  rfl

/-- All nodes and all edges. -/
theorem sum_nodes : ∑ n ∈ dag.nodes.toFinset, ((dag.childrenOf n).length + 1) =
    dag.nodes.length + dag.edges.length := by
  rw [List.sum_toFinset _ dag.nodes_nodup, List.sum_map_add, edges_length, List.map_const',
    List.sum_replicate, Nat.add_comm, Nat.nsmul_eq_mul, Nat.mul_one]

section Remaining

variable {colour : OrderedDict T Colour} {node child : T} {index : ℕ} {stack : List (T × ℕ)}

/-- Taking a white node off the white ones. -/
theorem sum_white_modify (hnode : node ∈ dag.nodes)
    (hwhite : OrderedDict.lookup colour node = some .WHITE) {c : Colour} (hc : c ≠ .WHITE) :
    (dag.childrenOf node).length + 1 +
        ∑ n ∈ dag.white (OrderedDict.modify colour node (fun _ => c)),
          ((dag.childrenOf n).length + 1) =
      ∑ n ∈ dag.white colour, ((dag.childrenOf n).length + 1) := by
  have herase : dag.white (OrderedDict.modify colour node (fun _ => c)) =
      (dag.white colour).erase node := by
    ext n
    unfold white
    rw [Finset.mem_filter, Finset.mem_erase, Finset.mem_filter, OrderedDict.lookup_modify]
    by_cases hn : n = node
    · rw [if_pos hn, hn, hwhite]
      simp [hc]
    · rw [if_neg hn]
      simp [hn]
  have hmem : node ∈ dag.white colour :=
    Finset.mem_filter.mpr ⟨List.mem_toFinset.mpr hnode, hwhite⟩
  rw [herase]
  exact Finset.add_sum_erase _ (fun n => (dag.childrenOf n).length + 1) hmem

/-- A black node was not white. -/
theorem sum_white_finish (hgrey : OrderedDict.lookup colour node = some .GREY) :
    ∑ n ∈ dag.white (OrderedDict.modify colour node (fun _ => .BLACK)),
        ((dag.childrenOf n).length + 1) =
      ∑ n ∈ dag.white colour, ((dag.childrenOf n).length + 1) := by
  have hsame : dag.white (OrderedDict.modify colour node (fun _ => .BLACK)) = dag.white colour := by
    unfold white
    refine Finset.filter_congr (fun n _ => ?_)
    rw [OrderedDict.lookup_modify]
    by_cases hn : n = node
    · rw [if_pos hn, hn, hgrey]
      simp
    · rw [if_neg hn]
  rw [hsame]

end Remaining

/-! ## One start node -/

section Loop

variable {colour : OrderedDict T Colour} {node child : T} {index : ℕ} {stack : List (T × ℕ)}
  {path : List T} {rounds : ℕ}

theorem findLoop_finish (hend : (dag.childrenOf node)[index]? = none) :
    dag.findLoop (rounds + 1) colour ((node, index) :: stack) path =
      dag.findLoop rounds (OrderedDict.modify colour node (fun _ => .BLACK)) stack
        path.dropLast := by
  simp only [findLoop, hend]

theorem findLoop_grey (hchild : (dag.childrenOf node)[index]? = some child)
    (hgrey : OrderedDict.lookup colour child = some .GREY) :
    dag.findLoop (rounds + 1) colour ((node, index) :: stack) path =
      some (.inr (path.drop (path.idxOf child) ++ [child])) := by
  simp only [findLoop, hchild, hgrey]

theorem findLoop_white (hchild : (dag.childrenOf node)[index]? = some child)
    (hwhite : OrderedDict.lookup colour child = some .WHITE) :
    dag.findLoop (rounds + 1) colour ((node, index) :: stack) path =
      dag.findLoop rounds (OrderedDict.modify colour child (fun _ => .GREY))
        ((child, 0) :: (node, index + 1) :: stack) (path ++ [child]) := by
  simp only [findLoop, hchild, hwhite]

theorem findLoop_black (hchild : (dag.childrenOf node)[index]? = some child)
    (hblack : OrderedDict.lookup colour child = some .BLACK) :
    dag.findLoop (rounds + 1) colour ((node, index) :: stack) path =
      dag.findLoop rounds colour ((node, index + 1) :: stack) path := by
  simp only [findLoop, hchild, hblack]

theorem darkens_modify (colour : OrderedDict T Colour) (node : T) {c : Colour}
    (hc : c ≠ .WHITE) :
    Darkens colour (OrderedDict.modify colour node (fun _ => c)) := by
  intro n hn
  rw [OrderedDict.lookup_modify]
  split
  · cases OrderedDict.lookup colour n with
    | none => simp
    | some _ => simp [hc]
  · exact hn

/-- With the stack empty the path is empty too, and the loop ends. -/
theorem SearchInv.ended (h : dag.SearchInv colour [] path) :
    dag.findLoop rounds colour [] path = some (.inl colour) ∧ dag.SearchInv colour [] [] := by
  refine ⟨?_, ?_⟩
  · cases rounds with
    | zero => rfl
    | succ rounds => rfl
  · rw [h.path_eq] at h
    exact h

/-- **What a start node ends with:** a cycle, or a search that has finished all it met. -/
theorem findLoop_spec (hm : dag.Mirrored) (h : dag.SearchInv colour stack path)
    (hrounds : dag.remaining colour stack ≤ rounds) :
    (∃ colour', dag.findLoop rounds colour stack path = some (.inl colour') ∧
      dag.SearchInv colour' [] [] ∧ Darkens colour colour') ∨
    ∃ cycle, dag.findLoop rounds colour stack path = some (.inr cycle) ∧ dag.IsCycle cycle := by
  induction rounds generalizing colour stack path with
  | zero =>
      cases stack with
      | nil =>
          obtain ⟨hrun, hend⟩ := h.ended
          exact .inl ⟨colour, hrun, hend, fun n hn => hn⟩
      -- A node on the stack has at least its own round left.
      | cons entry stack =>
          unfold remaining at hrounds
          rw [List.map_cons, List.sum_cons] at hrounds
          omega
  | succ rounds ih =>
      cases stack with
      | nil =>
          obtain ⟨hrun, hend⟩ := h.ended
          exact .inl ⟨colour, hrun, hend, fun n hn => hn⟩
      | cons entry stack =>
          obtain ⟨node, index⟩ := entry
          unfold remaining at hrounds
          rw [List.map_cons, List.sum_cons] at hrounds
          dsimp only at hrounds
          cases hchild : (dag.childrenOf node)[index]? with
          | none =>
              have hgrey : OrderedDict.lookup colour node = some .GREY :=
                (h.grey node).mpr List.mem_cons_self
              have hfewer : dag.remaining (OrderedDict.modify colour node (fun _ => .BLACK)) stack
                  ≤ rounds := by
                unfold remaining
                rw [sum_white_finish hgrey]
                omega
              rw [findLoop_finish hchild]
              rcases ih (h.finish hchild) hfewer with ⟨colour', hrun, hend, hdark⟩ | hcycle
              · have hfirst := darkens_modify colour node (c := .BLACK) (by decide)
                exact .inl ⟨colour', hrun, hend, fun n hn => hdark n (hfirst n hn)⟩
              · exact .inr hcycle
          | some child =>
              have hindex : index < (dag.childrenOf node).length :=
                (List.getElem?_eq_some_iff.mp hchild).1
              have hedge : dag.Edge node child := mem_edges.mpr (List.mem_of_getElem? hchild)
              have hdeclared : child ∈ dag.nodes :=
                (hm.declared node child (hm.edge_iff.mp hedge)).2
              -- A declared node has one of the three colours.
              cases hcolour : OrderedDict.lookup colour child with
              | none =>
                  rw [OrderedDict.lookup_eq_none, h.keys] at hcolour
                  exact absurd hdeclared hcolour
              | some c =>
                  cases c with
                  | GREY =>
                      rw [findLoop_grey hchild hcolour]
                      exact .inr ⟨_, rfl, h.isCycle hm hchild hcolour⟩
                  | BLACK =>
                      have hfewer : dag.remaining colour ((node, index + 1) :: stack) ≤ rounds := by
                        unfold remaining
                        rw [List.map_cons, List.sum_cons]
                        dsimp only
                        omega
                      rw [findLoop_black hchild hcolour]
                      exact ih (h.skip hchild hcolour) hfewer
                  | WHITE =>
                      have hfewer : dag.remaining (OrderedDict.modify colour child (fun _ => .GREY))
                          ((child, 0) :: (node, index + 1) :: stack) ≤ rounds := by
                        have hsum := sum_white_modify hdeclared hcolour (c := .GREY) (by decide)
                        unfold remaining
                        rw [List.map_cons, List.map_cons, List.sum_cons, List.sum_cons]
                        dsimp only
                        omega
                      rw [findLoop_white hchild hcolour]
                      rcases ih (h.push hchild hcolour) hfewer with
                        ⟨colour', hrun, hend, hdark⟩ | hcycle
                      · have hfirst := darkens_modify colour child (c := .GREY) (by decide)
                        exact .inl ⟨colour', hrun, hend, fun n hn => hdark n (hfirst n hn)⟩
                      · exact .inr hcycle

end Loop

/-! ## All start nodes -/

/-- The `for start in self._children` loop up to where it ends: the colours after the last
start node, or the cycle that is returned from inside it. -/
def searchFrom (dag : Dag T) :
    List T → OrderedDict T Colour → Except (DagError T) (OrderedDict T Colour ⊕ List T)
  | [], colour => .ok (.inl colour)
  | start :: rest, colour =>
      if OrderedDict.lookup colour start ≠ some .WHITE then searchFrom dag rest colour
      else
        match findLoop dag (dag.nodes.length + dag.edges.length)
          (OrderedDict.modify colour start (fun _ => .GREY)) [(start, 0)] [start] with
        | none => .error .Unfinished
        | some (.inr cycle) => .ok (.inr cycle)
        | some (.inl colour) => searchFrom dag rest colour

omit [DecidableEq T] in
theorem nodup_allWhite (dag : Dag T) :
    ((dag._children.rows.map (fun item => (item.1, Colour.WHITE))).map Prod.fst).Nodup := by
  rw [List.map_map]
  exact dag._children.nodup

/-- `dict.fromkeys(self._children, _WHITE)`. -/
def allWhite (dag : Dag T) : OrderedDict T Colour :=
  ⟨dag._children.rows.map (fun item => (item.1, Colour.WHITE)), nodup_allWhite dag⟩

/-- The message of the assertion behind the loop. -/
def searchAssertion : DagError T := .AssertionError "_find_cycle called on an acyclic graph"

/-- The loop is followed by the assertion error. -/
theorem findFrom_eq (starts : List T) (colour : OrderedDict T Colour) :
    dag.findFrom starts colour =
      match dag.searchFrom starts colour with
      | .error err => .error err
      | .ok (.inr cycle) => .ok cycle
      | .ok (.inl _) => .error searchAssertion := by
  induction starts generalizing colour with
  | nil => rfl
  | cons start rest ih =>
      unfold findFrom searchFrom
      by_cases hmet : OrderedDict.lookup colour start ≠ some .WHITE
      · rw [if_pos hmet, if_pos hmet]
        exact ih colour
      · rw [if_neg hmet, if_neg hmet]
        cases dag.findLoop (dag.nodes.length + dag.edges.length)
          (OrderedDict.modify colour start (fun _ => .GREY)) [(start, 0)] [start] with
        | none => rfl
        | some result =>
            cases result with
            | inl colour' => exact ih colour'
            | inr cycle => rfl

theorem lookup_allWhite {n : T} (hn : n ∈ dag.nodes) :
    OrderedDict.lookup dag.allWhite n = some .WHITE := by
  obtain ⟨item, hitem, rfl⟩ := List.mem_map.mp hn
  exact OrderedDict.lookup_eq_some.mpr (List.mem_map.mpr ⟨item, hitem, rfl⟩)

omit [DecidableEq T] in
theorem keys_allWhite : OrderedDict.keys dag.allWhite = dag.nodes := by
  unfold allWhite OrderedDict.keys
  rw [List.map_map]
  rfl

/-- Before the first start node. -/
theorem SearchInv.start : dag.SearchInv dag.allWhite [] [] := by
  have hwhite : ∀ n c, OrderedDict.lookup dag.allWhite n = some c → c = .WHITE := by
    intro n c hc
    have hn : n ∈ dag.nodes := by
      rw [← keys_allWhite]
      exact OrderedDict.lookup_isSome.mp (by rw [hc]; rfl)
    rw [lookup_allWhite hn] at hc
    exact (Option.some.inj hc).symm
  refine ⟨keys_allWhite, rfl, List.nodup_nil, fun n => ?_, trivial, fun n hn => ?_, fun n hn => ?_⟩
  · refine iff_of_false (fun hgrey => ?_) List.not_mem_nil
    cases hwhite n _ hgrey
  · cases hwhite n _ hn
  · cases hwhite n _ hn

/-- A white node is coloured grey and put on the empty stack. -/
theorem SearchInv.enter {colour : OrderedDict T Colour} {start : T} (h : dag.SearchInv colour [] [])
    (hwhite : OrderedDict.lookup colour start = some .WHITE) :
    dag.SearchInv (OrderedDict.modify colour start (fun _ => .GREY)) [(start, 0)] [start] := by
  have hblack := black_iff_of_white hwhite
  refine ⟨(OrderedDict.keys_modify _ _ _).trans h.keys, rfl, List.nodup_singleton _, fun n => ?_,
    ⟨fun _ hnone => ?_, fun x hx => ?_, trivial⟩, fun n hn c hc => ?_, fun n hn => ?_⟩
  · rw [lookup_recolour hwhite, List.map_cons, List.map_nil, List.mem_singleton]
    by_cases hn : n = start
    · rw [if_pos hn]
      exact iff_of_true rfl hn
    · rw [if_neg hn, h.grey]
      exact iff_of_false List.not_mem_nil hn
  · cases hnone
  · rw [List.take_zero] at hx
    cases hx
  · exact (hblack c).mpr (h.closed n ((hblack n).mp hn) c hc)
  · exact h.safe n ((hblack n).mp hn)

/-- **What the loop over the start nodes ends with:** a cycle, or the colours of a search
that has met every start node and finished all it met. -/
theorem searchFrom_spec (hm : dag.Mirrored) {starts : List T} {colour : OrderedDict T Colour}
    (hstarts : ∀ start ∈ starts, start ∈ dag.nodes) (h : dag.SearchInv colour [] []) :
    (∃ colour', dag.searchFrom starts colour = .ok (.inl colour') ∧
      dag.SearchInv colour' [] [] ∧ Darkens colour colour' ∧
      ∀ start ∈ starts, OrderedDict.lookup colour' start ≠ some .WHITE) ∨
    ∃ cycle, dag.searchFrom starts colour = .ok (.inr cycle) ∧ dag.IsCycle cycle := by
  induction starts generalizing colour with
  | nil => exact .inl ⟨colour, rfl, h, fun n hn => hn, fun n hn => absurd hn List.not_mem_nil⟩
  | cons start rest ih =>
      obtain ⟨hstart, hrest⟩ := List.forall_mem_cons.mp hstarts
      unfold searchFrom
      by_cases hmet : OrderedDict.lookup colour start ≠ some .WHITE
      · rw [if_pos hmet]
        rcases ih hrest h with ⟨colour', hrun, hend, hdark, hall⟩ | hcycle
        · exact .inl ⟨colour', hrun, hend, hdark,
            List.forall_mem_cons.mpr ⟨hdark start hmet, hall⟩⟩
        · exact .inr hcycle
      · have hwhite : OrderedDict.lookup colour start = some .WHITE := not_not.mp hmet
        rw [if_neg hmet]
        -- The bound of the loop: all nodes and all edges, of which these are a part.
        have hrounds : dag.remaining (OrderedDict.modify colour start (fun _ => .GREY))
            [(start, 0)] ≤ dag.nodes.length + dag.edges.length := by
          have hsum := sum_white_modify hstart hwhite (c := .GREY) (by decide)
          have hpart : ∑ n ∈ dag.white colour, ((dag.childrenOf n).length + 1) ≤
              ∑ n ∈ dag.nodes.toFinset, ((dag.childrenOf n).length + 1) :=
            Finset.sum_le_sum_of_subset (Finset.filter_subset _ _)
          rw [sum_nodes] at hpart
          unfold remaining
          rw [List.map_cons, List.map_nil, List.sum_cons, List.sum_nil]
          dsimp only
          omega
        have hgrey := darkens_modify colour start (c := .GREY) (by decide)
        rcases findLoop_spec hm (h.enter hwhite) hrounds with
          ⟨colour1, hloop, hend1, hdark1⟩ | ⟨cycle, hloop, hcycle⟩
        · have hmet1 : OrderedDict.lookup colour1 start ≠ some .WHITE := by
            refine hdark1 start ?_
            rw [lookup_recolour hwhite, if_pos rfl]
            decide
          simp only [hloop]
          rcases ih hrest hend1 with ⟨colour', hrun, hend, hdark, hall⟩ | hcycle
          · exact .inl ⟨colour', hrun, hend, fun n hn => hdark n (hdark1 n (hgrey n hn)),
              List.forall_mem_cons.mpr ⟨hdark start hmet1, hall⟩⟩
          · exact .inr hcycle
        · simp only [hloop]
          exact .inr ⟨cycle, rfl, hcycle⟩

/-- A search that has finished every node has seen a graph without a cycle. -/
theorem SearchInv.acyclic (hm : dag.Mirrored) {colour : OrderedDict T Colour}
    (hblack : ∀ n ∈ dag.nodes, OrderedDict.lookup colour n = some .BLACK)
    (h : dag.SearchInv colour [] []) : dag.Acyclic := by
  intro n hloop
  obtain ⟨c, hedge, -⟩ := Relation.TransGen.head'_iff.mp hloop
  exact h.safe n (hblack n (hm.declared n c (hm.edge_iff.mp hedge)).1) hloop

/-- **The search finds a cycle or finishes every node.** -/
theorem searchFrom_cases (hm : dag.Mirrored) :
    (∃ colour, dag.searchFrom dag.nodes dag.allWhite = .ok (.inl colour) ∧
      (∀ n ∈ dag.nodes, OrderedDict.lookup colour n = some .BLACK) ∧ dag.Acyclic) ∨
    ∃ cycle, dag.searchFrom dag.nodes dag.allWhite = .ok (.inr cycle) ∧ dag.IsCycle cycle := by
  have hstart : dag.SearchInv dag.allWhite [] [] := .start
  rcases searchFrom_spec hm (fun n hn => hn) hstart with
    ⟨colour, hrun, hend, -, hall⟩ | hcycle
  · have hblack : ∀ n ∈ dag.nodes, OrderedDict.lookup colour n = some .BLACK := by
      intro n hn
      -- Not white, since it was a start node, and not grey, since the stack is empty.
      cases hlook : OrderedDict.lookup colour n with
      | none =>
          rw [OrderedDict.lookup_eq_none, hend.keys] at hlook
          exact absurd hn hlook
      | some c =>
          cases c with
          | WHITE => exact absurd hlook (hall n hn)
          | GREY => exact absurd ((hend.grey n).mp hlook) List.not_mem_nil
          | BLACK => rfl
    exact .inl ⟨colour, hrun, hblack, hend.acyclic hm hblack⟩
  · exact .inr hcycle

theorem find_cycle_of_not_acyclic (hm : dag.Mirrored) (hcyclic : ¬ dag.Acyclic) :
    ∃ cycle, dag.find_cycle = .ok cycle ∧ dag.IsCycle cycle := by
  rcases searchFrom_cases hm with ⟨colour, -, -, hacyclic⟩ | ⟨cycle, hrun, hcycle⟩
  · exact absurd hacyclic hcyclic
  · refine ⟨cycle, ?_, hcycle⟩
    show dag.findFrom dag.nodes dag.allWhite = .ok cycle
    rw [findFrom_eq, hrun]

/-- **Reported cycles are real.** Whenever `topological_order` returns no order, the search
returns a list of at least three nodes that ends where it begins, repeats no other node and
follows an edge at every step. On a graph without a cycle it finishes every node and
reaches the assertion error. -/
theorem reported_cycle (hdag : dag.Constructed) :
    ((¬ ∃ order, dag.topological_order = .ok order) →
      ∃ cycle, dag.find_cycle = .ok cycle ∧ dag.IsCycle cycle) ∧
    (dag.Acyclic →
      (∃ colour, dag.searchFrom dag.nodes dag.allWhite = .ok (.inl colour) ∧
        ∀ n ∈ dag.nodes, OrderedDict.lookup colour n = some .BLACK) ∧
      dag.find_cycle = .error (.AssertionError "_find_cycle called on an acyclic graph")) := by
  have hm := hdag.mirrored
  refine ⟨fun hnone => ?_, fun hacyclic => ?_⟩
  · apply find_cycle_of_not_acyclic hm
    rwa [topological_order_isOk hm, ← hm.acyclic_iff] at hnone
  · rcases searchFrom_cases hm with ⟨colour, hrun, hblack, -⟩ | ⟨cycle, -, hcycle⟩
    · refine ⟨⟨colour, hrun, hblack⟩, ?_⟩
      show dag.findFrom dag.nodes dag.allWhite = .error searchAssertion
      rw [findFrom_eq, hrun]
    · exact absurd hacyclic hcycle.not_acyclic

/-- Three tasks that wait for each other. -/
def ring : Dag String :=
  Dag.empty.built [.add_node "extract", .add_node "clean", .add_node "load",
    .add_edge "extract" "clean", .add_edge "clean" "load", .add_edge "load" "extract"]

theorem ring_constructed : ring.Constructed := ⟨Table.empty, _, _, .inl rfl, rfl⟩

theorem reported_cycle_ring :
    (∃ cycle, ring.find_cycle = .ok cycle ∧ ring.IsCycle cycle) ∧
      ring.find_cycle = .ok ["extract", "clean", "load", "extract"] := by
  refine ⟨(reported_cycle ring_constructed).1 ?_, rfl⟩
  rintro ⟨order, hok⟩
  have hrun : ring.topological_order =
      .error (.CycleError ["extract", "clean", "load", "extract"]) := rfl
  rw [hrun] at hok
  cases hok

/-! ## The sort -/

/-- A graph with a cycle is refused with one that it has. -/
theorem topological_order_of_not_acyclic (hm : dag.Mirrored) (hcyclic : ¬ dag.Acyclic) :
    ∃ cycle, dag.topological_order = .error (.CycleError cycle) ∧ dag.IsCycle cycle := by
  obtain ⟨cycle, hfind, hcycle⟩ := find_cycle_of_not_acyclic hm hcyclic
  obtain ⟨order, in_degree, hloop, -⟩ := topoLoop_spec hm dag.nodes.length _ []
    dag.in_degrees (KahnInv.start hm) (by simp)
  have hshort : order.length ≠ dag.nodes.length := by
    intro hlength
    refine hcyclic (hm.acyclic_iff.mpr ((topological_order_isOk hm).mp ⟨order, ?_⟩))
    unfold topological_order
    dsimp only
    rw [hloop]
    exact if_neg (not_not.mpr hlength)
  refine ⟨cycle, ?_, hcycle⟩
  unfold topological_order
  dsimp only
  rw [hloop]
  dsimp only
  rw [if_pos hshort, hfind]
  rfl

/-- **The sort is sound and complete.** It returns an order exactly when no node is its own
ancestor, and the order lists every node once and every parent before its child; otherwise
it raises `CycleError`, with a cycle of the graph. So `is_acyclic` decides whether there is
one. -/
theorem sort_sound_complete (hdag : dag.Constructed) :
    ((∃ order, dag.topological_order = .ok order) ↔ dag.Acyclic) ∧
    (∀ order, dag.topological_order = .ok order →
      order.Perm dag.nodes ∧ order.Nodup ∧
      ∀ parent child, dag.Edge parent child → order.idxOf parent < order.idxOf child) ∧
    (¬ dag.Acyclic →
      ∃ cycle, dag.topological_order = .error (.CycleError cycle) ∧ dag.IsCycle cycle) ∧
    (dag.is_acyclic = .ok true ↔ dag.Acyclic) ∧
    (dag.is_acyclic = .ok false ↔ ¬ dag.Acyclic) := by
  have hm := hdag.mirrored
  have hiff : (∃ order, dag.topological_order = .ok order) ↔ dag.Acyclic :=
    (topological_order_isOk hm).trans hm.acyclic_iff.symm
  -- `is_acyclic` reads off which of the two happened.
  have hdecides : dag.is_acyclic = .ok true ∧ dag.Acyclic ∨
      dag.is_acyclic = .ok false ∧ ¬ dag.Acyclic := by
    unfold is_acyclic
    by_cases hacyclic : dag.Acyclic
    · obtain ⟨order, hok⟩ := hiff.mpr hacyclic
      rw [hok]
      exact .inl ⟨rfl, hacyclic⟩
    · obtain ⟨cycle, herror, -⟩ := topological_order_of_not_acyclic hm hacyclic
      rw [herror]
      exact .inr ⟨rfl, hacyclic⟩
  refine ⟨hiff, fun order hok => ?_, topological_order_of_not_acyclic hm, ?_, ?_⟩
  · obtain ⟨hsorted, hnodup, hperm⟩ := topological_order_ok hm hok
    refine ⟨hperm, hnodup, fun parent child hedge => ?_⟩
    have hparent := hm.edge_iff.mp hedge
    apply hsorted.idxOf_lt _ hparent
    exact hperm.mem_iff.mpr (hm.declared parent child hparent).2
  · rcases hdecides with ⟨hrun, hacyclic⟩ | ⟨hrun, hcyclic⟩
    · exact iff_of_true hrun hacyclic
    · refine iff_of_false (fun htrue => ?_) hcyclic
      rw [hrun] at htrue
      cases htrue
  · rcases hdecides with ⟨hrun, hacyclic⟩ | ⟨hrun, hcyclic⟩
    · refine iff_of_false (fun hfalse => ?_) (not_not.mpr hacyclic)
      rw [hrun] at hfalse
      cases hfalse
    · exact iff_of_true hrun hcyclic

theorem sort_sound_complete_ring :
    ¬ ring.Acyclic ∧ ∃ cycle, ring.topological_order = .error (.CycleError cycle) ∧
      ring.IsCycle cycle := by
  have hcyclic : ¬ ring.Acyclic := (sort_sound_complete ring_constructed).2.2.2.2.mp rfl
  exact ⟨hcyclic, (sort_sound_complete ring_constructed).2.2.1 hcyclic⟩

end Dag

end Conductor
