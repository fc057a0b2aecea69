/-
`core/dag.py`: the append-only graph behind a workflow, its topological sort and
cycle search, and the cursor that tracks one run through it.

The two adjacency dictionaries are ordered dictionaries, as in the source, and
the source's loops are recursions on a bound for their number of rounds:

* `topological_order` takes one node off its queue per round, and a node enters
  the queue when its counter passes zero, so `len(nodes)` rounds are enough;
* `_find_cycle` advances one child index or finishes one node per round, so
  `len(nodes) + len(edges)` rounds are enough for each start node;
* `blocked` takes one node off its queue per round, and only failed nodes and
  newly poisoned ones enter it.

A loop that ran out of rounds would be the error `Unfinished`.
-/
import Mathlib.Data.List.Basic
import Mathlib.Data.Int.Notation
import Conductor.Lib.Tables

set_option autoImplicit false

open Relational

namespace Conductor

/-- What the graph code raises. A `ValueError` names its node; `Unfinished` is
the model's own. -/
inductive DagError (T : Type) where
  | CycleError (cycle : List T)
  | UnknownNodeError (node : T)
  | ValueError (node : T) (msg : String)
  | AssertionError (msg : String)
  | Unfinished

/-- An append-only directed graph stored as two mirrored adjacency lists. -/
structure Dag (T : Type) where
  _children : OrderedDict T (List T)
  _parents : OrderedDict T (List T)

/-- The colours of the cycle search: unvisited, on the current path, explored. -/
inductive Colour where
  | WHITE
  | GREY
  | BLACK
deriving DecidableEq

namespace Dag

variable {T : Type}

/-- `Dag()`. -/
def empty : Dag T := ⟨Table.empty, Table.empty⟩

def nodes (dag : Dag T) : List T := OrderedDict.keys dag._children

def edges (dag : Dag T) : List (T × T) :=
  dag._children.rows.flatMap (fun item => item.2.map (fun child => (item.1, child)))

/-- Unmet-dependency counts, the state the scheduler decrements. -/
def in_degrees (dag : Dag T) : OrderedDict T ℤ where
  rows := dag._parents.rows.map (fun item => (item.1, (item.2.length : ℤ)))
  nodup := by
    rw [List.map_map]
    exact dag._parents.nodup

/-- Nodes with no dependencies. -/
def roots (dag : Dag T) : List T :=
  (dag._parents.rows.filter (fun item => item.2.isEmpty)).map Prod.fst

variable [DecidableEq T]

/-! ## Construction -/

/-- Register a node. Idempotent. -/
def add_node (dag : Dag T) (node : T) : Dag T :=
  ⟨OrderedDict.setdefault dag._children node [], OrderedDict.setdefault dag._parents node []⟩

/-- Declare that `child` may not start until `parent` succeeds. -/
def add_edge (dag : Dag T) (parent child : T) : Except (DagError T) (Dag T) :=
  match OrderedDict.lookup dag._children parent with
  | none => .error (.UnknownNodeError parent)
  | some children =>
      if (OrderedDict.lookup dag._children child).isNone then .error (.UnknownNodeError child)
      else if parent = child then .error (.CycleError [parent, parent])
      else if child ∈ children then .ok dag
      else .ok ⟨OrderedDict.modify dag._children parent (· ++ [child]),
        OrderedDict.modify dag._parents child (· ++ [parent])⟩

/-- Build a graph from a `{node: [nodes it depends on]}` mapping. -/
def from_dependencies (dependencies : OrderedDict T (List T)) : Except (DagError T) (Dag T) :=
  let dag := (OrderedDict.keys dependencies).foldl add_node empty
  dependencies.rows.foldlM
    (fun dag item => item.2.foldlM (fun dag parent => dag.add_edge parent item.1) dag) dag

/-! ## Inspection -/

/-- Tasks unblocked (in part) by `node` finishing. -/
def children (dag : Dag T) (node : T) : Except (DagError T) (List T) :=
  match OrderedDict.lookup dag._children node with
  | none => .error (.UnknownNodeError node)
  | some children => .ok children

/-- `self._children[node]`, on a declared node. -/
def childrenOf (dag : Dag T) (node : T) : List T :=
  (OrderedDict.lookup dag._children node).getD []

/-- `node in dag`. -/
def contains (dag : Dag T) (node : T) : Bool := (OrderedDict.lookup dag._children node).isSome

/-! ## Algorithms -/

/-- The loop over the children of a finished node, shared by Kahn's algorithm and
the cursor: decrement each child's counter, and collect those that reach zero. -/
def release : List T → OrderedDict T ℤ → OrderedDict T ℤ × List T
  | [], counts => (counts, [])
  | child :: rest, counts =>
      let lowered := OrderedDict.modify counts child (· - 1)
      let (counts, released) := release rest lowered
      (counts, if OrderedDict.lookup lowered child = some 0 then child :: released else released)

/-- The `while queue` loop of `topological_order`. -/
def topoLoop (dag : Dag T) : ℕ → List T → List T → OrderedDict T ℤ → Option (List T)
  | _, [], order, _ => some order
  | 0, _ :: _, _, _ => none
  | rounds + 1, node :: queue, order, in_degree =>
      let (in_degree, released) := release (dag.childrenOf node) in_degree
      topoLoop dag rounds (queue ++ released) (order ++ [node]) in_degree

/-- One start node of the cycle search: the colours it leaves, or the cycle it
found. The stack has its top first, the path its end last. -/
def findLoop (dag : Dag T) : ℕ → OrderedDict T Colour → List (T × ℕ) → List T →
    Option (OrderedDict T Colour ⊕ List T)
  | _, colour, [], _ => some (.inl colour)
  | 0, _, _ :: _, _ => none
  | rounds + 1, colour, (node, index) :: stack, path =>
      match (dag.childrenOf node)[index]? with
      | some child =>
          match OrderedDict.lookup colour child with
          | some .GREY => some (.inr (path.drop (path.idxOf child) ++ [child]))
          | some .WHITE =>
              findLoop dag rounds (OrderedDict.modify colour child (fun _ => .GREY))
                ((child, 0) :: (node, index + 1) :: stack) (path ++ [child])
          | _ => findLoop dag rounds colour ((node, index + 1) :: stack) path
      | none =>
          findLoop dag rounds (OrderedDict.modify colour node (fun _ => .BLACK)) stack path.dropLast

/-- The `for start in self._children` loop of the cycle search. -/
def findFrom (dag : Dag T) : List T → OrderedDict T Colour → Except (DagError T) (List T)
  | [], _ => .error (.AssertionError "_find_cycle called on an acyclic graph")
  | start :: rest, colour =>
      if OrderedDict.lookup colour start ≠ some .WHITE then findFrom dag rest colour
      else
        match findLoop dag (dag.nodes.length + dag.edges.length)
          (OrderedDict.modify colour start (fun _ => .GREY)) [(start, 0)] [start] with
        | none => .error .Unfinished
        | some (.inr cycle) => .ok cycle
        | some (.inl colour) => findFrom dag rest colour

/-- `_find_cycle`: locate one concrete cycle with an iterative colouring DFS. -/
def find_cycle (dag : Dag T) : Except (DagError T) (List T) :=
  dag.findFrom dag.nodes
    ⟨dag._children.rows.map (fun item => (item.1, Colour.WHITE)), by
      rw [List.map_map]; exact dag._children.nodup⟩

/-- Return nodes in dependency order via Kahn's algorithm. -/
def topological_order (dag : Dag T) : Except (DagError T) (List T) :=
  let in_degree := dag.in_degrees
  let queue := dag.nodes.filter (fun node => OrderedDict.lookup in_degree node = some 0)
  match dag.topoLoop dag.nodes.length queue [] in_degree with
  | none => .error .Unfinished
  | some order =>
      if order.length ≠ dag.nodes.length then do
        let cycle ← dag.find_cycle
        .error (.CycleError cycle)
      else .ok order

def is_acyclic (dag : Dag T) : Except (DagError T) Bool :=
  match dag.topological_order with
  | .ok _ => .ok true
  | .error (.CycleError _) => .ok false
  | .error e => .error e

end Dag

/-! ## The cursor -/

/-- Tracks a single run's progress through a `Dag`. The two sets are lists in
which an element occurs once. -/
structure DagCursor (T : Type) where
  _dag : Dag T
  _pending : OrderedDict T ℤ
  _succeeded : List T
  _failed : List T

namespace DagCursor

variable {T : Type} [DecidableEq T]

/-- `DagCursor(dag)`. -/
def new (dag : Dag T) : Except (DagError T) (DagCursor T) := do
  if ← dag.is_acyclic then
    return ⟨dag, dag.in_degrees, [], []⟩
  else
    let cycle ← dag.find_cycle
    .error (.CycleError cycle)

/-- Tasks whose dependencies are all satisfied and which have not run. -/
def ready (cursor : DagCursor T) : List T :=
  (cursor._pending.rows.filter (fun item =>
    item.2 = 0 && item.1 ∉ cursor._succeeded && item.1 ∉ cursor._failed)).map Prod.fst

/-- Record a success and return the tasks it newly unblocked. -/
def mark_succeeded (cursor : DagCursor T) (node : T) :
    Except (DagError T) (DagCursor T × List T) :=
  if !cursor._dag.contains node then .error (.UnknownNodeError node)
  else if node ∈ cursor._succeeded then .ok (cursor, [])
  else if OrderedDict.lookup cursor._pending node ≠ some 0 then
    .error (.ValueError node " succeeded while still blocked -- scheduler bug")
  else do
    let children ← cursor._dag.children node
    let (pending, unblocked) := Dag.release children cursor._pending
    return ({ cursor with
      _pending := pending
      _succeeded := cursor._succeeded ++ [node]
      _failed := cursor._failed.filter (· ≠ node) }, unblocked)

/-- Record a terminal failure. -/
def mark_failed (cursor : DagCursor T) (node : T) : Except (DagError T) (DagCursor T) :=
  if !cursor._dag.contains node then .error (.UnknownNodeError node)
  else .ok { cursor with
    _failed := if node ∈ cursor._failed then cursor._failed else cursor._failed ++ [node] }

/-- The children that are not poisoned yet, each once. -/
def freshlyPoisoned : List T → List T → List T
  | [], _ => []
  | child :: rest, poisoned =>
      if child ∈ poisoned then freshlyPoisoned rest poisoned
      else child :: freshlyPoisoned rest (poisoned ++ [child])

/-- The `while queue` loop of `blocked`: the nodes it poisons. -/
def poisonLoop (dag : Dag T) : ℕ → List T → List T → Except (DagError T) (List T)
  | _, [], poisoned => .ok poisoned
  | 0, _ :: _, _ => .error .Unfinished
  | rounds + 1, node :: queue, poisoned => do
      let children ← dag.children node
      let fresh := freshlyPoisoned children poisoned
      poisonLoop dag rounds (queue ++ fresh) (poisoned ++ fresh)

/-- Tasks that can never run because an ancestor failed. -/
def blocked (cursor : DagCursor T) : Except (DagError T) (List T) :=
  if cursor._failed.isEmpty then .ok []
  else do
    let poisoned ← poisonLoop cursor._dag (cursor._failed.length + cursor._dag.nodes.length)
      cursor._failed []
    return cursor._dag.nodes.filter (· ∈ poisoned)

/-- True once no task can make further progress. -/
def is_complete (cursor : DagCursor T) : Bool := cursor.ready.isEmpty

def is_successful (cursor : DagCursor T) : Bool :=
  cursor._succeeded.length = cursor._dag.nodes.length

end DagCursor

end Conductor
