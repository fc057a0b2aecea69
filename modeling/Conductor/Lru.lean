/-
`core/lru.py`: the cache of workflow definitions.

The nodes are objects with `prev` and `next` fields that the methods assign to, so
the model has a memory: objects by number, a fresh number for every `_Node(...)`,
and no number is used twice. A method is a computation that reads and writes the
cache and its objects and may raise; what it wrote before it raised stays written,
as in the source. The assertions of the source raise here too, and so does reading
an attribute of `None`; that neither happens is proved, not built in.

The two sentinels carry the key and value `None` of the source, which is why the
key and the value of a node are optional.
-/
import Mathlib.Data.Int.Notation
import Mathlib.Logic.Function.Basic
import Conductor.Lib.Tables

set_option autoImplicit false

open Relational

namespace Conductor

/-- A list node; `prev` and `next` are wired by the cache. -/
structure Node (K V : Type) where
  key : Option K
  value : Option V
  prev : Option ℕ
  next : Option ℕ

/-- Least-recently-used cache: a dictionary of nodes over a doubly linked list
between two sentinels. -/
structure LruCache (K V : Type) where
  _capacity : ℤ
  _nodes : OrderedDict K ℕ
  _head : ℕ
  _tail : ℕ
  _hits : ℕ
  _misses : ℕ
  /-- The objects, by number. -/
  memory : ℕ → Node K V
  /-- The next number that no object has. -/
  fresh : ℕ

/-- What a method raises: what the runtime raises, or what the loader handed to
`get_or_load` does. -/
inductive CacheError (E : Type) where
  | AssertionError
  | AttributeError
  | KeyError
  | Unfinished
  | loader (err : E)
deriving DecidableEq

/-- A method of the cache. -/
abbrev Method (K V E α : Type) := ExceptT (CacheError E) (StateM (LruCache K V)) α

namespace LruCache

variable {K V E : Type}

/-! ## Objects -/

def next (c : LruCache K V) (i : ℕ) : Option ℕ := (c.memory i).next
def prev (c : LruCache K V) (i : ℕ) : Option ℕ := (c.memory i).prev
def key (c : LruCache K V) (i : ℕ) : Option K := (c.memory i).key
def value (c : LruCache K V) (i : ℕ) : Option V := (c.memory i).value

/-- `i.next = target`. -/
def withNext (c : LruCache K V) (i : ℕ) (target : Option ℕ) : LruCache K V :=
  { c with memory := Function.update c.memory i { c.memory i with next := target } }

/-- `i.prev = target`. -/
def withPrev (c : LruCache K V) (i : ℕ) (target : Option ℕ) : LruCache K V :=
  { c with memory := Function.update c.memory i { c.memory i with prev := target } }

/-- `i.value = value`. -/
def withValue (c : LruCache K V) (i : ℕ) (value : V) : LruCache K V :=
  { c with memory := Function.update c.memory i { c.memory i with value := some value } }

/-- `_Node(key, value)`, under the next number. -/
def withNode (c : LruCache K V) (key : K) (value : V) : LruCache K V :=
  { c with
    memory := Function.update c.memory c.fresh ⟨some key, some value, none, none⟩
    fresh := c.fresh + 1 }

/-- `assert x is not None`, and `x`. -/
def assertSome {α : Type} (x : Option α) : Method K V E α :=
  match x with
  | some a => pure a
  | none => throw .AssertionError

/-- `x`, where an attribute of it is read or written next. -/
def object {α : Type} (x : Option α) : Method K V E α :=
  match x with
  | some a => pure a
  | none => throw .AttributeError

/-- `LruCache(capacity)`. -/
def new (capacity : ℤ) : Except String (LruCache K V) :=
  if capacity < 0 then .error "capacity must be non-negative"
  else
    let sentinels : LruCache K V :=
      { _capacity := capacity, _nodes := Table.empty, _head := 0, _tail := 1, _hits := 0,
        _misses := 0, memory := fun _ => ⟨none, none, none, none⟩, fresh := 2 }
    .ok ((sentinels.withNext 0 (some 1)).withPrev 1 (some 0))

/-! ## Linked-list internals -/

def push_front (node : ℕ) : Method K V E Unit := do
  let c ← get
  let first ← assertSome (c.next c._head)
  modify (·.withPrev node (some c._head))
  modify (·.withNext node (some first))
  modify (·.withNext c._head (some node))
  modify (·.withPrev first (some node))

def unlink (node : ℕ) : Method K V E Unit := do
  let c ← get
  let _ ← assertSome (c.prev node)
  let _ ← assertSome (c.next node)
  let before ← object (c.prev node)
  modify (·.withNext before (c.next node))
  let c ← get
  let after ← object (c.next node)
  modify (·.withPrev after (c.prev node))
  modify (·.withPrev node none)
  modify (·.withNext node none)

def move_to_front (node : ℕ) : Method K V E Unit := do
  let c ← get
  if c.next c._head = some node then return
  unlink node
  push_front node

variable [DecidableEq K]

/-- `del self._nodes[key]`. -/
def delNode (key : Option K) : Method K V E Unit := do
  let c ← get
  match key with
  | none => throw .KeyError
  | some k =>
      if (OrderedDict.lookup c._nodes k).isSome then
        modify (fun c => { c with _nodes := OrderedDict.erase c._nodes k })
      else throw .KeyError

def evict : Method K V E (Option K) := do
  let c ← get
  let victim ← assertSome (c.prev c._tail)
  if victim = c._head then throw .AssertionError
  unlink victim
  let c ← get
  delNode (c.key victim)
  return c.key victim

/-! ## Container protocol -/

def len (c : LruCache K V) : ℕ := c._nodes.rows.length

def contains (c : LruCache K V) (key : K) : Bool := (OrderedDict.lookup c._nodes key).isSome

/-- The loop of `__iter__`: the keys yielded from `node` on. -/
def iterLoop (c : LruCache K V) : ℕ → Option ℕ → Except (CacheError E) (List (Option K))
  | 0, _ => .error .Unfinished
  | _ + 1, none => .ok []
  | rounds + 1, some node =>
      if node = c._tail then .ok []
      else do
        let rest ← iterLoop c rounds (c.next node)
        return c.key node :: rest

/-- Keys from most to least recently used. -/
def iter (c : LruCache K V) : Except (CacheError E) (List (Option K)) :=
  c.iterLoop c.fresh (c.next c._head)

/-! ## Operations -/

def get (key : K) (default : Option V) : Method K V E (Option V) := do
  let c ← MonadState.get
  match OrderedDict.lookup c._nodes key with
  | none => do
      modify (fun c => { c with _misses := c._misses + 1 })
      return default
  | some node => do
      modify (fun c => { c with _hits := c._hits + 1 })
      move_to_front node
      let c ← MonadState.get
      return c.value node

/-- Insert or update; the evicted key, if one was evicted. -/
def put (key : K) (value : V) : Method K V E (Option K) := do
  let c ← MonadState.get
  -- A zero-capacity cache evicts what it is handed.
  if c._capacity = 0 then return some key
  match OrderedDict.lookup c._nodes key with
  | some existing => do
      modify (·.withValue existing value)
      move_to_front existing
      return none
  | none => do
      let node := c.fresh
      modify (·.withNode key value)
      modify (fun c => { c with _nodes := OrderedDict.set c._nodes key node })
      push_front node
      let c ← MonadState.get
      if (c.len : ℤ) > c._capacity then evict
      else return none

/-- Read through to `loader` on a miss, caching the result. -/
def get_or_load (key : K) (loader : K → Except E V) : Method K V E (Option V) := do
  let c ← MonadState.get
  match OrderedDict.lookup c._nodes key with
  | some node => do
      modify (fun c => { c with _hits := c._hits + 1 })
      move_to_front node
      let c ← MonadState.get
      return c.value node
  | none => do
      modify (fun c => { c with _misses := c._misses + 1 })
      match loader key with
      | .error err => throw (.loader err)
      | .ok value => do
          let _ ← put key value
          return some value

/-- Drop an entry. -/
def invalidate (key : K) : Method K V E Bool := do
  let c ← MonadState.get
  match OrderedDict.lookup c._nodes key with
  | none => return false
  | some node => do
      modify (fun c => { c with _nodes := OrderedDict.erase c._nodes key })
      unlink node
      return true

def clear : Method K V E Unit := do
  modify (fun c => { c with _nodes := Table.empty })
  modify (fun c => c.withNext c._head (some c._tail))
  modify (fun c => c.withPrev c._tail (some c._head))

end LruCache

end Conductor
