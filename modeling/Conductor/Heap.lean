/-
`core/heap.py`: the delay queue.

A binary min-heap over `due_at` with a side index from key to slot. Keys, due
times and payloads are of any types: keys are compared for equality, due times by
a linear order. The list operations of the source that raise on a bad index, and
the dictionary operations that raise on a missing key, raise here too; that they
never do is proved, not built in.

The `while` loops of the two sifts and of `pop_due` run for a number of rounds
that their callers give; running out of them would be `Unfinished`.
-/
import Mathlib.Data.Int.Notation
import Mathlib.Order.Lattice
import Conductor.Lib.Tables

set_option autoImplicit false

open Relational

namespace Conductor

/-- What the operations on lists and dictionaries raise. -/
inductive LookupError where
  | IndexError (msg : String)
  | KeyError
  | Unfinished
deriving DecidableEq

/-- `xs[i]`. -/
def item {α : Type} (xs : List α) (i : ℕ) : Except LookupError α :=
  match xs[i]? with
  | some x => .ok x
  | none => .error (.IndexError "list index out of range")

/-- `xs[i] = x`. -/
def setitem {α : Type} (xs : List α) (i : ℕ) (x : α) : Except LookupError (List α) :=
  if i < xs.length then .ok (xs.set i x)
  else .error (.IndexError "list assignment index out of range")

/-- `xs.pop()`: the last element, and what is left. -/
def popLast {α : Type} (xs : List α) : Except LookupError (α × List α) :=
  match xs.getLast? with
  | some x => .ok (x, xs.dropLast)
  | none => .error (.IndexError "pop from empty list")

/-- One scheduled item: fire `payload` at `due_at`. -/
structure Entry (K T V : Type) where
  key : K
  due_at : T
  payload : V
deriving DecidableEq

/-- Min-heap over `due_at` with push, pop, and cancel-by-key. -/
structure DelayQueue (K T V : Type) where
  _heap : List (Entry K T V)
  /-- Key to position in `_heap`, maintained by every sift. -/
  _index : OrderedDict K ℕ

namespace DelayQueue

variable {K T V : Type} [DecidableEq K] [LinearOrder T]

/-- `DelayQueue()`. -/
def new : DelayQueue K T V := ⟨[], Table.empty⟩

def len (q : DelayQueue K T V) : ℕ := q._heap.length

def contains (q : DelayQueue K T V) (key : K) : Bool := (OrderedDict.lookup q._index key).isSome

/-! ## Heap internals -/

def swap (q : DelayQueue K T V) (a b : ℕ) : Except LookupError (DelayQueue K T V) := do
  let x ← item q._heap b
  let y ← item q._heap a
  let heap ← setitem q._heap a x
  let heap ← setitem heap b y
  let first ← item heap a
  let index := OrderedDict.set q._index first.key a
  let second ← item heap b
  return ⟨heap, OrderedDict.set index second.key b⟩

/-- The loop of `_sift_up`. -/
def siftUpLoop : ℕ → ℕ → DelayQueue K T V → Except LookupError (DelayQueue K T V)
  | 0, _, _ => .error .Unfinished
  | rounds + 1, position, q =>
      if 0 < position then do
        let parent := (position - 1) / 2
        let here ← item q._heap position
        let above ← item q._heap parent
        if here.due_at ≥ above.due_at then return q
        else do
          let q ← q.swap position parent
          siftUpLoop rounds parent q
      else return q

def sift_up (q : DelayQueue K T V) (position : ℕ) : Except LookupError (DelayQueue K T V) :=
  siftUpLoop (position + 1) position q

/-- `if child < size and self._heap[child].due_at < self._heap[smallest].due_at:
smallest = child`. -/
def smaller (size : ℕ) (q : DelayQueue K T V) (smallest child : ℕ) : Except LookupError ℕ :=
  if child < size then do
    let x ← item q._heap child
    let y ← item q._heap smallest
    return if x.due_at < y.due_at then child else smallest
  else return smallest

/-- The loop of `_sift_down`; `size` is read once before it. -/
def siftDownLoop (size : ℕ) : ℕ → ℕ → DelayQueue K T V → Except LookupError (DelayQueue K T V)
  | 0, _, _ => .error .Unfinished
  | rounds + 1, position, q => do
      let left := 2 * position + 1
      let right := left + 1
      let smallest ← smaller size q position left
      let smallest ← smaller size q smallest right
      if smallest = position then return q
      else do
        let q ← q.swap position smallest
        siftDownLoop size rounds smallest q

def sift_down (q : DelayQueue K T V) (position : ℕ) : Except LookupError (DelayQueue K T V) :=
  siftDownLoop q._heap.length (q._heap.length + 1) position q

def replace (q : DelayQueue K T V) (key : K) (due_at : T) (payload : V) :
    Except LookupError (DelayQueue K T V) :=
  match OrderedDict.lookup q._index key with
  | none => .error .KeyError
  | some position => do
      let heap ← setitem q._heap position ⟨key, due_at, payload⟩
      -- The new deadline may be earlier or later, so try both directions.
      let q ← sift_up ⟨heap, q._index⟩ position
      q.sift_down position

def remove_at (q : DelayQueue K T V) (position : ℕ) :
    Except LookupError (Entry K T V × DelayQueue K T V) := do
  let entry ← item q._heap position
  let (last, heap) ← popLast q._heap
  if (OrderedDict.lookup q._index entry.key).isNone then
    .error .KeyError
  let index := OrderedDict.erase q._index entry.key
  if position < heap.length then do
    -- Move the former last element into the hole and re-heapify.
    let heap ← setitem heap position last
    let q ← sift_up ⟨heap, OrderedDict.set index last.key position⟩ position
    let q ← q.sift_down position
    return (entry, q)
  else return (entry, ⟨heap, index⟩)

/-! ## Public operations -/

/-- Schedule `payload` for `due_at`, replacing any entry with this key. -/
def push (q : DelayQueue K T V) (key : K) (due_at : T) (payload : V) :
    Except LookupError (DelayQueue K T V) :=
  if q.contains key then q.replace key due_at payload
  else
    let heap := q._heap ++ [⟨key, due_at, payload⟩]
    sift_up ⟨heap, OrderedDict.set q._index key (heap.length - 1)⟩ (heap.length - 1)

/-- The earliest entry, without removing it. -/
def peek (q : DelayQueue K T V) : Option (Entry K T V) := q._heap.head?

/-- Remove and return the earliest entry. -/
def pop (q : DelayQueue K T V) : Except LookupError (Entry K T V × DelayQueue K T V) :=
  if q._heap.isEmpty then .error (.IndexError "pop from an empty DelayQueue")
  else q.remove_at 0

/-- Withdraw a scheduled entry; `none` if it was not queued. -/
def cancel (q : DelayQueue K T V) (key : K) :
    Except LookupError (Option (Entry K T V) × DelayQueue K T V) :=
  match OrderedDict.lookup q._index key with
  | none => .ok (none, q)
  | some position => do
      let (entry, q) ← q.remove_at position
      return (some entry, q)

/-- The loop of `pop_due`. -/
def popDueLoop (now : T) (limit : Option ℤ) :
    ℕ → DelayQueue K T V → List (Entry K T V) →
      Except LookupError (List (Entry K T V) × DelayQueue K T V)
  | 0, _, _ => .error .Unfinished
  | rounds + 1, q, due =>
      match q._heap with
      | [] => .ok (due, q)
      | head :: _ =>
          if head.due_at ≤ now then
            if limit.any (fun n : ℤ => n ≤ (due.length : ℤ)) then .ok (due, q)
            else do
              let (entry, q) ← q.pop
              popDueLoop now limit rounds q (due ++ [entry])
          else .ok (due, q)

/-- Drain every entry due at or before `now`, earliest first; `limit` caps it. -/
def pop_due (q : DelayQueue K T V) (now : T) (limit : Option ℤ) :
    Except LookupError (List (Entry K T V) × DelayQueue K T V) :=
  popDueLoop now limit (q._heap.length + 1) q []

/-- How long the loop may sleep; `none` means that nothing is scheduled. -/
def seconds_until_next [Zero T] [Sub T] (q : DelayQueue K T V) (now : T) : Option T :=
  match q.peek with
  | none => none
  | some head => some (max 0 (head.due_at - now))

end DelayQueue

end Conductor
