/-
The two sifts, called one after the other on the same slot.

`_replace` and `_remove_at` write an entry into a slot `p` and call `_sift_up(p)` and
then `_sift_down(p)`. The second call starts from `p` again, whatever the first has
left there. That is sound because of what the first call can have done: a walk up that
moved something has left a heap, in which there is nothing to sift down, and one that
moved nothing has shown that the entry in `p` is not too small.

What holds before is said of the entries themselves here; `HeapOrder.Hole` says it of
due times, with `⊤` beyond the end.
-/
import Conductor.HeapSpec

set_option autoImplicit false

open Relational HeapOrder

namespace Conductor

namespace DelayQueue

variable {K T V : Type} [LinearOrder T] {q : DelayQueue K T V} {p : ℕ}

/-! ## In order but for one entry -/

/-- Slot `i` holds nothing that is due before what slot `j` holds, if there is anything
in both. -/
def NotBefore (q : DelayQueue K T V) (i j : ℕ) : Prop :=
  ∀ x y, q._heap[j]? = some x → q._heap[i]? = some y → x.due_at ≤ y.due_at

/-- Every slot is in order with its parent. -/
def HeapOrdered (q : DelayQueue K T V) : Prop :=
  ∀ i, 0 < i → q.NotBefore i (parent i)

/-- The heap order with the entry in `p` ignored: the children of `p` are in order with
the parent of `p`, and every other slot with its own parent. -/
structure OrderedBut (q : DelayQueue K T V) (p : ℕ) : Prop where
  edges : ∀ i, 0 < i → i ≠ p → parent i ≠ p → q.NotBefore i (parent i)
  skip : ∀ i, 0 < i → parent i = p → 0 < p → q.NotBefore i (parent p)

/-- Slots in order, as due times. A slot that is not there is due last, so a slot above
one that is there must be there too. -/
theorem notBefore_iff {i j : ℕ} (hji : j ≤ i) : q.NotBefore i j ↔ q.due j ≤ q.due i := by
  constructor
  · intro h
    rcases Nat.lt_or_ge i q._heap.length with hi | hi
    · have hx := List.getElem?_eq_getElem (hji.trans_lt hi)
      have hy := List.getElem?_eq_getElem hi
      rw [due_of_getElem? hx, due_of_getElem? hy]
      exact WithTop.coe_le_coe.mpr (h _ _ hx hy)
    · rw [due_of_length_le hi]
      exact le_top
  · intro h x y hx hy
    rw [due_of_getElem? hx, due_of_getElem? hy] at h
    exact WithTop.coe_le_coe.mp h

theorem heapOrdered_iff : q.HeapOrdered ↔ Ordered q.due :=
  forall_congr' (fun _ => forall_congr' (fun hi => notBefore_iff (parent_lt hi).le))

theorem OrderedBut.hole (h : q.OrderedBut p) : Hole q.due p where
  edges := fun i hi hip hpar => (notBefore_iff (parent_lt hi).le).mp (h.edges i hi hip hpar)
  skip := by
    intro i hi hpar hp
    -- The parent of `p` is two levels above its children.
    have hpi : p < i := by
      rw [← hpar]
      exact parent_lt hi
    exact (notBefore_iff ((parent_lt hp).trans hpi).le).mp (h.skip i hi hpar hp)

/-! ## Up, then down -/

variable [DecidableEq K]

omit [LinearOrder T] in
/-- An index that lists the slots in their order is exact. -/
theorem exact_of_rows (hrows : q._index.rows = q._heap.mapIdx (fun i e => (e.key, i))) :
    q.Exact := by
  intro k i
  rw [OrderedDict.lookup_eq_some, hrows, List.mem_mapIdx]
  constructor
  · rintro ⟨j, hj, hitem⟩
    cases hitem
    exact ⟨_, List.getElem?_eq_getElem hj, rfl⟩
  · rintro ⟨e, he, rfl⟩
    obtain ⟨hi, rfl⟩ := List.getElem?_eq_some_iff.mp he
    exact ⟨i, hi, rfl⟩

/-- **Local repair.** From a heap that is in order but for the entry in `p`, the two
sifts return, permute the entries, leave the index exact and the heap in order
everywhere; and one of the two moves nothing. -/
theorem sift_up_then_down (hexact : q.Exact) (hp : p < q._heap.length) (hbut : q.OrderedBut p) :
    ∃ q₁ q', q.sift_up p = .ok q₁ ∧ q₁.sift_down p = .ok q' ∧ q'._heap.Perm q._heap ∧
      q'.HeapOrdered ∧ q'.Exact ∧ (q₁ = q ∨ q' = q₁) := by
  obtain ⟨q₁, q', hup, hdown, hsifted, hordered, hstill⟩ := mend_ok hexact hp hbut.hole
  exact ⟨q₁, q', hup, hdown, hsifted.perm, heapOrdered_iff.mpr hordered, hsifted.exact, hstill⟩

/-- Three timers of which the first is due last: it is sifted down, past the one that is
due first. -/
def firstIsLast : DelayQueue String ℕ ℕ :=
  ⟨[⟨"a", 9, 0⟩, ⟨"b", 3, 1⟩, ⟨"c", 4, 2⟩], ⟨[("a", 0), ("b", 1), ("c", 2)], by decide⟩⟩

theorem sift_up_then_down_firstIsLast :
    ∃ q₁ q', firstIsLast.sift_up 0 = .ok q₁ ∧ q₁.sift_down 0 = .ok q' ∧
      q'._heap.map Entry.key = ["b", "a", "c"] ∧ q'.HeapOrdered ∧ q'.Exact := by
  have hbut : firstIsLast.OrderedBut 0 := by
    refine ⟨fun i hi _ hpar => ?_, fun i _ _ h0 => absurd h0 (Nat.lt_irrefl 0)⟩
    -- Below the children of the root there is nothing.
    intro x y _ hy
    obtain ⟨hlt, -⟩ := List.getElem?_eq_some_iff.mp hy
    have hlength : firstIsLast._heap.length = 3 := rfl
    unfold parent at hpar
    omega
  obtain ⟨q₁, q', hup, hdown, -, hordered, hexact, -⟩ :=
    sift_up_then_down (exact_of_rows (q := firstIsLast) rfl) (p := 0) (by decide) hbut
  refine ⟨q₁, q', hup, hdown, ?_, hordered, hexact⟩
  have hrun : (firstIsLast.sift_up 0).bind (fun q => (q.sift_down 0).map (fun q' =>
      q'._heap.map Entry.key)) = .ok ["b", "a", "c"] := by decide +kernel
  rw [hup] at hrun
  change (q₁.sift_down 0).map (fun q' => q'._heap.map Entry.key) = _ at hrun
  rw [hdown] at hrun
  exact Except.ok.inj hrun

end DelayQueue

end Conductor
