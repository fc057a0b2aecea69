/-
Heap order, as a property of a function on slots.

A binary heap is an assignment `f` of values to slots in which no slot is smaller
than its parent. Slots beyond the end of the heap are given a value `⊤` that is
above all others, so that nothing here has to speak of a size.

`Hole f p` says that `f` is in order but for what slot `p` holds. The two sifts
mend that: `Up` is what a walk towards the root keeps, `Down` what a walk towards
the leaves keeps, and each step of a walk exchanges two slots (`Equiv.swap`).
-/
import Mathlib.Logic.Equiv.Basic
import Mathlib.Order.Nat

set_option autoImplicit false

namespace HeapOrder

def parent (i : ℕ) : ℕ := (i - 1) / 2

theorem parent_lt {i : ℕ} (h : 0 < i) : parent i < i := by
  unfold parent
  omega

/-- The slots with a parent `p` are its two children. -/
theorem parent_eq_iff {i p : ℕ} (h : 0 < i) : parent i = p ↔ i = 2 * p + 1 ∨ i = 2 * p + 2 := by
  unfold parent
  omega

variable {T : Type} [Preorder T] {f : ℕ → T} {p : ℕ}

/-- No slot is smaller than its parent. -/
def Ordered (f : ℕ → T) : Prop := ∀ i, 0 < i → f (parent i) ≤ f i

/-- In order but for the slot `p`, whose children are not smaller than its parent. -/
structure Hole (f : ℕ → T) (p : ℕ) : Prop where
  edges : ∀ i, 0 < i → i ≠ p → parent i ≠ p → f (parent i) ≤ f i
  skip : ∀ i, 0 < i → parent i = p → 0 < p → f (parent p) ≤ f i

/-- In order but for the edge from `p` to its parent. -/
structure Up (f : ℕ → T) (p : ℕ) : Prop where
  edges : ∀ i, 0 < i → i ≠ p → f (parent i) ≤ f i
  skip : ∀ i, 0 < i → parent i = p → 0 < p → f (parent p) ≤ f i

/-- In order but for the edges from `p` to its children. -/
structure Down (f : ℕ → T) (p : ℕ) : Prop where
  edges : ∀ i, 0 < i → parent i ≠ p → f (parent i) ≤ f i
  skip : ∀ i, 0 < i → parent i = p → 0 < p → f (parent p) ≤ f i

theorem Up.hole (h : Up f p) : Hole f p := ⟨fun i hi hne _ => h.edges i hi hne, h.skip⟩

/-- Whatever is written into a slot of a heap leaves a hole there. -/
theorem Ordered.hole {g : ℕ → T} (h : Ordered f) (hg : ∀ i, i ≠ p → g i = f i) : Hole g p := by
  refine ⟨fun i hi hne hpar => ?_, fun i hi hpar hp => ?_⟩
  · rw [hg i hne, hg _ hpar]
    exact h i hi
  · have hi' : i ≠ p := by
      have := parent_lt hi
      omega
    rw [hg i hi', hg _ (parent_lt hp).ne]
    have hchild := h i hi
    rw [hpar] at hchild
    exact (h p hp).trans hchild

/-- A heap is in order but for any slot. -/
theorem Ordered.down (h : Ordered f) (p : ℕ) : Down f p := by
  refine ⟨fun i hi _ => h i hi, fun i hi hpar hp => ?_⟩
  have hchild := h i hi
  rw [hpar] at hchild
  exact (h p hp).trans hchild

/-! ## Towards the root -/

/-- One step of a walk up: the slot is smaller than its parent, and they change
places. -/
theorem Hole.up (h : Hole f p) (hp : 0 < p) (hlt : f p < f (parent p)) :
    Up (f ∘ Equiv.swap p (parent p)) (parent p) := by
  have hpp := parent_lt hp
  have hat : (f ∘ Equiv.swap p (parent p)) p = f (parent p) := by simp
  have hat' : (f ∘ Equiv.swap p (parent p)) (parent p) = f p := by simp
  have hother : ∀ i, i ≠ p → i ≠ parent p → (f ∘ Equiv.swap p (parent p)) i = f i := by
    intro i h1 h2
    rw [Function.comp_apply, Equiv.swap_apply_of_ne_of_ne h1 h2]
  refine ⟨fun i hi hne => ?_, fun i hi hpar hq => ?_⟩
  · by_cases hip : i = p
    · rw [hip, hat, hat']
      exact hlt.le
    · rw [hother i hip hne]
      by_cases h1 : parent i = p
      · -- A child of the slot, now below what was above the slot.
        rw [h1, hat]
        exact h.skip i hi h1 hp
      · by_cases h2 : parent i = parent p
        · -- A sibling, now below something smaller than its old parent.
          rw [h2, hat']
          have hsib := h.edges i hi hip h1
          rw [h2] at hsib
          exact hlt.le.trans hsib
        · rw [hother _ h1 h2]
          exact h.edges i hi hip h1
  · have hqp := parent_lt hq
    have hedge : f (parent (parent p)) ≤ f (parent p) :=
      h.edges _ hq hpp.ne (by omega)
    rw [hother (parent (parent p)) (by omega) hqp.ne]
    by_cases hip : i = p
    · rw [hip, hat]
      exact hedge
    · have hine : i ≠ parent p := by
        have := parent_lt hi
        omega
      rw [hother i hip hine]
      have hsib := h.edges i hi hip (by omega)
      rw [hpar] at hsib
      exact hedge.trans hsib

/-- The walk up ends when the slot is not smaller than its parent. -/
theorem Up.done (h : Up f p) (hle : 0 < p → f (parent p) ≤ f p) : Ordered f := by
  intro i hi
  by_cases hip : i = p
  · rw [hip] at hi ⊢
    exact hle hi
  · exact h.edges i hi hip

/-! ## Towards the leaves -/

/-- A hole that is not too small for its parent can only be too large. -/
theorem Hole.down (h : Hole f p) (hle : 0 < p → f (parent p) ≤ f p) : Down f p := by
  refine ⟨fun i hi hpar => ?_, h.skip⟩
  by_cases hip : i = p
  · rw [hip] at hi ⊢
    exact hle hi
  · exact h.edges i hi hip hpar

/-- One step of a walk down: the slot is larger than its smallest child `c`, and
they change places. -/
theorem Down.step (h : Down f p) {c : ℕ} (hc : 0 < c) (hpc : parent c = p) (hlt : f c < f p)
    (hmin : ∀ i, 0 < i → parent i = p → f c ≤ f i) : Down (f ∘ Equiv.swap p c) c := by
  have hpc' : p < c := hpc ▸ parent_lt hc
  have hat : (f ∘ Equiv.swap p c) p = f c := by simp
  have hat' : (f ∘ Equiv.swap p c) c = f p := by simp
  have hother : ∀ i, i ≠ p → i ≠ c → (f ∘ Equiv.swap p c) i = f i := by
    intro i h1 h2
    rw [Function.comp_apply, Equiv.swap_apply_of_ne_of_ne h1 h2]
  refine ⟨fun i hi hpar => ?_, fun i hi hpar _ => ?_⟩
  · by_cases hic : i = c
    · rw [hic, hpc, hat, hat']
      exact hlt.le
    · by_cases hip : i = p
      · -- The slot itself: its parent is not larger than any of its children.
        have hp : 0 < p := hip ▸ hi
        have hpp := parent_lt hp
        rw [hip, hat, hother (parent p) hpp.ne (by omega)]
        exact h.skip c hc hpc hp
      · rw [hother i hip hic]
        by_cases h1 : parent i = p
        · rw [h1, hat]
          exact hmin i hi h1
        · rw [hother _ h1 hpar]
          exact h.edges i hi h1
  · have hci : c < i := hpar ▸ parent_lt hi
    rw [hpc, hat, hother i (by omega) (by omega)]
    have hedge := h.edges i hi (by omega)
    rw [hpar] at hedge
    exact hedge

/-- The walk down ends when the slot is not larger than its children. -/
theorem Down.done (h : Down f p) (hle : ∀ i, 0 < i → parent i = p → f p ≤ f i) : Ordered f := by
  intro i hi
  by_cases hpar : parent i = p
  · rw [hpar]
    exact hle i hi hpar
  · exact h.edges i hi hpar

/-- **The root is the smallest.** -/
theorem Ordered.root_le (h : Ordered f) (i : ℕ) : f 0 ≤ f i := by
  induction i using Nat.strongRecOn with
  | ind i ih =>
      rcases Nat.eq_zero_or_pos i with rfl | hi
      · exact le_refl _
      · exact (ih (parent i) (parent_lt hi)).trans (h i hi)

end HeapOrder
