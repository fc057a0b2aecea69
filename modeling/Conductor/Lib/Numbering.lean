/-
Numberings without gaps.

A list is `Numbered` when it is 1, 2, …, n in some order. What such a list is extended
by, whoever extends it, starts at n + 1; so of two extensions only one can be, and the
next number of an earlier list that the list has not got is its own next number.
-/
import Mathlib.Data.List.Perm.Basic
import Mathlib.Data.List.Nodup
import Mathlib.Data.List.Range
import Mathlib.Data.Int.Order.Basic

set_option autoImplicit false

/-- The numbers from 1 on, each once. -/
def Numbered (l : List ℤ) : Prop :=
  l.Perm ((List.range l.length).map (fun i : ℕ => (i : ℤ) + 1))

/-- The largest number of a list, or zero. -/
theorem foldl_max_spec (l : List ℤ) :
    l.foldl max 0 ∈ 0 :: l ∧ ∀ v ∈ 0 :: l, v ≤ l.foldl max 0 :=
  List.max?_eq_some_iff.mp List.max?_cons'

namespace Numbered

variable {l m : List ℤ}

theorem nil : Numbered [] := List.Perm.nil

theorem mem_iff (h : Numbered l) {v : ℤ} : v ∈ l ↔ 1 ≤ v ∧ v ≤ l.length := by
  rw [List.Perm.mem_iff h, List.mem_map]
  constructor
  · rintro ⟨i, hi, rfl⟩
    have := List.mem_range.mp hi
    omega
  · rintro ⟨hone, hle⟩
    refine ⟨(v - 1).toNat, List.mem_range.mpr ?_, ?_⟩
    · omega
    · omega

theorem nodup (h : Numbered l) : l.Nodup := by
  refine (List.Perm.nodup_iff h).mpr (List.nodup_range.map ?_)
  intro i j hij
  have hsucc : (i : ℤ) + 1 = (j : ℤ) + 1 := hij
  omega

/-- One more number. -/
theorem append_next (h : Numbered l) : Numbered (l ++ [(l.length : ℤ) + 1]) := by
  unfold Numbered
  rw [List.length_append, List.length_singleton, List.range_succ, List.map_append]
  exact h.append_right _

/-- The largest number is how many there are. -/
theorem foldl_max (h : Numbered l) : l.foldl max 0 = l.length := by
  obtain ⟨hmem, hle⟩ := foldl_max_spec l
  refine le_antisymm ?_ ?_
  · rcases List.mem_cons.mp hmem with hzero | hmem
    · omega
    · exact (h.mem_iff.mp hmem).2
  · rcases Nat.eq_zero_or_pos l.length with hzero | hpos
    · have := hle 0 List.mem_cons_self
      omega
    · exact hle _ (List.mem_cons_of_mem 0 (h.mem_iff.mpr ⟨by omega, le_refl _⟩))

/-- The next number of an earlier list, if nobody has taken it, is the next number. -/
theorem length_of_next (h : Numbered l) (hm : Numbered m) (hsub : ∀ v ∈ m, v ∈ l)
    (hnext : (m.length : ℤ) + 1 ∉ l) : l.length = m.length := by
  have hle : ¬ m.length + 1 ≤ l.length := by
    intro hle
    exact hnext (h.mem_iff.mpr ⟨by omega, by omega⟩)
  have hge : m.length ≤ l.length := by
    rcases Nat.eq_zero_or_pos m.length with hzero | hpos
    · omega
    · have hlast := (h.mem_iff.mp (hsub _ (hm.mem_iff.mpr ⟨by omega, le_refl (m.length : ℤ)⟩))).2
      omega
  omega

/-- A proper extension takes the next number. -/
theorem next_mem (h : Numbered l) (happend : Numbered (l ++ m)) (hm : m ≠ []) :
    (l.length : ℤ) + 1 ∈ m := by
  have hpos := List.length_pos_iff.mpr hm
  have hmem : (l.length : ℤ) + 1 ∈ l ++ m := by
    refine happend.mem_iff.mpr ⟨by omega, ?_⟩
    rw [List.length_append]
    omega
  rcases List.mem_append.mp hmem with hl | hm'
  · have := (h.mem_iff.mp hl).2
    omega
  · exact hm'

end Numbered
