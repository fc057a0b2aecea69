/-
Lists of keys, most recently used first, kept with different room.

A list with room for `d` more keys follows a shorter one at a distance: it lists what the
shorter one does, in the same order, and at most `d` keys besides. What is done to both
keeps the distance, whether a key is put in front, keys are dropped, or what exceeds the
room is cut off from the end.
-/
import Mathlib.Data.List.Basic

set_option autoImplicit false

namespace Recency

variable {α : Type} {d : Nat} {small large : List α}

/-- `large` lists what `small` does, in the same order, and at most `d` keys besides. -/
structure Within (d : Nat) (small large : List α) : Prop where
  sublist : small.Sublist large
  length : large.length ≤ small.length + d

theorem Within.nil : Within d ([] : List α) [] :=
  ⟨List.Sublist.refl _, Nat.zero_le _⟩

theorem Within.mem (h : Within d small large) {k : α} (hk : k ∈ small) : k ∈ large :=
  h.sublist.subset hk

/-- A key in front of both. -/
theorem Within.cons (h : Within d small large) (k : α) : Within d (k :: small) (k :: large) := by
  refine ⟨h.sublist.cons_cons k, ?_⟩
  have hlength := h.length
  rw [List.length_cons, List.length_cons]
  omega

/-- Keys dropped from both. The longer list loses at least as many. -/
theorem Within.filter (h : Within d small large) (p : α → Bool) :
    Within d (small.filter p) (large.filter p) := by
  refine ⟨h.sublist.filter p, ?_⟩
  have hlength := h.length
  have hdropped := h.sublist.countP_le (p := fun a => ¬ p a)
  rw [List.length_eq_countP_add_countP p (l := small),
    List.length_eq_countP_add_countP p (l := large)] at hlength
  rw [← List.countP_eq_length_filter, ← List.countP_eq_length_filter]
  omega

/-- The room of the longer list is larger by as much as it may be longer. -/
theorem sublist_take (hsub : small.Sublist large) (n : Nat)
    (hlength : large.length ≤ small.length + d) :
    (small.take n).Sublist (large.take (n + d)) := by
  induction hsub generalizing n d with
  | slnil =>
      rw [List.take_nil]
      exact List.nil_sublist _
  | @cons small large k hsub ih =>
      -- The key that is only in the longer list is one of the `d`.
      have hshorter := hsub.length_le
      rw [List.length_cons] at hlength
      obtain ⟨d, rfl⟩ : ∃ d', d = d' + 1 := ⟨d - 1, by omega⟩
      rw [← Nat.add_assoc, List.take_succ_cons]
      exact (ih n (by omega)).cons k
  | @cons_cons small large k hsub ih =>
      rw [List.length_cons, List.length_cons] at hlength
      cases n with
      | zero => exact List.nil_sublist _
      | succ n =>
          rw [Nat.succ_add, List.take_succ_cons, List.take_succ_cons]
          exact (ih n (by omega)).cons_cons k

/-- What exceeds the room cut off from both. -/
theorem Within.take (h : Within d small large) (n : Nat) :
    Within d (small.take n) (large.take (n + d)) := by
  refine ⟨sublist_take h.sublist n h.length, ?_⟩
  have hlength := h.length
  rw [List.length_take, List.length_take]
  omega

/-- A key used where only the longer list has it. -/
theorem Within.used_in_large [DecidableEq α] (h : Within d small large) {k : α}
    (hsmall : k ∉ small) (hlarge : k ∈ large) :
    Within d small (k :: large.filter (fun a => a ≠ k)) := by
  have hkept : small.filter (fun a => a ≠ k) = small := by
    refine List.filter_eq_self.mpr (fun a ha => decide_eq_true ?_)
    rintro rfl
    exact hsmall ha
  have hsub := h.sublist.filter (fun a => decide (a ≠ k))
  rw [hkept] at hsub
  refine ⟨hsub.cons k, ?_⟩
  have hlength := h.length
  have hshorter : (large.filter (fun a => a ≠ k)).length < large.length :=
    List.length_filter_lt_length_iff_exists.mpr ⟨k, hlarge, by simp⟩
  rw [List.length_cons]
  omega

end Recency
