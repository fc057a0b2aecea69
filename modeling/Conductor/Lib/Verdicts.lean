/-
What an execution under precedence constraints comes to.

Which steps an execution takes, and in which order, is up to whoever runs it. What it comes
to is not: once nothing is live any more and nothing was cancelled, the status of every item
is decided by which items fail when they are tried. An item below a failing one is blocked,
every other item is tried, and a tried item is done or failed. `outcome` says this without
any execution, and `Coherent.eq_outcome` that every execution ends there.
-/
import Conductor.Lib.Precedence

set_option autoImplicit false

namespace Precedence

variable {τ : Type} {parents : τ → Finset τ} {σ : τ → Status} {fails : τ → Prop}

open Classical in
/-- The end of an execution of the items in `part`, of which those in `fails` fail. -/
noncomputable def outcome (parents : τ → Finset τ) (part fails : τ → Prop) (t : τ) : Status :=
  if ¬ part t then .absent
  else if ∃ a, Below parents a t ∧ fails a then .blocked
  else if fails t then .failed
  else .done

/-- An execution that has come to its end, without being cancelled, and in which the items
that were tried failed as the verdict says. -/
structure EndsBy (σ : τ → Status) (fails : τ → Prop) : Prop where
  live : ∀ t, (σ t).live = false
  uncancelled : ∀ t, σ t ≠ .cancelled
  done : ∀ t, σ t = .done → ¬ fails t
  failed : ∀ t, σ t = .failed → fails t

/-- In such an execution the blocked items are those below an item that fails, whether or
not that one was tried. -/
theorem Coherent.blocked_iff_fails (h : Coherent parents σ) (hends : EndsBy σ fails) {t : τ}
    (hpart : σ t ≠ .absent) : σ t = .blocked ↔ ∃ a, Below parents a t ∧ fails a := by
  refine ⟨fun hblocked => ?_, ?_⟩
  · obtain ⟨a, hbelow, hfailed⟩ := h.blocked t hblocked
    exact ⟨a, hbelow, hends.failed a hfailed⟩
  · rintro ⟨a, hbelow, hfails⟩
    have hlive := hends.live a
    cases ha : σ a with
    | absent => exact absurd ((h.absent_below hbelow).mp ha) hpart
    | waiting => rw [ha] at hlive; cases hlive
    | enabled => rw [ha] at hlive; cases hlive
    | done => exact absurd hfails (hends.done a ha)
    | failed => exact h.blocked_below hbelow (Or.inl ha)
    | blocked => exact h.blocked_below hbelow (Or.inr ha)
    | cancelled => exact absurd ha (hends.uncancelled a)

/-- **Every execution ends in the outcome.** -/
theorem Coherent.eq_outcome (h : Coherent parents σ) (hends : EndsBy σ fails) :
    σ = outcome parents (fun t => σ t ≠ .absent) fails := by
  funext t
  unfold outcome
  by_cases habsent : σ t = .absent
  · rw [if_pos (not_not.mpr habsent), habsent]
  · rw [if_neg (not_not.mpr habsent)]
    by_cases hblocked : ∃ a, Below parents a t ∧ fails a
    · rw [if_pos hblocked]
      exact (h.blocked_iff_fails hends habsent).mpr hblocked
    · rw [if_neg hblocked]
      have hnot : σ t ≠ .blocked := fun he => hblocked ((h.blocked_iff_fails hends habsent).mp he)
      have hlive := hends.live t
      cases ht : σ t with
      | absent => exact absurd ht habsent
      | waiting => rw [ht] at hlive; cases hlive
      | enabled => rw [ht] at hlive; cases hlive
      | done => rw [if_neg (hends.done t ht)]
      | failed => rw [if_pos (hends.failed t ht)]
      | blocked => exact absurd ht hnot
      | cancelled => exact absurd ht (hends.uncancelled t)

end Precedence
