/-
Progress along an infinite course of states.

Safety speaks about one state of a run at a time. That something happens in the end
speaks about the whole of an infinite course: `LeadsTo x P Q` says that whenever `P`
holds in the course `x`, `Q` holds at that moment or a later one.

A course follows a system that also meets with fairness conditions, and how these enter
is up to the proofs of the single steps. The rule here puts such steps together, by descent
on a measure.
-/
import Mathlib.Order.WellFounded
import Mathlib.Tactic.Basic

set_option autoImplicit false

namespace Progress

variable {σ : Type} {x : ℕ → σ} {P Q : σ → Prop}

/-- Whenever `P` holds, `Q` holds then or later. -/
def LeadsTo (x : ℕ → σ) (P Q : σ → Prop) : Prop :=
  ∀ n, P (x n) → ∃ m, n ≤ m ∧ Q (x m)

/-- Once `P` holds it goes on holding. -/
def Stable (x : ℕ → σ) (P : σ → Prop) : Prop :=
  ∀ n, P (x n) → P (x (n + 1))

/-! ## What stays -/

theorem Stable.later (h : Stable x P) {n m : ℕ} (hnm : n ≤ m) (hp : P (x n)) : P (x m) := by
  induction hnm with
  | refl => exact hp
  | step _ ih => exact h _ ih

/-- A reflexive and transitive relation between each state and the next one relates any
two moments. -/
theorem related_of_steps {r : σ → σ → Prop} (hrefl : ∀ s, r s s)
    (htrans : ∀ s₁ s₂ s₃, r s₁ s₂ → r s₂ s₃ → r s₁ s₃) (hstep : ∀ n, r (x n) (x (n + 1)))
    {n m : ℕ} (hnm : n ≤ m) : r (x n) (x m) := by
  induction hnm with
  | refl => exact hrefl _
  | step _ ih => exact htrans _ _ _ ih (hstep _)

/-! ## What comes -/

/-- **Descent.** If from every state with `P` the course comes to a state with `Q`, or to
one with `P` that measures less, then it comes to one with `Q`. -/
theorem LeadsTo.of_measure {β : Type} [Preorder β] [WellFoundedLT β] (measure : σ → β)
    (h : ∀ b, LeadsTo x (fun s => P s ∧ measure s = b)
      (fun s => Q s ∨ (P s ∧ measure s < b))) : LeadsTo x P Q := by
  intro n hp
  generalize hb : measure (x n) = b
  induction b using WellFoundedLT.induction generalizing n with
  | ind b ih =>
      obtain ⟨m, hnm, hq | ⟨hp', hlt⟩⟩ := h b n ⟨hp, hb⟩
      · exact ⟨m, hnm, hq⟩
      · obtain ⟨k, hmk, hq⟩ := ih _ hlt m hp' rfl
        exact ⟨k, hnm.trans hmk, hq⟩

/-- What is come to and stays holds from some moment on. -/
theorem LeadsTo.finally (h : LeadsTo x P Q) (hstable : Stable x Q) (hp : P (x 0)) :
    ∃ n, ∀ m, n ≤ m → Q (x m) := by
  obtain ⟨n, -, hq⟩ := h 0 hp
  exact ⟨n, fun m hnm => hstable.later hnm hq⟩

end Progress
