/-
Loops that wait, act, and begin again.

Each round of such a loop waits for an interval, wakes up a little late, and acts for a
little while. If that fails it pauses for another interval. What others want to know of it
is how long they may have to wait for the next success, when no more than `f` rounds fail
in a row.
-/
import Mathlib.Algebra.Order.Ring.Rat
import Mathlib.Tactic.Linarith
import Mathlib.Tactic.Positivity
import Mathlib.Tactic.Ring

set_option autoImplicit false

namespace Rounds

/-- How late a round wakes up, how long it then takes, and whether it fails. -/
structure Round where
  late : ℚ
  takes : ℚ
  fails : Bool

/-- Delays of a round that are at most `slack` together. -/
structure Round.Within (slack : ℚ) (r : Round) : Prop where
  late_nonneg : 0 ≤ r.late
  takes_nonneg : 0 ≤ r.takes
  total : r.late + r.takes ≤ slack

/-- When a round that begins at `start` has acted. -/
def Round.acted (interval start : ℚ) (r : Round) : ℚ := start + interval + r.late + r.takes

/-- When the round after it begins. -/
def Round.done (interval start : ℚ) (r : Round) : ℚ :=
  if r.fails then r.acted interval start + interval else r.acted interval start

/-- When the rounds are over. -/
def finish (interval : ℚ) : ℚ → List Round → ℚ
  | start, [] => start
  | start, r :: rest => finish interval (r.done interval start) rest

/-- The moments of success. -/
def successes (interval : ℚ) : ℚ → List Round → List ℚ
  | _, [] => []
  | start, r :: rest =>
      if r.fails then successes interval (r.done interval start) rest
      else r.acted interval start :: successes interval (r.done interval start) rest

/-- No more than `f` failures in a row, and no more than `left` before the first success. -/
def FailsAtMost (f : ℕ) : ℕ → List Round → Prop
  | _, [] => True
  | left, r :: rest =>
      if r.fails then 0 < left ∧ FailsAtMost f (left - 1) rest else FailsAtMost f f rest

instance (f : ℕ) : (left : ℕ) → (rounds : List Round) → Decidable (FailsAtMost f left rounds)
  | _, [] => isTrue trivial
  | left, r :: rest => by
      unfold FailsAtMost
      have := instDecidableFailsAtMost f (left - 1) rest
      have := instDecidableFailsAtMost f f rest
      infer_instance

/-- The longest time to the next success: `f` rounds fail, with their pauses, and one does
not. -/
def gap (interval slack : ℚ) (f : ℕ) : ℚ := f * (2 * interval + slack) + (interval + slack)

variable {interval slack : ℚ} {f : ℕ}

theorem gap_succ (interval slack : ℚ) (f : ℕ) :
    gap interval slack (f + 1) = gap interval slack f + (2 * interval + slack) := by
  unfold gap
  push_cast
  ring

theorem gap_mono (hinterval : 0 ≤ interval) (hslack : 0 ≤ slack) (f : ℕ) :
    interval + slack ≤ gap interval slack f := by
  unfold gap
  have hsome : 0 ≤ f * (2 * interval + slack) := by positivity
  linarith

/-- **The last success is never long ago,** while the loop goes on. -/
theorem exists_success (hinterval : 0 < interval) (hslack : 0 ≤ slack) {start T : ℚ} {left : ℕ}
    {rounds : List Round} (hrounds : ∀ r ∈ rounds, r.Within slack)
    (hfails : FailsAtMost f left rounds) (hlong : start + gap interval slack left ≤ T)
    (hlast : T ≤ finish interval start rounds) :
    ∃ s ∈ successes interval start rounds, s ≤ T ∧ T ≤ s + gap interval slack f := by
  induction rounds generalizing start left with
  | nil =>
      have hpos := gap_mono hinterval.le hslack left
      rw [finish] at hlast
      exfalso
      linarith
  | cons r rest ih =>
      have hr := hrounds r List.mem_cons_self
      have hrest : ∀ r ∈ rest, r.Within slack := fun s hs => hrounds s (List.mem_cons_of_mem r hs)
      have hacted : r.acted interval start ≤ start + (interval + slack) := by
        have htotal := hr.total
        unfold Round.acted
        linarith
      rw [FailsAtMost] at hfails
      rw [finish] at hlast
      by_cases hfail : r.fails = true
      · rw [if_pos hfail] at hfails
        obtain ⟨hpos, hfails⟩ := hfails
        obtain ⟨m, rfl⟩ := Nat.exists_eq_add_of_lt hpos
        rw [Nat.zero_add, Nat.add_sub_cancel] at hfails
        have hdone : r.done interval start = r.acted interval start + interval := if_pos hfail
        rw [successes, if_pos hfail]
        refine ih hrest hfails ?_ hlast
        rw [Nat.zero_add, gap_succ] at hlong
        rw [hdone]
        linarith
      · rw [if_neg hfail] at hfails
        have hdone : r.done interval start = r.acted interval start := if_neg hfail
        rw [successes, if_neg hfail]
        have hbefore : r.acted interval start ≤ T := by
          have hmono := gap_mono hinterval.le hslack left
          linarith
        -- It is this one, or a later one follows in time.
        rcases le_or_gt T (r.acted interval start + gap interval slack f) with hle | hlt
        · exact ⟨_, List.mem_cons_self, hbefore, hle⟩
        · obtain ⟨s, hs, hbounds⟩ := ih hrest hfails (hdone ▸ hlt.le) hlast
          exact ⟨s, List.mem_cons_of_mem _ hs, hbounds⟩

end Rounds
