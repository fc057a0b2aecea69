/-
How long a failed attempt waits.

Whatever a policy computes is clamped to `[0, MAX_DELAY_SECONDS]`. Before that,
`ExponentialBackoff` takes a power of its factor, cuts it at `max_delay`, and draws from
what is below if it jitters. The exponent is cut too, at 64, so that the power stays a
number in floating point.

Cutting the exponent keeps every bound and the order of the delays, since the factor is
at least one. It does not keep the delays themselves: past attempt 65 they no longer
grow, and that goes unnoticed only if a ceiling had been reached by then, or if there is
nothing that could grow.
-/
import Mathlib.Algebra.Order.GroupWithZero.Basic
import Conductor.Retry

set_option autoImplicit false

namespace Conductor

/-! ## Powers under a cap -/

section Powers

variable {R : Type} [Field R] [LinearOrder R] [IsStrictOrderedRing R] {b r : R} {m n : ℤ}

theorem scaled_zpow_le (hb : 0 ≤ b) (hr : 1 ≤ r) (hmn : m ≤ n) : b * r ^ m ≤ b * r ^ n :=
  mul_le_mul_of_nonneg_left (zpow_le_zpow_right₀ hr hmn) hb

/-- A higher power is a larger number, unless there is nothing that could grow. -/
theorem scaled_zpow_eq_iff (hr : 1 ≤ r) (hmn : m < n) :
    b * r ^ m = b * r ^ n ↔ b = 0 ∨ r = 1 := by
  constructor
  · intro heq
    rcases mul_eq_mul_left_iff.mp heq with hpow | hzero
    · refine .inr (le_antisymm (not_lt.mp (fun hgrows => ?_)) hr)
      exact (zpow_right_strictMono₀ hgrows hmn).ne hpow
    · exact .inl hzero
  · rintro (rfl | rfl)
    · rw [zero_mul, zero_mul]
    · rw [one_zpow, one_zpow]

end Powers

/-- A cap hides that one number is smaller than another if it is not above the smaller
one. -/
theorem min_eq_min_iff_of_le {T : Type} [LinearOrder T] {x y c : T} (hxy : x ≤ y) :
    min x c = min y c ↔ x = y ∨ c ≤ x := by
  constructor
  · intro heq
    rcases le_total c x with hcap | hcap
    · exact .inr hcap
    · rw [min_eq_left hcap] at heq
      rcases min_choice y c with hy | hc
      · exact .inl (heq.trans hy)
      · exact .inr (hc.symm.trans heq.symm).le
  · rintro (rfl | hcap)
    · rfl
    · rw [min_eq_right hcap, min_eq_right (hcap.trans hxy)]

/-! ## Before the clamp -/

namespace ExponentialBackoff

variable (p : ExponentialBackoff)

/-- `raw`: the delay without jitter, and the range that jitter draws from. -/
def window (attempt : ℤ) : ℚ := min (p.base * p.factor ^ min (attempt - 1) 64) p.max_delay

theorem compute_delay_eq (uniform : ℚ → ℚ) (attempt : ℤ) :
    p.compute_delay uniform attempt =
      if p.jitter then uniform (p.window attempt) else p.window attempt := rfl

theorem window_nonneg (attempt : ℤ) : 0 ≤ p.window attempt := by
  have hpower : 0 ≤ p.factor ^ min (attempt - 1) 64 :=
    zpow_nonneg (zero_le_one.trans p.factor_ge) _
  exact le_min (mul_nonneg p.base_nonneg hpower) p.max_delay_pos.le

theorem window_le_max_delay (attempt : ℤ) : p.window attempt ≤ p.max_delay := min_le_right _ _

/-- The cut takes away from the power and adds nothing. -/
theorem window_le_formula (attempt : ℤ) :
    p.window attempt ≤ p.base * p.factor ^ (attempt - 1) :=
  (min_le_left _ _).trans (scaled_zpow_le p.base_nonneg p.factor_ge (min_le_left _ _))

theorem window_mono {attempt later : ℤ} (hle : attempt ≤ later) :
    p.window attempt ≤ p.window later := by
  have hexponent : min (attempt - 1) 64 ≤ min (later - 1) 64 :=
    min_le_min (by omega) (le_refl 64)
  exact min_le_min (scaled_zpow_le p.base_nonneg p.factor_ge hexponent) (le_refl _)

end ExponentialBackoff

/-! ## The delay of an attempt -/

/-- What is asked of the generator: `rng.uniform(0.0, x)` lies between 0 and `x`. -/
def InRange (uniform : ℚ → ℚ) : Prop := ∀ x, 0 ≤ x → 0 ≤ uniform x ∧ uniform x ≤ x

namespace RetryPolicy

variable {p : RetryPolicy} {uniform : ℚ → ℚ} {attempt : ℤ}

/-- With an attempt left the delay is what the policy computes, clamped. -/
theorem next_delay_of_lt (hfirst : 1 ≤ attempt) (hleft : attempt < p.max_attempts) :
    p.next_delay uniform attempt = (p.compute_delay uniform attempt).map
      (fun delay => some (min (max 0 delay) MAX_DELAY_SECONDS)) := by
  have hretry : p.should_retry attempt = true := decide_eq_true hleft
  unfold next_delay
  rw [if_neg (not_lt.mpr hfirst), hretry, if_neg (by decide)]
  cases p.compute_delay uniform attempt <;> rfl

/-- The last attempt is not followed by another. -/
theorem next_delay_eq_none_iff (hfirst : 1 ≤ attempt) :
    p.next_delay uniform attempt = .ok none ↔ p.max_attempts ≤ attempt := by
  rcases p.next_delay_spec uniform hfirst with ⟨hspent, hnone⟩ | ⟨hleft, delay, hsome⟩
  · exact iff_of_true hnone hspent
  · refine iff_of_false (fun hnone => ?_) (not_le.mpr hleft)
    rw [hsome] at hnone
    cases hnone

/-- A policy whose own delay lies in `[0, m]` waits no longer than `m`. -/
theorem clamp_le {delay m : ℚ} (hlow : 0 ≤ delay) (hhigh : delay ≤ m) :
    min (max 0 delay) MAX_DELAY_SECONDS ≤ m :=
  (min_le_left _ _).trans ((max_eq_right hlow).le.trans hhigh)

theorem clamp_bounds (delay : ℚ) :
    0 ≤ min (max 0 delay) MAX_DELAY_SECONDS ∧
      min (max 0 delay) MAX_DELAY_SECONDS ≤ MAX_DELAY_SECONDS :=
  ⟨le_min (le_max_left _ _) (by norm_num [MAX_DELAY_SECONDS]), min_le_right _ _⟩

theorem clamp_mono {delay later : ℚ} (hle : delay ≤ later) :
    min (max 0 delay) MAX_DELAY_SECONDS ≤ min (max 0 later) MAX_DELAY_SECONDS :=
  min_le_min (max_le_max (le_refl 0) hle) (le_refl _)

/-- Jitter or not, a delay is drawn from the window. -/
theorem compute_delay_window (q : Conductor.ExponentialBackoff) (huniform : InRange uniform)
    (attempt : ℤ) :
    0 ≤ q.compute_delay uniform attempt ∧
      q.compute_delay uniform attempt ≤ q.window attempt := by
  have hwindow := q.window_nonneg attempt
  rw [q.compute_delay_eq]
  cases q.jitter with
  | true => exact huniform _ hwindow
  | false => exact ⟨hwindow, le_refl _⟩

/-- A delay is only given while an attempt is left. -/
theorem lt_of_next_delay (hfirst : 1 ≤ attempt) {delay : ℚ}
    (hrun : p.next_delay uniform attempt = .ok (some delay)) : attempt < p.max_attempts := by
  rcases p.next_delay_spec uniform hfirst with ⟨-, hnone⟩ | ⟨hleft, -⟩
  · rw [hrun] at hnone
    cases hnone
  · exact hleft

/-- A policy that draws no random numbers. -/
def Steady : RetryPolicy → Prop
  | .ExponentialBackoff q => q.jitter = false
  | _ => True

/-- What a policy without jitter computes does not decrease. -/
theorem Steady.compute_delay_mono (h : p.Steady) {uniform' : ℚ → ℚ} {later : ℤ}
    (hle : attempt ≤ later) {delay delay' : ℚ} (hrun : p.compute_delay uniform attempt = .ok delay)
    (hrun' : p.compute_delay uniform' later = .ok delay') : delay ≤ delay' := by
  cases p with
  | NoRetry => cases hrun
  | FixedDelay q =>
      cases hrun
      cases hrun'
      exact le_refl _
  | ExponentialBackoff q =>
      have hjitter : q.jitter = false := h
      cases hrun
      cases hrun'
      rw [q.compute_delay_eq, q.compute_delay_eq, hjitter, if_neg Bool.false_ne_true,
        if_neg Bool.false_ne_true]
      exact q.window_mono hle

/-- **Retry delays are bounded, monotone and finite in number**, for every policy, every
attempt from the first on and every generator. `next_delay` raises nothing there, so
`NoRetry.compute_delay` is not reached. -/
theorem next_delay_bounded (p : RetryPolicy) :
    (∀ uniform, InRange uniform → ∀ attempt, 1 ≤ attempt →
      (p.next_delay uniform attempt = .ok none ↔ p.max_attempts ≤ attempt) ∧
      (attempt < p.max_attempts → ∃ delay, p.next_delay uniform attempt = .ok (some delay) ∧
        0 ≤ delay ∧ delay ≤ MAX_DELAY_SECONDS ∧
        ∀ q, p = .ExponentialBackoff q →
          delay ≤ q.max_delay ∧ delay ≤ q.base * q.factor ^ (attempt - 1))) ∧
    (p.Steady → ∀ uniform uniform' attempt later delay delay', 1 ≤ attempt → attempt ≤ later →
      p.next_delay uniform attempt = .ok (some delay) →
      p.next_delay uniform' later = .ok (some delay') → delay ≤ delay') := by
  refine ⟨fun uniform huniform attempt hfirst => ⟨next_delay_eq_none_iff hfirst, fun hleft => ?_⟩,
    fun hsteady uniform uniform' attempt later delay delay' hfirst hle hrun hrun' => ?_⟩
  · rw [next_delay_of_lt hfirst hleft]
    cases p with
    | NoRetry => exact absurd hfirst (not_le.mpr hleft)
    | FixedDelay q =>
        exact ⟨_, rfl, (clamp_bounds q.delay).1, (clamp_bounds q.delay).2, fun q' hq => by cases hq⟩
    | ExponentialBackoff q =>
        -- Both bounds hold of the window that the delay is drawn from.
        obtain ⟨hlow, hhigh⟩ := compute_delay_window q huniform attempt
        refine ⟨_, rfl, (clamp_bounds _).1, (clamp_bounds _).2, fun q' hq => ?_⟩
        cases hq
        exact ⟨clamp_le hlow (hhigh.trans (q.window_le_max_delay attempt)),
          clamp_le hlow (hhigh.trans (q.window_le_formula attempt))⟩
  -- Both delays are there, so both come out of the same clamp.
  · rw [next_delay_of_lt hfirst (lt_of_next_delay hfirst hrun)] at hrun
    have hsecond := hfirst.trans hle
    rw [next_delay_of_lt hsecond (lt_of_next_delay hsecond hrun')] at hrun'
    cases hdelay : p.compute_delay uniform attempt with
    | error err =>
        rw [hdelay] at hrun
        cases hrun
    | ok computed =>
        cases hdelay' : p.compute_delay uniform' later with
        | error err =>
            rw [hdelay'] at hrun'
            cases hrun'
        | ok computed' =>
            rw [hdelay] at hrun
            rw [hdelay'] at hrun'
            cases hrun
            cases hrun'
            exact clamp_mono (hsteady.compute_delay_mono hle hdelay hdelay')

/-- `ExponentialBackoff(attempts=10000, jitter=False)` -/
def doubling : Conductor.ExponentialBackoff where
  base := 1
  factor := 2
  attempts := 10000
  max_delay := 300
  jitter := false
  attempts_pos := by decide
  base_nonneg := zero_le_one
  factor_ge := one_le_two
  max_delay_pos := by decide +kernel

/-- The third attempt and the fourth are followed by longer and longer delays, the last by
none. -/
theorem next_delay_bounded_doubling :
    (ExponentialBackoff doubling).next_delay id 10000 = .ok none ∧
    ∃ delay delay', (ExponentialBackoff doubling).next_delay id 3 = .ok (some delay) ∧
      (ExponentialBackoff doubling).next_delay id 4 = .ok (some delay') ∧ 0 ≤ delay ∧
      delay ≤ delay' ∧ delay' ≤ doubling.max_delay ∧
      delay' ≤ doubling.base * doubling.factor ^ (4 - 1 : ℤ) := by
  have hrange : InRange id := fun x hx => ⟨hx, le_refl x⟩
  obtain ⟨hbounds, hmono⟩ := next_delay_bounded (ExponentialBackoff doubling)
  obtain ⟨delay, hdelay, hlow, -⟩ := (hbounds id hrange 3 (by decide)).2 (by decide)
  obtain ⟨delay', hdelay', -, -, hceiling⟩ := (hbounds id hrange 4 (by decide)).2 (by decide)
  exact ⟨(hbounds id hrange 10000 (by decide)).1.mpr (by decide), delay, delay', hdelay, hdelay',
    hlow, hmono rfl id id 3 4 delay delay' (by decide) (by decide) hdelay hdelay',
    hceiling doubling rfl⟩

/-! ## The formula -/

/-- What a policy without jitter waits. -/
theorem next_delay_steady (q : Conductor.ExponentialBackoff) (hjitter : q.jitter = false)
    (hfirst : 1 ≤ attempt) (hleft : attempt < q.attempts) :
    (ExponentialBackoff q).next_delay uniform attempt =
      .ok (some (min (q.base * q.factor ^ min (attempt - 1) 64)
        (min q.max_delay MAX_DELAY_SECONDS))) := by
  have hcompute : q.compute_delay uniform attempt = q.window attempt := by
    rw [q.compute_delay_eq, hjitter, if_neg Bool.false_ne_true]
  have hretry : attempt < (ExponentialBackoff q).max_attempts := hleft
  rw [next_delay_of_lt hfirst hretry]
  show Except.ok (some (min (max 0 (q.compute_delay uniform attempt)) MAX_DELAY_SECONDS)) = _
  rw [hcompute, max_eq_right (q.window_nonneg attempt), ExponentialBackoff.window, min_assoc]

/-- **Backoff follows its formula** at an attempt if and only if the exponent is not cut
there, there is nothing that could grow, or the power at which it is cut has reached one
of the two ceilings. -/
theorem backoff_formula_iff (q : Conductor.ExponentialBackoff) (hjitter : q.jitter = false)
    (uniform : ℚ → ℚ) {attempt : ℤ} (hfirst : 1 ≤ attempt) (hleft : attempt < q.attempts) :
    (ExponentialBackoff q).next_delay uniform attempt =
        .ok (some (min (min (q.base * q.factor ^ (attempt - 1)) q.max_delay) MAX_DELAY_SECONDS)) ↔
      attempt ≤ 65 ∨ q.base = 0 ∨ q.factor = 1 ∨ q.max_delay ≤ q.base * q.factor ^ 64 ∨
        MAX_DELAY_SECONDS ≤ q.base * q.factor ^ 64 := by
  rw [next_delay_steady q hjitter hfirst hleft, Except.ok.injEq, Option.some.injEq, min_assoc]
  by_cases hcut : attempt ≤ 65
  · rw [min_eq_left (by omega : attempt - 1 ≤ 64)]
    exact iff_of_true rfl (.inl hcut)
  · have hexponent : (64 : ℤ) < attempt - 1 := by omega
    rw [min_eq_right hexponent.le, min_eq_min_iff_of_le
      (scaled_zpow_le q.base_nonneg q.factor_ge hexponent.le),
      scaled_zpow_eq_iff q.factor_ge hexponent, min_le_iff, or_assoc, or_iff_right hcut]
    rfl

/-- A factor of two reaches a ceiling of 300 seconds long before. -/
theorem backoff_formula_iff_doubling :
    (ExponentialBackoff doubling).next_delay id 5000 =
      .ok (some (min (min (doubling.base * doubling.factor ^ (5000 - 1 : ℤ)) doubling.max_delay)
        MAX_DELAY_SECONDS)) := by
  have hceiling : doubling.max_delay ≤ doubling.base * doubling.factor ^ 64 := by decide +kernel
  exact (backoff_formula_iff doubling rfl id (by decide) (by decide)).mpr
    (.inr (.inr (.inr (.inl hceiling))))

/-- `ExponentialBackoff(factor=1.01, attempts=100, jitter=False)` -/
def onePercent : Conductor.ExponentialBackoff where
  base := 1
  factor := 101 / 100
  attempts := 100
  max_delay := 300
  jitter := false
  attempts_pos := by decide
  base_nonneg := zero_le_one
  factor_ge := by decide +kernel
  max_delay_pos := by decide +kernel

/-- With one percent more each time, attempt 67 waits no longer than attempt 65. By the
formula it would. -/
theorem slow_backoff_stalls :
    (ExponentialBackoff onePercent).next_delay id 67 = .ok (some ((101 / 100) ^ 64)) ∧
    min (min (onePercent.base * onePercent.factor ^ (67 - 1 : ℤ)) onePercent.max_delay)
      MAX_DELAY_SECONDS = (101 / 100) ^ 66 ∧
    ((101 / 100 : ℚ) ^ 64 ≠ (101 / 100) ^ 66) := by
  decide +kernel

end RetryPolicy

end Conductor
