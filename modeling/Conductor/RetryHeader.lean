/-
The `Retry-After` header of a denied call.

`retry_after` is exact, and the header is an integer, so it has to be rounded up.
`headers` adds 0.999 and cuts off what is behind the point. That rounds up, but for
numbers less than 0.001 above an integer, which it rounds down to it; and what comes out
below one second is raised to one. So the header is early exactly when the cost is
affordable within a millisecond after some whole number of seconds, and not before.
-/
import Mathlib.Algebra.Order.Floor.Ring
import Conductor.RetryAfter

set_option autoImplicit false

open Relational

namespace Conductor

/-! ## Rounding up by truncation -/

section Rounding

variable {R : Type} [Field R] [LinearOrder R] [IsStrictOrderedRing R] [FloorRing R] {x ε : R}

/-- Adding `1 - ε` before the fraction is cut off rounds up all but the numbers that are
less than `ε` above an integer. -/
theorem le_floor_add_iff : x ≤ ⌊x + (1 - ε)⌋ ↔ ¬ ∃ n : ℤ, (n : R) < x ∧ x < n + ε := by
  constructor
  · rintro hup ⟨n, hlow, hhigh⟩
    have hdown : ⌊x + (1 - ε)⌋ ≤ n := by
      refine Int.lt_add_one_iff.mp (Int.floor_lt.mpr ?_)
      push_cast
      linarith
    have hcast : (⌊x + (1 - ε)⌋ : R) ≤ n := by exact_mod_cast hdown
    linarith
  · intro hnone
    by_contra hdown
    have hnext := Int.lt_floor_add_one (x + (1 - ε))
    exact hnone ⟨⌊x + (1 - ε)⌋, not_le.mp hdown, by linarith⟩

/-- With a result of at least one, only the integers from one on matter. -/
theorem le_max_floor_add_iff (hε : ε ≤ 1) :
    x ≤ ((max 1 ⌊x + (1 - ε)⌋ : ℤ) : R) ↔ ¬ ∃ n : ℤ, 1 ≤ n ∧ (n : R) < x ∧ x < n + ε := by
  rw [Int.cast_max, Int.cast_one, le_max_iff, le_floor_add_iff]
  constructor
  · rintro (hone | hnone) ⟨n, hn, hlow, hhigh⟩
    · have hcast : (1 : R) ≤ n := by exact_mod_cast hn
      linarith
    · exact hnone ⟨n, hlow, hhigh⟩
  · intro hnone
    rcases le_or_gt x 1 with hone | hone
    · exact .inl hone
    · refine .inr ?_
      rintro ⟨n, hlow, hhigh⟩
      -- An integer less than `ε` below a number above one is not below one.
      have hcast : (0 : R) < n := by linarith
      exact hnone ⟨n, by exact_mod_cast hcast, hlow, hhigh⟩

end Rounding

theorem pyInt_of_nonneg {q : ℚ} (hq : 0 ≤ q) : pyInt q = ⌊q⌋ := if_pos hq

/-! ## The header -/

/-- What a denied call is told to wait, in whole seconds. -/
theorem Decision.lookup_retry_after {decision : Decision} (hallowed : decision.allowed = false) :
    OrderedDict.lookup decision.headers "Retry-After" =
      some (toString (max 1 (pyInt (decision.retry_after + 999 / 1000)))) := by
  unfold Decision.headers
  rw [hallowed]
  exact (OrderedDict.lookup_set _ _ _ _).trans (if_pos rfl)

namespace TokenBucket

variable {b : TokenBucket}

/-- What a bucket holds at a reading that is not before its latest one. -/
def heldAt (b : TokenBucket) (t : ℚ) : ℚ :=
  min (b._capacity : ℚ) (b._tokens + b._refill_rate * (t - b._updated_at))

/-- A whole number of seconds after `t`, one at least, the bucket cannot afford the cost
yet, and within another millisecond it can. -/
def JustMisses (b : TokenBucket) (t : ℚ) (cost : ℤ) : Prop :=
  ∃ n : ℤ, 1 ≤ n ∧ b.heldAt t + b._refill_rate * n < cost ∧
    cost < b.heldAt t + b._refill_rate * (n + 1 / 1000)

/-- What a denied call says, from the bucket it found. -/
theorem retry_after_of_denied (hsound : b.Sound) {t : ℚ} (hlatest : b._updated_at ≤ t) {cost : ℤ}
    {decision : Decision} {denied : TokenBucket}
    (hdenied : b.try_acquire t cost = (.ok decision, denied))
    (hallowed : decision.allowed = false) :
    b.heldAt t < cost ∧ decision.retry_after = (cost - b.heldAt t) / b._refill_rate := by
  have hheld : (b.refill t)._tokens = b.heldAt t := by
    rw [refill_tokens hsound, max_eq_right hlatest]
    rfl
  rcases b.try_acquire_cases t cost with
    ⟨-, err, hcall⟩ | ⟨-, -, -, granting, hgranting, hcall⟩ |
      ⟨-, -, hshort, denying, -, hretry, hcall⟩
  · rw [hdenied] at hcall
    cases hcall
  · rw [hdenied] at hcall
    cases hcall
    rw [hallowed] at hgranting
    cases hgranting
  · rw [hdenied] at hcall
    cases hcall
    rw [hheld] at hshort hretry
    exact ⟨hshort, hretry⟩

/-- The numbers that are rounded down, as a condition on the bucket. -/
theorem justMisses_iff (hsound : b.Sound) {t : ℚ} {cost : ℤ} :
    b.JustMisses t cost ↔ ∃ n : ℤ, 1 ≤ n ∧ (n : ℚ) < (cost - b.heldAt t) / b._refill_rate ∧
      (cost - b.heldAt t) / b._refill_rate < n + 1 / 1000 := by
  refine exists_congr (fun n => and_congr_right (fun _ => and_congr ?_ ?_))
  · rw [lt_div_iff₀' hsound.rate, lt_sub_iff_add_lt']
  · rw [div_lt_iff₀' hsound.rate, sub_lt_iff_lt_add']

/-- **The header of a denied call** is late enough if and only if the bucket does not
just miss the cost. -/
theorem header_of_denied (hsound : b.Sound) {t : ℚ} (hlatest : b._updated_at ≤ t) {cost : ℤ}
    {decision : Decision} {denied : TokenBucket}
    (hdenied : b.try_acquire t cost = (.ok decision, denied))
    (hallowed : decision.allowed = false) :
    ∃ s : ℤ, 1 ≤ s ∧
      OrderedDict.lookup decision.headers "Retry-After" = some (toString s) ∧
      (decision.retry_after ≤ s ↔ ¬ b.JustMisses t cost) := by
  obtain ⟨hshort, hretry⟩ := retry_after_of_denied hsound hlatest hdenied hallowed
  have hpositive : 0 < decision.retry_after := by
    rw [hretry]
    exact div_pos (sub_pos.mpr hshort) hsound.rate
  refine ⟨_, le_max_left _ _, Decision.lookup_retry_after hallowed, ?_⟩
  have hround : (999 / 1000 : ℚ) = 1 - 1 / 1000 := by norm_num
  rw [pyInt_of_nonneg (by linarith), hround, le_max_floor_add_iff (by norm_num), hretry,
    justMisses_iff hsound]

/-- **The `Retry-After` header.** Whatever calls led to a bucket, the header of a call
that is denied at `t` is at least its `retry_after` if and only if the bucket does not
just miss the cost; and so, if nothing is taken on the way, is the same cost granted
after the seconds that the header names. -/
theorem retry_after_header_iff {capacity : ℤ} {refill_rate built : ℚ}
    (hnew : new capacity refill_rate built = .ok b) (calls : List BucketCall) {t : ℚ} {cost : ℤ}
    {decision : Decision} {denied : TokenBucket}
    (hdenied : (b.after calls calls.length).try_acquire t cost = (.ok decision, denied))
    (hallowed : decision.allowed = false)
    (hclock : ([built] ++ readings capacity calls ++ [t]).Pairwise (· ≤ ·)) :
    ∃ s : ℤ, OrderedDict.lookup decision.headers "Retry-After" = some (toString s) ∧
      (decision.retry_after ≤ s ↔ ¬ (b.after calls calls.length).JustMisses t cost) ∧
      ∀ further, denied.Idle further →
        ([t] ++ readings capacity further ++ [t + s]).Pairwise (· ≤ ·) →
        ∃ later, ((denied.after further further.length).try_acquire (t + s) cost).1 = .ok later ∧
          (later.allowed = true ↔ ¬ (b.after calls calls.length).JustMisses t cost) := by
  obtain ⟨hsound, hcapacity, hlatest⟩ := ready_of_new hnew hclock
  obtain ⟨s, -, hheader, henough⟩ := header_of_denied hsound hlatest hdenied hallowed
  refine ⟨s, hheader, henough, fun further hidle hafter => ?_⟩
  rw [← hcapacity] at hafter
  obtain ⟨later, hlater, hgranted⟩ :=
    granted_after_denial hsound hlatest hdenied hallowed hidle hafter
  exact ⟨later, hlater, hgranted.trans henough⟩

/-- Four tokens at two a second are two seconds away from an emptied bucket, and the
header says so. -/
theorem retry_after_header_iff_emptied :
    ∃ s : ℤ, OrderedDict.lookup (Decision.headers ⟨false, 0, 2, 5⟩) "Retry-After" =
        some (toString s) ∧ (2 : ℚ) ≤ s ∧
      ∃ later, ((⟨5, 2, 0, 100⟩ : TokenBucket).try_acquire (100 + s) 4).1 = .ok later ∧
        later.allowed = true := by
  have hnew : new 5 2 100 = .ok ⟨5, 2, 5, 100⟩ := by decide +kernel
  have hdenied : (TokenBucket.after ⟨5, 2, 5, 100⟩ [.try_acquire 5 100] 1).try_acquire 100 4 =
      (.ok ⟨false, 0, 2, 5⟩, ⟨5, 2, 0, 100⟩) := by decide +kernel
  obtain ⟨s, hheader, henough, hlater⟩ :=
    retry_after_header_iff hnew [.try_acquire 5 100] hdenied rfl (by decide +kernel)
  have hmeets : ¬ (TokenBucket.after ⟨5, 2, 5, 100⟩ [.try_acquire 5 100] 1).JustMisses 100 4 := by
    have hheld : (TokenBucket.after ⟨5, 2, 5, 100⟩ [.try_acquire 5 100] 1).heldAt 100 = 0 := by
      decide +kernel
    have hrate : (TokenBucket.after ⟨5, 2, 5, 100⟩ [.try_acquire 5 100] 1)._refill_rate = 2 := by
      decide +kernel
    unfold JustMisses
    rw [hheld, hrate]
    -- `2 * n` is below four, so it is at most two, and two more is not above four.
    rintro ⟨n, -, hlow, hhigh⟩
    push_cast at hlow hhigh
    have hn : n < 2 := by
      have hcast : (n : ℚ) < 2 := by linarith
      exact_mod_cast hcast
    have hcast : (n : ℚ) ≤ 1 := by exact_mod_cast Int.lt_add_one_iff.mp hn
    linarith
  have hwait : (2 : ℚ) ≤ s := henough.mpr hmeets
  obtain ⟨later, hcall, hgranted⟩ := hlater [] (fun n hn => absurd hn (Nat.not_lt_zero n))
    (by
      simp only [readings, List.filterMap_nil, List.append_nil, List.singleton_append,
        List.pairwise_cons, List.mem_singleton, forall_eq]
      exact ⟨by linarith, fun _ h => absurd h List.not_mem_nil, List.Pairwise.nil⟩)
  exact ⟨s, hheader, hwait, later, hcall, hgranted.mpr hmeets⟩

/-- An emptied bucket of five tokens at one a second, asked for two after 0.9995
seconds: they are 1.0005 seconds away, the header says one second, and after one second
the call is denied again. -/
theorem header_invites_back_early :
    new 5 1 0 = .ok ⟨5, 1, 5, 0⟩ ∧
    (TokenBucket.after ⟨5, 1, 5, 0⟩ [.try_acquire 5 0] 1).try_acquire 0.9995 2 =
      (.ok ⟨false, 0, 1.0005, 5⟩, ⟨5, 1, 0.9995, 0.9995⟩) ∧
    OrderedDict.lookup (Decision.headers ⟨false, 0, 1.0005, 5⟩) "Retry-After" =
      some (toString (1 : ℤ)) ∧
    ¬ (1.0005 : ℚ) ≤ (1 : ℤ) ∧
    ((⟨5, 1, 0.9995, 0.9995⟩ : TokenBucket).try_acquire (0.9995 + (1 : ℤ)) 2).1 =
      .ok ⟨false, 1, 0.0005, 5⟩ := by
  decide +kernel

end TokenBucket

end Conductor
