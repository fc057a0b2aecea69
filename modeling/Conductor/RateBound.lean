/-
What a token bucket grants.

A bucket is called again and again, and each call brings its own reading of the
clock; the readings may step back. Two facts about one call carry everything. A call
leaves at most `capacity` behind of what it granted and what stays in the bucket
together; and it pays for both from what was in the bucket before, plus what accrued
since the latest reading so far. The first opens a window of calls, the second extends
it, and the sum over the window telescopes.
-/
import Mathlib.Algebra.BigOperators.Intervals
import Mathlib.Tactic.Linarith
import Mathlib.Tactic.Ring
import Mathlib.Tactic.Positivity
import Conductor.Lib.Runs
import Conductor.RateLimit

set_option autoImplicit false

open Finset

namespace Conductor

/-! ## Windows

The accounting of a window, apart from buckets: `grant n` leaves `level n` for
`level (n + 1)`, out of what `clock` moved on. -/

/-- **The window bound.** Grants that leave at most `cap`, each paid for by the level
before it and by `rate` for the time that passed, sum up over every window to at most
`cap` and `rate` for the time from the first of them to the last. -/
theorem sum_window_le {grant level clock : ℕ → ℚ} {cap rate : ℚ}
    (hopen : ∀ n, grant n + level (n + 1) ≤ cap)
    (hpay : ∀ n, grant n + level (n + 1) ≤ level n + rate * (clock (n + 1) - clock n))
    {i j : ℕ} (hij : i ≤ j) :
    ∑ n ∈ Icc i j, grant n + level (j + 1) ≤ cap + rate * (clock (j + 1) - clock (i + 1)) := by
  -- On the end of the window: the first call opens it, every later one extends it.
  induction j, hij using Nat.le_induction with
  | base =>
      rw [Icc_self, sum_singleton, sub_self, mul_zero, add_zero]
      exact hopen i
  | succ j hij ih =>
      rw [sum_Icc_succ_top (Nat.le_succ_of_le hij)]
      have hnext := hpay (j + 1)
      linarith

/-! ## One call -/

/-- A call of a bucket, with what the clock says while it runs. -/
inductive BucketCall where
  | try_acquire (cost : ℤ) (now : ℚ)
  | tokens (now : ℚ)
deriving DecidableEq

/-- What a call returns or raises. -/
inductive BucketReply where
  | decided (outcome : Except Exn Decision)
  | held (tokens : ℚ)

namespace TokenBucket

def perform (b : TokenBucket) : BucketCall → BucketReply × TokenBucket
  | .try_acquire cost now => ((b.try_acquire now cost).1 |> .decided, (b.try_acquire now cost).2)
  | .tokens now => ((b.tokens now).1 |> .held, (b.tokens now).2)

/-- The cost a call was granted. -/
def granted : BucketCall → BucketReply → ℤ
  | .try_acquire cost _, .decided (.ok decision) => if decision.allowed then cost else 0
  | _, _ => 0

/-- The latest reading so far. A cost that no bucket of the capacity can hold is
refused before the clock is read. -/
def latest (capacity : ℤ) (sofar : ℚ) : BucketCall → ℚ
  | .try_acquire cost now => if 1 ≤ cost ∧ cost ≤ capacity then max sofar now else sofar
  | .tokens now => max sofar now

/-- A bucket its constructor accepts, holding between nothing and its capacity. -/
structure Sound (b : TokenBucket) : Prop where
  capacity : 1 ≤ b._capacity
  rate : 0 < b._refill_rate
  nonneg : 0 ≤ b._tokens
  bounded : b._tokens ≤ b._capacity

variable {b : TokenBucket}

theorem new_ok {capacity : ℤ} {refill_rate : ℚ} (hcap : 1 ≤ capacity) (hrate : 0 < refill_rate)
    (now : ℚ) : new capacity refill_rate now = .ok ⟨capacity, refill_rate, capacity, now⟩ := by
  unfold new
  rw [if_neg (not_lt.mpr hcap), if_neg (not_le.mpr hrate)]

theorem sound_new {capacity : ℤ} {refill_rate now : ℚ} (hcap : 1 ≤ capacity)
    (hrate : 0 < refill_rate) : Sound ⟨capacity, refill_rate, capacity, now⟩ where
  capacity := hcap
  rate := hrate
  nonneg := by
    have : (1 : ℚ) ≤ capacity := by exact_mod_cast hcap
    linarith
  bounded := le_refl _

@[simp] theorem refill_capacity (now : ℚ) : (b.refill now)._capacity = b._capacity := by
  unfold refill
  dsimp only
  split <;> rfl

@[simp] theorem refill_refill_rate (now : ℚ) : (b.refill now)._refill_rate = b._refill_rate := by
  unfold refill
  dsimp only
  split <;> rfl

theorem refill_updated_at (now : ℚ) : (b.refill now)._updated_at = max b._updated_at now := by
  unfold refill
  dsimp only
  split
  · rename_i hback
    exact (max_eq_left (by linarith)).symm
  · rename_i hpassed
    exact (max_eq_right (by linarith)).symm

/-- What a bucket holds after a refill: what accrued since its latest reading is added,
up to the capacity. A reading that steps back adds nothing. -/
theorem refill_tokens (h : b.Sound) (now : ℚ) :
    (b.refill now)._tokens =
      min (b._capacity : ℚ)
        (b._tokens + b._refill_rate * (max b._updated_at now - b._updated_at)) := by
  unfold refill
  dsimp only
  split
  · rename_i hback
    rw [max_eq_left (by linarith : now ≤ b._updated_at), sub_self, mul_zero, add_zero,
      min_eq_right h.bounded]
  · rename_i hpassed
    rw [max_eq_right (by linarith : b._updated_at ≤ now), mul_comm]

theorem Sound.refill (h : b.Sound) (now : ℚ) : (b.refill now).Sound where
  capacity := by
    rw [refill_capacity]
    exact h.capacity
  rate := by
    rw [refill_refill_rate]
    exact h.rate
  nonneg := by
    rw [refill_tokens h]
    have hcap : (1 : ℚ) ≤ b._capacity := by exact_mod_cast h.capacity
    have hpassed : 0 ≤ max b._updated_at now - b._updated_at :=
      sub_nonneg.mpr (le_max_left _ _)
    have haccrued := mul_nonneg h.rate.le hpassed
    have hheld := h.nonneg
    exact le_min (by linarith) (by linarith)
  bounded := by
    rw [refill_tokens h, refill_capacity]
    exact min_le_left _ _

def withTokens (b : TokenBucket) (tokens : ℚ) : TokenBucket := { b with _tokens := tokens }

/-- What `try_acquire` does, case by case. -/
theorem try_acquire_cases (b : TokenBucket) (now : ℚ) (cost : ℤ) :
    (¬ (1 ≤ cost ∧ cost ≤ b._capacity) ∧
      ∃ err, b.try_acquire now cost = (.error (.ValueError err), b)) ∨
    (1 ≤ cost ∧ cost ≤ b._capacity ∧ (cost : ℚ) ≤ (b.refill now)._tokens ∧
      ∃ decision, decision.allowed = true ∧ b.try_acquire now cost =
        (.ok decision, (b.refill now).withTokens ((b.refill now)._tokens - cost))) ∨
    (1 ≤ cost ∧ cost ≤ b._capacity ∧ (b.refill now)._tokens < cost ∧
      ∃ decision, decision.allowed = false ∧
        decision.retry_after = (cost - (b.refill now)._tokens) / b._refill_rate ∧
        b.try_acquire now cost = (.ok decision, b.refill now)) := by
  unfold try_acquire
  by_cases hlow : cost < 1
  · exact .inl ⟨fun h => absurd h.1 (not_le.mpr hlow), _, if_pos hlow⟩
  rw [if_neg hlow]
  by_cases hhigh : cost > b._capacity
  · exact .inl ⟨fun h => absurd h.2 (not_le.mpr hhigh), _, if_pos hhigh⟩
  rw [if_neg hhigh]
  dsimp only
  -- From here on the bucket has been refilled, granted or not.
  by_cases henough : (b.refill now)._tokens ≥ cost
  · rw [if_pos henough]
    exact .inr (.inl ⟨not_lt.mp hlow, not_lt.mp hhigh, henough, _, rfl, rfl⟩)
  · rw [if_neg henough]
    refine .inr (.inr ⟨not_lt.mp hlow, not_lt.mp hhigh, not_le.mp henough, _, rfl, ?_, rfl⟩)
    rw [refill_refill_rate]

theorem perform_try_acquire {now : ℚ} {cost : ℤ} {outcome : Except Exn Decision}
    {b' : TokenBucket} (hrun : b.try_acquire now cost = (outcome, b')) :
    b.perform (.try_acquire cost now) = (.decided outcome, b') := by
  show (BucketReply.decided (b.try_acquire now cost).1, (b.try_acquire now cost).2) = _
  rw [hrun]

/-- What one call keeps, and what it grants. -/
structure Accounted (b : TokenBucket) (call : BucketCall) : Prop where
  sound : (b.perform call).2.Sound
  capacity : (b.perform call).2._capacity = b._capacity
  rate : (b.perform call).2._refill_rate = b._refill_rate
  clock : (b.perform call).2._updated_at = latest b._capacity b._updated_at call
  -- What is granted and what is left come to no more than the capacity,
  opens : granted call (b.perform call).1 + (b.perform call).2._tokens ≤ b._capacity
  -- and to no more than what was there and what accrued.
  pays : granted call (b.perform call).1 + (b.perform call).2._tokens ≤
    b._tokens + b._refill_rate * (latest b._capacity b._updated_at call - b._updated_at)

theorem accounted_of_refill (h : b.Sound) {call : BucketCall} {now : ℚ}
    (hstate : (b.perform call).2 = b.refill now)
    (hgrant : granted call (b.perform call).1 = 0)
    (hlatest : latest b._capacity b._updated_at call = max b._updated_at now) :
    b.Accounted call where
  sound := by
    rw [hstate]
    exact h.refill now
  capacity := by rw [hstate, refill_capacity]
  rate := by rw [hstate, refill_refill_rate]
  clock := by rw [hstate, hlatest, refill_updated_at]
  opens := by
    rw [hstate, hgrant, Int.cast_zero, zero_add, refill_tokens h]
    exact min_le_left _ _
  pays := by
    rw [hstate, hgrant, hlatest, Int.cast_zero, zero_add, refill_tokens h]
    exact min_le_right _ _

/-- **One call is accounted for**, whatever its cost and its reading. -/
theorem accounted (h : b.Sound) (call : BucketCall) : b.Accounted call := by
  cases call with
  | tokens now => exact accounted_of_refill h rfl rfl rfl
  | try_acquire cost now =>
      rcases b.try_acquire_cases now cost with
        ⟨hinvalid, err, hrun⟩ | ⟨hlow, hhigh, henough, decision, hallowed, hrun⟩ |
          ⟨hlow, hhigh, hshort, decision, hdenied, -, hrun⟩
      · -- A refused cost touches nothing.
        have hperform := perform_try_acquire hrun
        have hlatest : latest b._capacity b._updated_at (.try_acquire cost now) =
            b._updated_at := if_neg hinvalid
        have hbounded := h.bounded
        constructor
        · rw [hperform]
          exact h
        · rw [hperform]
        · rw [hperform]
        · rw [hperform, hlatest]
        · rw [hperform]
          simpa [granted] using hbounded
        · rw [hperform, hlatest]
          simp [granted]
      · -- A granted cost comes out of the refilled bucket.
        have hperform := perform_try_acquire hrun
        have hlatest : latest b._capacity b._updated_at (.try_acquire cost now) =
            max b._updated_at now := if_pos ⟨hlow, hhigh⟩
        have hgrant : granted (.try_acquire cost now) (.decided (.ok decision)) = cost :=
          if_pos hallowed
        have hrefilled := h.refill now
        have hcost : (1 : ℚ) ≤ cost := by exact_mod_cast hlow
        constructor
        · rw [hperform]
          refine ⟨hrefilled.capacity, hrefilled.rate, sub_nonneg.mpr henough, ?_⟩
          have hfull : (b.refill now)._tokens ≤ (b.refill now)._capacity := hrefilled.bounded
          show (b.refill now)._tokens - cost ≤ (b.refill now)._capacity
          linarith
        · rw [hperform]
          exact refill_capacity now
        · rw [hperform]
          exact refill_refill_rate now
        · rw [hperform, hlatest]
          exact refill_updated_at now
        · rw [hperform, hgrant]
          show cost + ((b.refill now)._tokens - cost) ≤ (b._capacity : ℚ)
          rw [add_sub_cancel, refill_tokens h]
          exact min_le_left _ _
        · rw [hperform, hgrant, hlatest]
          show cost + ((b.refill now)._tokens - cost) ≤ _
          rw [add_sub_cancel, refill_tokens h]
          exact min_le_right _ _
      · -- A denied call refills all the same.
        have hperform := perform_try_acquire hrun
        have hstate : (b.perform (.try_acquire cost now)).2 = b.refill now := by rw [hperform]
        refine accounted_of_refill h hstate ?_ (if_pos ⟨hlow, hhigh⟩)
        rw [hperform]
        exact if_neg (by rw [hdenied]; exact Bool.false_ne_true)

/-! ## Every run -/

/-- The bucket after the first `n` calls. -/
def after (b : TokenBucket) (calls : List BucketCall) (n : ℕ) : TokenBucket :=
  (calls.take n).foldl (fun b call => (b.perform call).2) b

/-- The cost that call `n` was granted. -/
def grantAt (b : TokenBucket) (calls : List BucketCall) (n : ℕ) : ℤ :=
  match calls[n]? with
  | some call => granted call ((b.after calls n).perform call).1
  | none => 0

/-- The latest reading of the clock in the first `n` calls and in the constructor. -/
def latestAt (capacity : ℤ) (built : ℚ) (calls : List BucketCall) (n : ℕ) : ℚ :=
  (calls.take n).foldl (latest capacity) built

theorem after_succ {calls : List BucketCall} {n : ℕ} {call : BucketCall}
    (hcall : calls[n]? = some call) :
    b.after calls (n + 1) = ((b.after calls n).perform call).2 := by
  unfold after
  rw [List.take_add_one, hcall, Option.toList_some, List.foldl_append]
  rfl

theorem latestAt_succ {capacity : ℤ} {built : ℚ} {calls : List BucketCall} {n : ℕ}
    {call : BucketCall} (hcall : calls[n]? = some call) :
    latestAt capacity built calls (n + 1) =
      latest capacity (latestAt capacity built calls n) call := by
  unfold latestAt
  rw [List.take_add_one, hcall, Option.toList_some, List.foldl_append]
  rfl

/-- After the last call nothing changes any more. -/
theorem take_succ_of_none {calls : List BucketCall} {n : ℕ} (hcall : calls[n]? = none) :
    calls.take (n + 1) = calls.take n := by
  rw [List.take_add_one, hcall, Option.toList_none, List.append_nil]

/-- What every state of a run satisfies: the bucket is sound, its settings are those it
was built with, and it was last refilled at the latest reading so far. -/
structure Run (b : TokenBucket) (calls : List BucketCall) (n : ℕ) : Prop where
  sound : (b.after calls n).Sound
  capacity : (b.after calls n)._capacity = b._capacity
  rate : (b.after calls n)._refill_rate = b._refill_rate
  clock : (b.after calls n)._updated_at = latestAt b._capacity b._updated_at calls n

theorem run (h : b.Sound) (calls : List BucketCall) (n : ℕ) : b.Run calls n := by
  induction n with
  | zero => exact ⟨h, rfl, rfl, rfl⟩
  | succ n ih =>
      -- Past the last call nothing changes; before it one call is accounted for.
      rcases hcall : calls[n]? with _ | call
      · have hsame : b.after calls (n + 1) = b.after calls n := by
          unfold after
          rw [take_succ_of_none hcall]
        have hclock : latestAt b._capacity b._updated_at calls (n + 1) =
            latestAt b._capacity b._updated_at calls n := by
          unfold latestAt
          rw [take_succ_of_none hcall]
        constructor
        · rw [hsame]
          exact ih.sound
        · rw [hsame]
          exact ih.capacity
        · rw [hsame]
          exact ih.rate
        · rw [hsame, hclock]
          exact ih.clock
      · have hstep := accounted ih.sound call
        constructor
        · rw [after_succ hcall]
          exact hstep.sound
        · rw [after_succ hcall, hstep.capacity, ih.capacity]
        · rw [after_succ hcall, hstep.rate, ih.rate]
        · rw [after_succ hcall, hstep.clock, latestAt_succ hcall, ih.capacity, ih.clock]

/-- Every call of a run leaves no more than the capacity of what it granted and what
stays. -/
theorem grantAt_opens (h : b.Sound) (calls : List BucketCall) (n : ℕ) :
    (b.grantAt calls n : ℚ) + (b.after calls (n + 1))._tokens ≤ b._capacity := by
  have hrun := run h calls n
  unfold grantAt
  rcases hcall : calls[n]? with _ | call
  · have hlast := (run h calls (n + 1)).sound.bounded
    rw [(run h calls (n + 1)).capacity] at hlast
    simpa using hlast
  · have hstep := (accounted hrun.sound call).opens
    rw [hrun.capacity] at hstep
    rw [after_succ hcall]
    exact hstep

/-- Every call of a run pays out of the bucket and of the time that passed. -/
theorem grantAt_pays (h : b.Sound) (calls : List BucketCall) (n : ℕ) :
    (b.grantAt calls n : ℚ) + (b.after calls (n + 1))._tokens ≤
      (b.after calls n)._tokens + b._refill_rate *
        (latestAt b._capacity b._updated_at calls (n + 1) -
          latestAt b._capacity b._updated_at calls n) := by
  have hrun := run h calls n
  unfold grantAt
  rcases hcall : calls[n]? with _ | call
  · unfold after latestAt
    rw [take_succ_of_none hcall]
    simp
  · have hstep := (accounted hrun.sound call).pays
    rw [hrun.capacity, hrun.rate, hrun.clock] at hstep
    rw [after_succ hcall, latestAt_succ hcall]
    exact hstep

/-- **The rate bound.** Whatever is asked of a bucket and whatever the clock says: the
bucket never holds less than nothing or more than its capacity, and what any calls `i`
to `j` in a row are granted together is at most the capacity and what accrues from the
latest reading at call `i` to the latest reading at call `j`. -/
theorem granted_window_le (capacity : ℤ) (refill_rate built : ℚ) (hcap : 1 ≤ capacity)
    (hrate : 0 < refill_rate) (calls : List BucketCall) :
    ∃ b, new capacity refill_rate built = .ok b ∧
      (∀ n, 0 ≤ (b.after calls n)._tokens ∧ (b.after calls n)._tokens ≤ capacity) ∧
      ∀ i j, i ≤ j → j < calls.length →
        ∑ n ∈ Icc i j, (b.grantAt calls n : ℚ) ≤
          capacity + refill_rate * (latestAt capacity built calls (j + 1) -
            latestAt capacity built calls (i + 1)) := by
  have hsound : Sound ⟨capacity, refill_rate, capacity, built⟩ := sound_new hcap hrate
  refine ⟨_, new_ok hcap hrate built, fun n => ?_, fun i j hij _ => ?_⟩
  · have hrun := run hsound calls n
    have hbounded := hrun.sound.bounded
    rw [hrun.capacity] at hbounded
    exact ⟨hrun.sound.nonneg, hbounded⟩
  · have hwindow := sum_window_le (grantAt_opens hsound calls) (grantAt_pays hsound calls) hij
    have hleft := (run hsound calls (j + 1)).sound.nonneg
    linarith

/-- Five tokens at two a second: a burst of five, one call that steps back, and one
that comes two seconds after the latest reading. -/
theorem granted_window_le_burst :
    ∃ b, new 5 2 100 = .ok b ∧
      (∑ n ∈ Icc 1 3, (b.grantAt [.try_acquire 5 100, .try_acquire 1 0, .tokens 101,
        .try_acquire 4 102] n : ℚ)) ≤ 5 + 2 * (102 - 100) := by
  obtain ⟨b, hb, -, hwindow⟩ := granted_window_le 5 2 100 (by decide) (by norm_num)
    [.try_acquire 5 100, .try_acquire 1 0, .tokens 101, .try_acquire 4 102]
  refine ⟨b, hb, ?_⟩
  have hlast : latestAt 5 100 [.try_acquire 5 100, .try_acquire 1 0, .tokens 101,
      .try_acquire 4 102] 4 = 102 := by decide +kernel
  have hfirst : latestAt 5 100 [.try_acquire 5 100, .try_acquire 1 0, .tokens 101,
      .try_acquire 4 102] 2 = 100 := by decide +kernel
  have hsum := hwindow 1 3 (by decide) (by decide)
  rw [hlast, hfirst] at hsum
  exact hsum

end TokenBucket

end Conductor
