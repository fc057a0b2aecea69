/-
What a denied call says about when to come back.

A bucket that nothing is taken from holds, at every reading, what it held at some
earlier one and what accrued in between, up to the capacity. It does not matter how
many refills came in between: each of them caps what the one before it had capped.
A cost that a bucket can hold at all is below the cap, so the cap never decides.
-/
import Conductor.RateBound

set_option autoImplicit false

namespace Conductor

namespace TokenBucket

variable {b : TokenBucket} {held since : ℚ}

/-! ## Readings of the clock -/

/-- What a call read, if it came as far as reading the clock. -/
def reading (capacity : ℤ) : BucketCall → Option ℚ
  | .try_acquire cost now => if 1 ≤ cost ∧ cost ≤ capacity then some now else none
  | .tokens now => some now

def readings (capacity : ℤ) (calls : List BucketCall) : List ℚ :=
  calls.filterMap (reading capacity)

theorem latest_le {capacity : ℤ} {sofar t : ℚ} {call : BucketCall} (hsofar : sofar ≤ t)
    (hcall : ∀ now, reading capacity call = some now → now ≤ t) :
    latest capacity sofar call ≤ t := by
  cases call with
  | tokens now => exact max_le hsofar (hcall now rfl)
  | try_acquire cost now =>
      show (if 1 ≤ cost ∧ cost ≤ capacity then max sofar now else sofar) ≤ t
      by_cases hvalid : 1 ≤ cost ∧ cost ≤ capacity
      · rw [if_pos hvalid]
        exact max_le hsofar (hcall now (if_pos hvalid))
      · rw [if_neg hvalid]
        exact hsofar

theorem latestAt_le {capacity : ℤ} {built t : ℚ} {calls : List BucketCall} (hbuilt : built ≤ t)
    (hcalls : ∀ now ∈ readings capacity calls, now ≤ t) (n : ℕ) :
    latestAt capacity built calls n ≤ t := by
  induction n with
  | zero => exact hbuilt
  | succ n ih =>
      rcases hcall : calls[n]? with _ | call
      · unfold latestAt
        rw [take_succ_of_none hcall]
        exact ih
      · rw [latestAt_succ hcall]
        refine latest_le ih (fun now hnow => hcalls now ?_)
        exact List.mem_filterMap.mpr ⟨call, List.mem_of_getElem? hcall, hnow⟩

/-! ## Nothing is taken -/

/-- The bucket holds what it held at `since` and what accrued from then to its latest
reading, up to the capacity. -/
structure Accrued (b : TokenBucket) (held since : ℚ) : Prop where
  sound : b.Sound
  since_le : since ≤ b._updated_at
  tokens : b._tokens = min (b._capacity : ℚ) (held + b._refill_rate * (b._updated_at - since))

/-- Capping what was capped before caps once. -/
theorem min_min_add {cap x y : ℚ} (hy : 0 ≤ y) : min cap (min cap x + y) = min cap (x + y) := by
  rw [← min_add_add_right, ← min_assoc, min_eq_left (le_add_of_nonneg_right hy)]

theorem Accrued.refill (h : b.Accrued held since) (now : ℚ) :
    (b.refill now).Accrued held since where
  sound := h.sound.refill now
  since_le := by
    rw [refill_updated_at]
    exact h.since_le.trans (le_max_left _ _)
  tokens := by
    have hpassed : 0 ≤ b._refill_rate * (max b._updated_at now - b._updated_at) :=
      mul_nonneg h.sound.rate.le (sub_nonneg.mpr (le_max_left _ _))
    rw [refill_tokens h.sound, h.tokens, min_min_add hpassed, refill_capacity,
      refill_refill_rate, refill_updated_at]
    congr 1
    ring

/-- A call that is granted nothing refills the bucket, or leaves it as it is. -/
theorem perform_of_not_granted (call : BucketCall)
    (hgrant : granted call (b.perform call).1 = 0) :
    (b.perform call).2 = b ∨ ∃ now, (b.perform call).2 = b.refill now := by
  cases call with
  | tokens now => exact .inr ⟨now, rfl⟩
  | try_acquire cost now =>
      rcases b.try_acquire_cases now cost with
        ⟨-, err, hrun⟩ | ⟨hlow, -, -, decision, hallowed, hrun⟩ |
          ⟨-, -, -, decision, -, -, hrun⟩
      · left
        rw [perform_try_acquire hrun]
      -- A granted call has a cost of at least one.
      · rw [perform_try_acquire hrun] at hgrant
        have hcost : granted (.try_acquire cost now) (.decided (.ok decision)) = cost :=
          if_pos hallowed
        rw [hcost] at hgrant
        omega
      · right
        exact ⟨now, by rw [perform_try_acquire hrun]⟩

/-- Calls that take nothing: denied ones, refused ones and reads of `tokens`. -/
def Idle (b : TokenBucket) (calls : List BucketCall) : Prop :=
  ∀ n, n < calls.length → b.grantAt calls n = 0

/-- **While nothing is taken** the bucket only accrues, whatever is asked of it. -/
theorem Accrued.after (h : b.Accrued held since) {calls : List BucketCall}
    (hidle : b.Idle calls) (n : ℕ) : (b.after calls n).Accrued held since := by
  induction n with
  | zero => exact h
  | succ n ih =>
      rcases hcall : calls[n]? with _ | call
      · unfold TokenBucket.after
        rw [take_succ_of_none hcall]
        exact ih
      · have hgrant := hidle n (List.getElem?_eq_some_iff.mp hcall).1
        unfold grantAt at hgrant
        rw [hcall] at hgrant
        rw [after_succ hcall]
        rcases perform_of_not_granted call hgrant with hsame | ⟨now, hrefilled⟩
        · rw [hsame]
          exact ih
        · rw [hrefilled]
          exact ih.refill now

/-! ## When to come back -/

theorem sound_of_new {capacity : ℤ} {refill_rate built : ℚ}
    (hnew : new capacity refill_rate built = .ok b) :
    b.Sound ∧ b._capacity = capacity ∧ b._updated_at = built := by
  unfold new at hnew
  split at hnew
  · cases hnew
  · rename_i hcap
    split at hnew
    · cases hnew
    · rename_i hrate
      cases hnew
      exact ⟨sound_new (not_lt.mp hcap) (not_le.mp hrate), rfl, rfl⟩

/-- A refilled bucket has just what it held and what accrued. -/
theorem accrued_of_refill (h : b.Sound) {now : ℚ} (hnow : b._updated_at ≤ now) :
    (b.refill now).Accrued (b.refill now)._tokens now where
  sound := h.refill now
  since_le := by
    rw [refill_updated_at]
    exact le_max_right _ _
  tokens := by
    rw [refill_updated_at, max_eq_right hnow, sub_self, mul_zero, add_zero]
    exact (min_eq_right (h.refill now).bounded).symm

/-- The cap is above any cost that is not refused, so a bucket can afford it as soon as
the deficit has accrued. -/
theorem Accrued.affords_iff (h : b.Accrued held since) {cost : ℤ} {now : ℚ}
    (hcost : cost ≤ b._capacity) (hnow : b._updated_at ≤ now) :
    (cost : ℚ) ≤ (b.refill now)._tokens ↔ (cost - held) / b._refill_rate ≤ now - since := by
  have hcap : (cost : ℚ) ≤ b._capacity := by exact_mod_cast hcost
  rw [(h.refill now).tokens, refill_capacity, refill_refill_rate, refill_updated_at,
    max_eq_right hnow, le_min_iff, and_iff_right hcap, div_le_iff₀' h.sound.rate,
    sub_le_iff_le_add']

/-- What led to a bucket: it is sound, and its latest reading is not after one that
comes after all of its calls. -/
theorem ready_of_new {capacity : ℤ} {refill_rate built : ℚ}
    (hnew : new capacity refill_rate built = .ok b) {calls : List BucketCall} {t : ℚ}
    (hclock : ([built] ++ readings capacity calls ++ [t]).Pairwise (· ≤ ·)) :
    (b.after calls calls.length).Sound ∧ (b.after calls calls.length)._capacity = capacity ∧
      (b.after calls calls.length)._updated_at ≤ t := by
  obtain ⟨hsound, hcapacity, hbuilt⟩ := sound_of_new hnew
  simp only [List.pairwise_append, List.mem_append, List.mem_singleton] at hclock
  obtain ⟨-, -, hle⟩ := hclock
  have hrun := run hsound calls calls.length
  refine ⟨hrun.sound, hrun.capacity.trans hcapacity, ?_⟩
  rw [hrun.clock, hbuilt, hcapacity]
  exact latestAt_le (hle _ (Or.inl rfl) t rfl) (fun now hnow => hle now (Or.inr hnow) t rfl) _

/-- **After a denial**, and while nothing is taken, the cost is granted as soon as the
advice has passed. -/
theorem granted_after_denial (hsound : b.Sound) {t : ℚ} (hlatest : b._updated_at ≤ t) {cost : ℤ}
    {decision : Decision} {denied : TokenBucket}
    (hdenied : b.try_acquire t cost = (.ok decision, denied)) (hallowed : decision.allowed = false)
    {further : List BucketCall} (hidle : denied.Idle further) {d : ℚ}
    (hclock : ([t] ++ readings b._capacity further ++ [t + d]).Pairwise (· ≤ ·)) :
    ∃ later, ((denied.after further further.length).try_acquire (t + d) cost).1 = .ok later ∧
      (later.allowed = true ↔ decision.retry_after ≤ d) := by
  simp only [List.pairwise_append, List.mem_append, List.mem_singleton] at hclock
  obtain ⟨-, -, hlast_le⟩ := hclock
  rcases b.try_acquire_cases t cost with
    ⟨-, err, hcall⟩ | ⟨-, -, -, granting, hgranting, hcall⟩ |
      ⟨hlow, hhigh, -, denying, -, hretry, hcall⟩
  · rw [hdenied] at hcall
    cases hcall
  · rw [hdenied] at hcall
    cases hcall
    rw [hallowed] at hgranting
    cases hgranting
  -- The bucket was refilled at `t` and gave nothing away, so it only accrues from there.
  · rw [hdenied] at hcall
    cases hcall
    have hfurther := run (hsound.refill t) further further.length
    have haccrued := (accrued_of_refill hsound hlatest).after hidle further.length
    have hcap : ((b.refill t).after further further.length)._capacity = b._capacity := by
      rw [hfurther.capacity, refill_capacity]
    have hnow : ((b.refill t).after further further.length)._updated_at ≤ t + d := by
      rw [hfurther.clock, refill_capacity, refill_updated_at, max_eq_right hlatest]
      exact latestAt_le (hlast_le t (Or.inl rfl) _ rfl)
        (fun now hread => hlast_le now (Or.inr hread) _ rfl) _
    have haffords := haccrued.affords_iff (hhigh.trans_eq hcap.symm) hnow
    rw [hfurther.rate, refill_refill_rate, ← hretry, add_sub_cancel_left] at haffords
    rcases ((b.refill t).after further further.length).try_acquire_cases (t + d) cost with
      ⟨hinvalid, -⟩ | ⟨-, -, henough, later, hlater, hcall⟩ |
        ⟨-, -, hshort, later, hlater, -, hcall⟩
    · exact absurd ⟨hlow, hhigh.trans_eq hcap.symm⟩ hinvalid
    · exact ⟨later, by rw [hcall], iff_of_true hlater (haffords.mp henough)⟩
    · refine ⟨later, by rw [hcall], iff_of_false ?_ ?_⟩
      · rw [hlater]
        exact Bool.false_ne_true
      · exact fun hwaited => absurd (haffords.mpr hwaited) (not_le.mpr hshort)

/-- **`retry_after` is exact.** Whatever calls led to a bucket: when a call at `t` is
denied, and nothing is taken until `t + d`, the same cost is granted then if and only if
`d` is at least the `retry_after` that the denied call was told. The clock does not step
back, from the constructor to the last reading. -/
theorem retry_after_exact {capacity : ℤ} {refill_rate built : ℚ}
    (hnew : new capacity refill_rate built = .ok b) (calls : List BucketCall) {t : ℚ} {cost : ℤ}
    {decision : Decision} {denied : TokenBucket}
    (hdenied : (b.after calls calls.length).try_acquire t cost = (.ok decision, denied))
    (hallowed : decision.allowed = false) {further : List BucketCall} (hidle : denied.Idle further)
    {d : ℚ} (hclock : ([built] ++ readings capacity calls ++ [t] ++ readings capacity further ++
      [t + d]).Pairwise (· ≤ ·)) :
    ∃ later, ((denied.after further further.length).try_acquire (t + d) cost).1 = .ok later ∧
      (later.allowed = true ↔ decision.retry_after ≤ d) := by
  -- The readings up to `t`, and those from `t` on.
  have hbefore : ([built] ++ readings capacity calls ++ [t]).Pairwise (· ≤ ·) := by
    rw [List.append_assoc _ (readings capacity further)] at hclock
    exact (List.pairwise_append.mp hclock).1
  have hafter : ([t] ++ readings capacity further ++ [t + d]).Pairwise (· ≤ ·) := by
    simp only [List.append_assoc] at hclock ⊢
    exact (List.pairwise_append.mp (List.pairwise_append.mp hclock).2.1).2.1
  obtain ⟨hsound, hcapacity, hlatest⟩ := ready_of_new hnew hbefore
  rw [← hcapacity] at hafter
  exact granted_after_denial hsound hlatest hdenied hallowed hidle hafter

/-- An emptied bucket of five tokens at two a second: four of them are two seconds away,
and a denied call and a read on the way make no difference. -/
theorem retry_after_exact_emptied :
    ∃ later, (((⟨5, 2, 0, 100⟩ : TokenBucket).after
        [.try_acquire 5 101, .tokens 101.5] 2).try_acquire (100 + 2) 4).1 = .ok later ∧
      later.allowed = true := by
  have hnew : new 5 2 100 = .ok ⟨5, 2, 5, 100⟩ := by decide +kernel
  have hdenied : (TokenBucket.after ⟨5, 2, 5, 100⟩ [.try_acquire 5 100] 1).try_acquire 100 4 =
      (.ok ⟨false, 0, 2, 5⟩, ⟨5, 2, 0, 100⟩) := by decide +kernel
  have hidle : (⟨5, 2, 0, 100⟩ : TokenBucket).Idle [.try_acquire 5 101, .tokens 101.5] := by
    unfold Idle
    decide +kernel
  obtain ⟨later, hlater, hallowed⟩ :=
    retry_after_exact hnew [.try_acquire 5 100] hdenied rfl hidle (d := 2) (by decide +kernel)
  exact ⟨later, hlater, hallowed.mpr (le_refl 2)⟩

end TokenBucket

end Conductor
