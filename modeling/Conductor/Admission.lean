/-
What a limiter admits of a key, and when it turns the key away.

A window of calls grants a key at most its capacity and what accrues while it lasts. Between
two grants an eviction may hand the key a full bucket; but it comes only after `idle_ttl`
without a call, so it gives no more than a refill at the rate `capacity / (idle_ttl - δ)`
would have given in that time. What a key could spend at once (`level`) therefore never grows
faster than the larger of the two rates.

In the other direction a refusal has its reason: going back to where the bucket was last full
there is a window in which what was granted, with the cost that is refused, is more than the
capacity and what accrued. The reason is carried along with the bucket (`Explained`).

Other keys are in neither account.
-/
import Conductor.Tenants

set_option autoImplicit false

open Finset

namespace Conductor

/-! ## One tenant -/

namespace Tenant

variable {δ now now' rate : ℚ} {t : Tenant}

/-- What the key could spend at `now`, if its bucket were refilled at `rate`. -/
def level (rate now : ℚ) (t : Tenant) : ℚ :=
  match t.entry with
  | none => t.capacity
  | some (bucket, _) => min (t.capacity : ℚ) (bucket._tokens + rate * (now - bucket._updated_at))

/-- A tenant whose last call read the clock at `now` at the latest. A `check` refills within
`δ` of `_last_seen`. -/
structure Kept (δ now : ℚ) (t : Tenant) : Prop where
  capacity : 1 ≤ t.capacity
  rate : 0 < t.refill_rate
  entry : ∀ bucket seen, t.entry = some (bucket, seen) →
    bucket.Sound ∧ bucket._capacity = t.capacity ∧ bucket._refill_rate = t.refill_rate ∧
      bucket._updated_at ≤ seen + δ ∧ seen ≤ now ∧ bucket._updated_at ≤ now

theorem level_le_capacity (rate now : ℚ) (t : Tenant) : t.level rate now ≤ t.capacity := by
  unfold level
  split
  · exact le_refl _
  · exact min_le_left _ _

/-- Waiting adds no more than the rate. -/
theorem level_le_add (hrate : 0 ≤ rate) (hnow : now ≤ now') (t : Tenant) :
    t.level rate now' ≤ t.level rate now + rate * (now' - now) := by
  have haccrued : 0 ≤ rate * (now' - now) := mul_nonneg hrate (sub_nonneg.mpr hnow)
  unfold level
  split
  · linarith
  · rename_i bucket _ _
    rcases min_choice (t.capacity : ℚ) (bucket._tokens + rate * (now - bucket._updated_at)) with
      hfull | hshort
    · rw [hfull]
      exact (min_le_left _ _).trans (by linarith)
    · rw [hshort]
      exact (min_le_right _ _).trans (by linarith)

namespace Kept

theorem mono (h : t.Kept δ now) (hnow : now ≤ now') : t.Kept δ now' where
  capacity := h.capacity
  rate := h.rate
  entry := by
    intro bucket seen hentry
    obtain ⟨hsound, hcapacity, hrate, hlag, hseen, hupdated⟩ := h.entry bucket seen hentry
    exact ⟨hsound, hcapacity, hrate, hlag, hseen.trans hnow, hupdated.trans hnow⟩

/-- The bucket a `check` goes on with. -/
theorem bucket_ok (h : t.Kept δ now) (hδ : 0 ≤ δ) {built later : ℚ}
    (hbuilt : now ≤ built) (hlater : built ≤ later) :
    ∃ bucket, t.bucket built = .ok bucket ∧ bucket.Sound ∧ bucket._capacity = t.capacity ∧
      bucket._refill_rate = t.refill_rate ∧ bucket._updated_at ≤ built + δ ∧
      bucket._updated_at ≤ built ∧ ∀ rate, 0 ≤ rate → t.level rate later =
        min (t.capacity : ℚ) (bucket._tokens + rate * (later - bucket._updated_at)) := by
  unfold bucket level
  cases hentry : t.entry with
  | some e =>
      obtain ⟨hsound, hcapacity, hrate, -, -, hupdated⟩ := h.entry e.1 e.2 hentry
      exact ⟨e.1, rfl, hsound, hcapacity, hrate, by linarith, hupdated.trans hbuilt,
        fun _ _ => rfl⟩
  | none =>
      refine ⟨_, TokenBucket.new_ok h.capacity h.rate built,
        TokenBucket.sound_new h.capacity h.rate, rfl, rfl, by dsimp only; linarith, le_refl _,
        fun rate hrate => ?_⟩
      have haccrued : 0 ≤ rate * (later - built) := mul_nonneg hrate (sub_nonneg.mpr hlater)
      exact (min_eq_left (le_add_of_nonneg_right haccrued)).symm

end Kept

/-- An eviction leaves a key alone that has no bucket or was seen lately. -/
theorem evict_idle_fresh (h : ¬ ∃ bucket seen, t.entry = some (bucket, seen) ∧
    seen < now - t.idle_ttl) : t.evict_idle now = t := by
  unfold Tenant.evict_idle
  cases hentry : t.entry with
  | none => rw [Option.filter_none, ← hentry]
  | some e =>
      have hfresh : ¬ e.2 < now - t.idle_ttl := fun hidle => h ⟨e.1, e.2, hentry, hidle⟩
      simp only [Option.filter_some, hfresh, not_false_eq_true, decide_true, if_true]
      rw [← hentry]

/-- What a `check` grants. -/
def granted {ε : Type} (cost : ℤ) : Except ε Decision → ℤ
  | .ok decision => if decision.allowed then cost else 0
  | .error _ => 0

/-- A `check` takes what it grants from the level, and the rest does not grow. -/
theorem Kept.check (h : t.Kept δ now) {clock : Readings} (hbuilt : now ≤ clock.built)
    (hseen : clock.built ≤ clock.seen) (hrefilled : clock.seen ≤ clock.refilled)
    (hlag : clock.refilled - clock.seen ≤ δ) (cost : ℤ) :
    (t.check clock cost).2.Kept δ clock.refilled ∧ ∀ rate, t.refill_rate ≤ rate →
      granted cost (t.check clock cost).1 + (t.check clock cost).2.level rate clock.refilled ≤
        t.level rate clock.refilled := by
  obtain ⟨b, hbucket, hsound, hcapacity, hsame, -, hupdated, hlevel⟩ :=
    h.bucket_ok (by linarith) hbuilt (hseen.trans hrefilled)
  have hcheck : t.check clock cost = ((b.try_acquire clock.refilled cost).1,
      { t with entry := some ((b.try_acquire clock.refilled cost).2, clock.seen) }) := by
    unfold Tenant.check
    rw [hbucket]
  have hcall := TokenBucket.accounted hsound (.try_acquire cost clock.refilled)
  have hclock : ((b.try_acquire clock.refilled cost).2)._updated_at =
      if 1 ≤ cost ∧ cost ≤ b._capacity then max b._updated_at clock.refilled
      else b._updated_at := hcall.clock
  have hlatest : max b._updated_at clock.refilled = clock.refilled := max_eq_right (by linarith)
  rw [hlatest] at hclock
  rw [hcheck]
  refine ⟨⟨h.capacity, h.rate, ?_⟩, ?_⟩
  · rintro bucket seen ⟨⟩
    refine ⟨hcall.sound, hcall.capacity.trans hcapacity, hcall.rate.trans hsame, ?_, hrefilled, ?_⟩
    · rw [hclock]
      split <;> linarith
    · rw [hclock]
      split <;> linarith
  · intro rate hrate
    rw [hlevel rate (h.rate.le.trans hrate)]
    -- What a refill leaves is no more than what the larger rate would have left.
    have hheld : (b.refill clock.refilled)._tokens ≤
        min (t.capacity : ℚ) (b._tokens + rate * (clock.refilled - b._updated_at)) := by
      have hpassed : 0 ≤ clock.refilled - b._updated_at := by linarith
      rw [TokenBucket.refill_tokens hsound, hcapacity, hsame, hlatest]
      exact min_le_min (le_refl _)
        (add_le_add (le_refl _) (mul_le_mul_of_nonneg_right hrate hpassed))
    have hafter : ∀ bucket : TokenBucket, bucket._updated_at = clock.refilled →
        level rate clock.refilled { t with entry := some (bucket, clock.seen) } ≤
          bucket._tokens := by
      intro bucket hnow
      show min _ _ ≤ _
      rw [hnow, sub_self, mul_zero, add_zero]
      exact min_le_right _ _
    rcases b.try_acquire_cases clock.refilled cost with ⟨hinvalid, err, hrun⟩ |
      ⟨hlow, hhigh, henough, decision, hallowed, hrun⟩ |
        ⟨hlow, hhigh, hshort, decision, hdenied, -, hrun⟩
    · rw [hrun]
      dsimp only [granted]
      rw [Int.cast_zero, zero_add]
      exact le_refl _
    · rw [if_pos ⟨hlow, hhigh⟩] at hclock
      have hleft := hafter _ hclock
      rw [hrun] at hleft ⊢
      have hgrant : granted cost (.ok decision : Except Exn Decision) = cost := if_pos hallowed
      rw [hgrant]
      have htokens : ((b.refill clock.refilled).withTokens
        ((b.refill clock.refilled)._tokens - cost))._tokens =
          (b.refill clock.refilled)._tokens - cost := rfl
      linarith
    · rw [if_pos ⟨hlow, hhigh⟩] at hclock
      have hleft := hafter _ hclock
      rw [hrun] at hleft ⊢
      have hgrant : granted cost (.ok decision : Except Exn Decision) = 0 := by
        show (if decision.allowed then cost else 0) = 0
        rw [hdenied, if_neg Bool.false_ne_true]
      rw [hgrant, Int.cast_zero, zero_add]
      exact hleft.trans hheld

/-- An eviction adds nothing to the level, if the rate is such that it would have filled the
bucket in the time the key was idle. -/
theorem Kept.evict_idle (h : t.Kept δ now) (hnow : now ≤ now') :
    (t.evict_idle now').Kept δ now' ∧
      ∀ rate, 0 ≤ rate → (t.capacity : ℚ) ≤ rate * (t.idle_ttl - δ) →
        (t.evict_idle now').level rate now' ≤ t.level rate now' := by
  have hlater := h.mono hnow
  by_cases hstale : ∃ bucket seen, t.entry = some (bucket, seen) ∧ seen < now' - t.idle_ttl
  · obtain ⟨bucket, seen, hentry, hidle⟩ := hstale
    have hgone : t.evict_idle now' = { t with entry := none } := by
      simp only [Tenant.evict_idle, hentry, Option.filter_some, hidle, not_true_eq_false,
        decide_false, Bool.false_eq_true, if_false]
    rw [hgone]
    refine ⟨⟨h.capacity, h.rate, fun _ _ hnone => (Option.some_ne_none _ hnone.symm).elim⟩,
      fun rate hpos hfills => ?_⟩
    obtain ⟨hsound, -, -, hlag, -, -⟩ := h.entry bucket seen hentry
    have hidling : rate * (t.idle_ttl - δ) ≤ rate * (now' - bucket._updated_at) :=
      mul_le_mul_of_nonneg_left (by linarith) hpos
    have hnonneg := hsound.nonneg
    have hfull : t.level rate now' = t.capacity := by
      unfold level
      rw [hentry]
      exact min_eq_left (by linarith)
    rw [hfull]
    exact level_le_capacity rate now' _
  · rw [evict_idle_fresh hstale]
    exact ⟨hlater, fun _ _ _ => le_refl _⟩

/-- The bucket was full at some `since`, and what it has lost since then was spent. -/
def Explained (P : ℚ → ℚ → Prop) (t : Tenant) : Prop :=
  ∀ bucket seen, t.entry = some (bucket, seen) → ∃ spent since, P spent since ∧
    bucket._tokens = t.capacity - spent + t.refill_rate * (bucket._updated_at - since)

/-- A call may also find the bucket full, when it builds it or when it refills it. -/
def OrFull (P : ℚ → ℚ → Prop) (clock : Readings) (spent since : ℚ) : Prop :=
  P spent since ∨ spent = 0 ∧ (since = clock.built ∨ since = clock.refilled)

/-- **A refusal is explained.** A `check` that costs what a bucket can hold raises nothing, and
if it is turned away then what was spent since the bucket was full, with the cost, is more
than the capacity and what accrued. -/
theorem Kept.explained_check {P : ℚ → ℚ → Prop} (h : t.Kept δ now) (hexplained : t.Explained P)
    {clock : Readings} (hbuilt : now ≤ clock.built) (hseen : clock.built ≤ clock.seen)
    (hrefilled : clock.seen ≤ clock.refilled) (hlag : clock.refilled - clock.seen ≤ δ)
    (cost : ℤ) :
    (t.check clock cost).2.Explained (fun spent since => ∃ before, OrFull P clock before since ∧
      spent = before + granted cost (t.check clock cost).1) ∧
    (1 ≤ cost → cost ≤ t.capacity → ∃ decision, (t.check clock cost).1 = .ok decision ∧
      (decision.allowed = false → ∃ spent since, OrFull P clock spent since ∧
        t.capacity + t.refill_rate * (clock.refilled - since) < spent + cost)) := by
  obtain ⟨b, hbucket, hsound, hcapacity, hsame, -, hupdated, -⟩ :=
    h.bucket_ok (by linarith) hbuilt (hseen.trans hrefilled)
  have hcheck : t.check clock cost = ((b.try_acquire clock.refilled cost).1,
      { t with entry := some ((b.try_acquire clock.refilled cost).2, clock.seen) }) := by
    unfold Tenant.check
    rw [hbucket]
  have hlatest : max b._updated_at clock.refilled = clock.refilled := max_eq_right (by linarith)
  have hfound : ∃ spent since, OrFull P clock spent since ∧
      b._tokens = t.capacity - spent + t.refill_rate * (b._updated_at - since) := by
    unfold Tenant.bucket at hbucket
    cases hentry : t.entry with
    | some e =>
        rw [hentry] at hbucket
        cases hbucket
        obtain ⟨spent, since, hP, htokens⟩ := hexplained e.1 e.2 hentry
        exact ⟨spent, since, .inl hP, htokens⟩
    | none =>
        rw [hentry] at hbucket
        dsimp only at hbucket
        rw [TokenBucket.new_ok h.capacity h.rate] at hbucket
        cases hbucket
        exact ⟨0, clock.built, .inr ⟨rfl, .inl rfl⟩, by ring⟩
  -- The refill fills it up, or the old reason still holds.
  have hrefill : ∃ spent since, OrFull P clock spent since ∧
      (b.refill clock.refilled)._tokens =
        t.capacity - spent + t.refill_rate * (clock.refilled - since) := by
    rw [TokenBucket.refill_tokens hsound, hlatest, hcapacity, hsame]
    rcases min_choice (t.capacity : ℚ)
        (b._tokens + t.refill_rate * (clock.refilled - b._updated_at)) with hfull | hshort
    · rw [hfull]
      exact ⟨0, clock.refilled, .inr ⟨rfl, .inr rfl⟩, by ring⟩
    · rw [hshort]
      obtain ⟨spent, since, hwhy, htokens⟩ := hfound
      refine ⟨spent, since, hwhy, ?_⟩
      rw [htokens]
      ring
  have hrefillUpdated : (b.refill clock.refilled)._updated_at = clock.refilled := by
    rw [TokenBucket.refill_updated_at, hlatest]
  rw [hcheck]
  rcases b.try_acquire_cases clock.refilled cost with ⟨hinvalid, err, hrun⟩ |
    ⟨hlow, hhigh, henough, decision, hallowed, hrun⟩ |
      ⟨hlow, hhigh, hshort, decision, hdenied, -, hrun⟩
  · rw [hrun]
    refine ⟨?_, fun hlow hhigh => absurd ⟨hlow, hcapacity ▸ hhigh⟩ hinvalid⟩
    rintro bucket seen ⟨⟩
    obtain ⟨spent, since, hwhy, htokens⟩ := hfound
    exact ⟨spent, since, ⟨spent, hwhy, by simp [granted]⟩, htokens⟩
  · rw [hrun]
    refine ⟨?_, fun _ _ => ⟨decision, rfl, fun hdenied => ?_⟩⟩
    · rintro bucket seen ⟨⟩
      obtain ⟨spent, since, hwhy, htokens⟩ := hrefill
      have hgrant : granted cost (.ok decision : Except Exn Decision) = cost := if_pos hallowed
      refine ⟨spent + cost, since, ⟨spent, hwhy, by rw [hgrant]⟩, ?_⟩
      show (b.refill clock.refilled)._tokens - cost = t.capacity - (spent + cost) +
        t.refill_rate * ((b.refill clock.refilled)._updated_at - since)
      rw [hrefillUpdated, htokens]
      ring
    · rw [hallowed] at hdenied
      cases hdenied
  · rw [hrun]
    obtain ⟨spent, since, hwhy, htokens⟩ := hrefill
    refine ⟨?_, fun _ _ => ⟨decision, rfl, fun _ => ⟨spent, since, hwhy, ?_⟩⟩⟩
    · rintro bucket seen ⟨⟩
      have hgrant : granted cost (.ok decision : Except Exn Decision) = 0 := by
        show (if decision.allowed then cost else 0) = 0
        rw [hdenied, if_neg Bool.false_ne_true]
      refine ⟨spent, since, ⟨spent, hwhy, ?_⟩, ?_⟩
      · rw [hgrant, Int.cast_zero, add_zero]
      · rw [hrefillUpdated, htokens]
    · rw [htokens] at hshort
      linarith

theorem Explained.imp {P P' : ℚ → ℚ → Prop} (h : t.Explained P)
    (himp : ∀ spent since, P spent since → P' spent since) : t.Explained P' := by
  intro bucket seen hentry
  obtain ⟨spent, since, hP, htokens⟩ := h bucket seen hentry
  exact ⟨spent, since, himp spent since hP, htokens⟩

theorem Explained.evict_idle {P : ℚ → ℚ → Prop} (h : t.Explained P) (now : ℚ) :
    (t.evict_idle now).Explained P := by
  intro bucket seen hentry
  exact h bucket seen (Option.filter_eq_some_iff.mp hentry).1

theorem Kept.level_nonneg (h : t.Kept δ now) (hrate : 0 ≤ rate) : 0 ≤ t.level rate now := by
  have hcapacity : (1 : ℚ) ≤ t.capacity := by exact_mod_cast h.capacity
  unfold level
  split
  · linarith
  · rename_i bucket seen hentry
    obtain ⟨hsound, -, -, -, -, hupdated⟩ := h.entry bucket seen hentry
    have haccrued : 0 ≤ rate * (now - bucket._updated_at) :=
      mul_nonneg hrate (sub_nonneg.mpr hupdated)
    exact le_min (by linarith) (add_nonneg hsound.nonneg haccrued)

theorem check_settings (t : Tenant) (clock : Readings) (cost : ℤ) :
    (t.check clock cost).2.capacity = t.capacity ∧
      (t.check clock cost).2.refill_rate = t.refill_rate ∧
      (t.check clock cost).2.idle_ttl = t.idle_ttl := by
  unfold Tenant.check
  split <;> exact ⟨rfl, rfl, rfl⟩

end Tenant

/-! ## Every run -/

namespace LimiterCall

variable {K : Type} [DecidableEq K]

omit [DecidableEq K] in
/-- Readings go on. -/
theorem Clocked.le_ended {δ now : ℚ} {call : LimiterCall K} (h : call.Clocked δ now) :
    now ≤ call.ended := by
  cases call with
  | check key cost clock => exact h.1.trans (h.2.1.trans h.2.2.1)
  | evict_idle later => exact h

/-- What a call grants to `k`. -/
def granted (k : K) : LimiterCall K → LimiterReply K → ℤ
  | .check key cost _, .checked outcome => if key = k then Tenant.granted cost outcome else 0
  | _, _ => 0

end LimiterCall

namespace RateLimiter

variable {K : Type} [DecidableEq K] {l : RateLimiter K} {k : K} {δ now rate : ℚ}
  {calls : List (LimiterCall K)} {call : LimiterCall K}

/-- What call `n` grants to `k`. -/
def grantAt (l : RateLimiter K) (k : K) (calls : List (LimiterCall K)) (n : ℕ) : ℤ :=
  match calls[n]? with
  | some call => call.granted k ((l.after calls n).perform call).1
  | none => 0

/-- The last reading of the first `n` calls. -/
def clockAt (start : ℚ) (calls : List (LimiterCall K)) (n : ℕ) : ℚ :=
  (calls.take n).foldl LimiterCall.last start

/-- One call, as `k` knows it. -/
structure Step (l : RateLimiter K) (k : K) (δ : ℚ) (call : LimiterCall K) : Prop where
  paired : (l.perform call).2.Paired
  kept : ((l.perform call).2.tenant k).Kept δ call.ended
  capacity : ((l.perform call).2.tenant k).capacity = (l.tenant k).capacity
  refill_rate : ((l.perform call).2.tenant k).refill_rate = (l.tenant k).refill_rate
  idle_ttl : ((l.perform call).2.tenant k).idle_ttl = (l.tenant k).idle_ttl
  pays : ∀ rate, (l.tenant k).refill_rate ≤ rate →
    (call.isCheck = false →
      ((l.tenant k).capacity : ℚ) ≤ rate * ((l.tenant k).idle_ttl - δ)) →
    call.granted k (l.perform call).1 + ((l.perform call).2.tenant k).level rate call.ended ≤
      (l.tenant k).level rate call.ended

theorem step (hpaired : l.Paired) (h : (l.tenant k).Kept δ now) (hclocked : call.Clocked δ now) :
    l.Step k δ call := by
  cases call with
  | evict_idle now' =>
      obtain ⟨-, htenants, hpaired'⟩ := evict_idle_tenant hpaired now'
      obtain ⟨hkept, hlevel⟩ := h.evict_idle hclocked
      have htenant : (l.perform (.evict_idle now')).2.tenant k = (l.tenant k).evict_idle now' :=
        htenants k
      refine ⟨hpaired', ?_, ?_, ?_, ?_, ?_⟩
      · rw [htenant]
        exact hkept
      · rw [htenant]
        rfl
      · rw [htenant]
        rfl
      · rw [htenant]
        rfl
      · intro rate hrate hfills
        rw [htenant]
        show ((0 : ℤ) : ℚ) + _ ≤ _
        rw [Int.cast_zero, zero_add]
        exact hlevel rate (h.rate.le.trans hrate) (hfills rfl)
  | check key cost clock =>
      obtain ⟨hbuilt, hseen, hrefilled, hlag⟩ := hclocked
      obtain ⟨hreply, hown, hothers, hpaired'⟩ := check_tenant hpaired clock key cost
      by_cases hk : k = key
      · subst hk
        have htenant : (l.perform (.check k cost clock)).2.tenant k =
            ((l.tenant k).check clock cost).2 := hown
        obtain ⟨hkept, hpays⟩ := h.check hbuilt hseen hrefilled hlag cost
        obtain ⟨hcapacity, hrefill, httl⟩ := (l.tenant k).check_settings clock cost
        have hgranted : LimiterCall.granted k (.check k cost clock)
            (l.perform (.check k cost clock)).1 =
              Tenant.granted cost ((l.tenant k).check clock cost).1 := by
          show (if k = k then Tenant.granted cost (l.check clock k cost).1 else 0) = _
          rw [if_pos rfl, hreply]
          cases ((l.tenant k).check clock cost).1 <;> rfl
        rw [← htenant] at hkept hpays hcapacity hrefill httl
        rw [← hgranted] at hpays
        exact ⟨hpaired', hkept, hcapacity, hrefill, httl, fun rate hrate _ => hpays rate hrate⟩
      · have htenant : (l.perform (.check key cost clock)).2.tenant k = l.tenant k :=
          hothers k hk
        refine ⟨hpaired', ?_, ?_, ?_, ?_, ?_⟩
        · rw [htenant]
          exact h.mono (hbuilt.trans (hseen.trans hrefilled))
        · rw [htenant]
        · rw [htenant]
        · rw [htenant]
        · intro rate _ _
          rw [htenant]
          show (((if key = k then _ else 0 : ℤ)) : ℚ) + _ ≤ _
          rw [if_neg (fun he => hk he.symm), Int.cast_zero, zero_add]

omit [DecidableEq K] in
theorem clockAt_succ {start : ℚ} {n : ℕ} (hcall : calls[n]? = some call) :
    clockAt start calls (n + 1) = call.ended := by
  unfold clockAt
  rw [List.take_add_one, hcall, Option.toList_some, List.foldl_append]
  cases call <;> rfl

theorem after_succ {n : ℕ} (hcall : calls[n]? = some call) :
    l.after calls (n + 1) = ((l.after calls n).perform call).2 := by
  unfold after
  rw [List.take_add_one, hcall, Option.toList_some, Lts.replies_append_state]
  rfl

/-- In the first `n` calls, `k` was granted `spent` from a call on that read `since`. -/
def SpentSince (l : RateLimiter K) (k : K) (calls : List (LimiterCall K)) (n : ℕ)
    (spent since : ℚ) : Prop :=
  ∃ i first, i < n ∧ calls[i]? = some first ∧ first.isFor k = true ∧ since ∈ first.readings ∧
    spent = ∑ m ∈ Ico i n, (l.grantAt k calls m : ℚ)

theorem SpentSince.succ {n : ℕ} {spent since : ℚ} (h : l.SpentSince k calls n spent since) :
    l.SpentSince k calls (n + 1) (spent + l.grantAt k calls n) since := by
  obtain ⟨i, first, hi, hfirst, hfor, hsince, rfl⟩ := h
  exact ⟨i, first, hi.trans (Nat.lt_succ_self n), hfirst, hfor, hsince,
    (sum_Ico_succ_top hi.le _).symm⟩

/-- The state before call `n` of a run. -/
structure Before (l : RateLimiter K) (k : K) (δ start : ℚ) (calls : List (LimiterCall K))
    (n : ℕ) : Prop where
  paired : (l.after calls n).Paired
  kept : ((l.after calls n).tenant k).Kept δ (clockAt start calls n)
  capacity : ((l.after calls n).tenant k).capacity = l._capacity
  refill_rate : ((l.after calls n).tenant k).refill_rate = l._refill_rate
  idle_ttl : ((l.after calls n).tenant k).idle_ttl = l._idle_ttl
  explained : ((l.after calls n).tenant k).Explained (l.SpentSince k calls n)

/-- What a check of `k` at `n` may blame. -/
theorem spentSince_of_orFull {n : ℕ} {cost : ℤ} {clock : Readings} {spent since : ℚ}
    (hcall : calls[n]? = some (.check k cost clock))
    (h : Tenant.OrFull (l.SpentSince k calls n) clock spent since) :
    ∃ i first, i ≤ n ∧ calls[i]? = some first ∧ first.isFor k = true ∧ since ∈ first.readings ∧
      spent = ∑ m ∈ Ico i n, (l.grantAt k calls m : ℚ) := by
  rcases h with ⟨i, first, hi, hrest⟩ | ⟨rfl, hsince⟩
  · exact ⟨i, first, hi.le, hrest⟩
  · refine ⟨n, _, le_refl n, hcall, decide_eq_true rfl, ?_, ?_⟩
    · rcases hsince with rfl | rfl <;> simp [LimiterCall.readings]
    · rw [Ico_self, sum_empty]

/-- The reason that is carried along, over one more call. -/
theorem Before.explained_step {start : ℚ} {n : ℕ} (h : l.Before k δ start calls n)
    (hcall : calls[n]? = some call) (hclocked : call.Clocked δ (clockAt start calls n)) :
    ((l.after calls (n + 1)).tenant k).Explained (l.SpentSince k calls (n + 1)) := by
  have hgrant : l.grantAt k calls n = call.granted k ((l.after calls n).perform call).1 := by
    unfold grantAt
    rw [hcall]
  rw [after_succ hcall]
  cases call with
  | evict_idle now =>
      have htenant : ((l.after calls n).perform (.evict_idle now)).2.tenant k =
          ((l.after calls n).tenant k).evict_idle now := (evict_idle_tenant h.paired now).2.1 k
      rw [htenant]
      refine (h.explained.evict_idle now).imp (fun spent since hspent => ?_)
      have hnext := hspent.succ
      rw [hgrant] at hnext
      rwa [show LimiterCall.granted k (.evict_idle now) _ = 0 from rfl, Int.cast_zero,
        add_zero] at hnext
  | check key cost clock =>
      obtain ⟨hbuilt, hseen, hrefilled, hlag⟩ := hclocked
      obtain ⟨hreply, hown, hothers, -⟩ := check_tenant h.paired clock key cost
      by_cases hk : k = key
      · subst hk
        have hgranted : l.grantAt k calls n =
            Tenant.granted cost (((l.after calls n).tenant k).check clock cost).1 := by
          rw [hgrant]
          show (if k = k then Tenant.granted cost ((l.after calls n).check clock k cost).1
            else 0) = _
          rw [if_pos rfl, hreply]
          cases (((l.after calls n).tenant k).check clock cost).1 <;> rfl
        have htenant : ((l.after calls n).perform (.check k cost clock)).2.tenant k =
            (((l.after calls n).tenant k).check clock cost).2 := hown
        rw [htenant]
        refine (h.kept.explained_check h.explained hbuilt hseen hrefilled hlag cost).1.imp ?_
        rintro spent since ⟨before, hwhy, rfl⟩
        obtain ⟨i, first, hi, hfirst, hfor, hsince, rfl⟩ := spentSince_of_orFull hcall hwhy
        rw [← hgranted]
        exact ⟨i, first, Nat.lt_succ_of_le hi, hfirst, hfor, hsince, (sum_Ico_succ_top hi _).symm⟩
      · have htenant : ((l.after calls n).perform (.check key cost clock)).2.tenant k =
            (l.after calls n).tenant k := hothers k hk
        rw [htenant]
        refine h.explained.imp (fun spent since hspent => ?_)
        have hnext := hspent.succ
        have hzero : l.grantAt k calls n = 0 := by
          rw [hgrant]
          exact if_neg (fun he => hk he.symm)
        rwa [hzero, Int.cast_zero, add_zero] at hnext

section Runs

variable {capacity : ℤ} {refill_rate idle_ttl start : ℚ}

theorem before_new (hcap : 1 ≤ capacity) (hrefill : 0 < refill_rate) :
    (new capacity refill_rate idle_ttl : RateLimiter K).Before k δ start calls 0 where
  paired := paired_new capacity refill_rate idle_ttl
  kept := ⟨hcap, hrefill, fun _ _ hnone => (Option.some_ne_none _ hnone.symm).elim⟩
  capacity := rfl
  refill_rate := rfl
  idle_ttl := rfl
  explained := fun _ _ hnone => (Option.some_ne_none _ hnone.symm).elim

/-- Past the last call nothing changes any more. -/
theorem Before.past {n : ℕ} (h : l.Before k δ start calls n) (hcall : calls[n]? = none) :
    l.Before k δ start calls (n + 1) ∧ l.grantAt k calls n = 0 ∧
      l.after calls (n + 1) = l.after calls n ∧
      clockAt start calls (n + 1) = clockAt start calls n := by
  have htake : calls.take (n + 1) = calls.take n := by
    rw [List.take_add_one, hcall, Option.toList_none, List.append_nil]
  have hafter : l.after calls (n + 1) = l.after calls n := by
    unfold after
    rw [htake]
  have hclock : clockAt start calls (n + 1) = clockAt start calls n := by
    unfold clockAt
    rw [htake]
  have hgrant : l.grantAt k calls n = 0 := by
    unfold grantAt
    rw [hcall]
  refine ⟨⟨?_, ?_, ?_, ?_, ?_, ?_⟩, hgrant, hafter, hclock⟩
  · rw [hafter]
    exact h.paired
  · rw [hafter, hclock]
    exact h.kept
  · rw [hafter]
    exact h.capacity
  · rw [hafter]
    exact h.refill_rate
  · rw [hafter]
    exact h.idle_ttl
  · rw [hafter]
    refine h.explained.imp (fun spent since hspent => ?_)
    have hnext := hspent.succ
    rwa [hgrant, Int.cast_zero, add_zero] at hnext

theorem before (hcap : 1 ≤ capacity) (hrefill : 0 < refill_rate)
    (hmeets : Lts.Meets LimiterCall.last (LimiterCall.Clocked δ) start calls) (n : ℕ) :
    (new capacity refill_rate idle_ttl : RateLimiter K).Before k δ start calls n := by
  induction n with
  | zero => exact before_new hcap hrefill
  | succ n ih =>
      cases hcall : calls[n]? with
      | none => exact (ih.past hcall).1
      | some call =>
          have hclocked := Lts.meets_iff.mp hmeets n call hcall
          have hstep := step ih.paired ih.kept hclocked
          refine ⟨?_, ?_, ?_, ?_, ?_, ih.explained_step hcall hclocked⟩
          · rw [after_succ hcall]
            exact hstep.paired
          · rw [after_succ hcall, clockAt_succ hcall]
            exact hstep.kept
          · rw [after_succ hcall, hstep.capacity]
            exact ih.capacity
          · rw [after_succ hcall, hstep.refill_rate]
            exact ih.refill_rate
          · rw [after_succ hcall, hstep.idle_ttl]
            exact ih.idle_ttl

/-- What a call grants comes out of the level before it and of the time that passed, and
leaves no more than the capacity. -/
theorem grantAt_paid (hcap : 1 ≤ capacity) (hrefill : 0 < refill_rate) (hrate : refill_rate ≤ rate)
    (hfills : ∀ call ∈ calls, call.isCheck = false → (capacity : ℚ) ≤ rate * (idle_ttl - δ))
    (hmeets : Lts.Meets LimiterCall.last (LimiterCall.Clocked δ) start calls) (n : ℕ) :
    let l : RateLimiter K := new capacity refill_rate idle_ttl
    let level := fun n => ((l.after calls n).tenant k).level rate (clockAt start calls n)
    l.grantAt k calls n + level (n + 1) ≤ capacity ∧
      l.grantAt k calls n + level (n + 1) ≤
        level n + rate * (clockAt start calls (n + 1) - clockAt start calls n) := by
  intro l level
  have hbefore : l.Before k δ start calls n := before hcap hrefill hmeets n
  have hpos : 0 ≤ rate := hrefill.le.trans hrate
  have hfull : ∀ now, ((l.after calls n).tenant k).level rate now ≤ capacity := by
    intro now
    have hle := Tenant.level_le_capacity rate now ((l.after calls n).tenant k)
    rwa [hbefore.capacity] at hle
  cases hcall : calls[n]? with
  | none =>
      obtain ⟨-, hgrant, hafter, hclock⟩ := hbefore.past hcall
      have hlevel : level (n + 1) = level n := by
        show ((l.after calls (n + 1)).tenant k).level rate (clockAt start calls (n + 1)) = _
        rw [hafter, hclock]
      rw [hgrant, hlevel, hclock, Int.cast_zero, zero_add, sub_self, mul_zero, add_zero]
      exact ⟨hfull _, le_refl _⟩
  | some call =>
      have hclocked := Lts.meets_iff.mp hmeets n call hcall
      have hpays := (step hbefore.paired hbefore.kept hclocked).pays rate
        (hbefore.refill_rate.trans_le hrate) (fun hevicts => by
          rw [hbefore.capacity, hbefore.idle_ttl]
          exact hfills call (List.mem_of_getElem? hcall) hevicts)
      have hgrant : l.grantAt k calls n = call.granted k ((l.after calls n).perform call).1 := by
        unfold grantAt
        rw [hcall]
      have hlevel : level (n + 1) =
          (((l.after calls n).perform call).2.tenant k).level rate call.ended := by
        show ((l.after calls (n + 1)).tenant k).level rate (clockAt start calls (n + 1)) = _
        rw [after_succ hcall, clockAt_succ hcall]
      have hended : clockAt start calls n ≤ call.ended := hclocked.le_ended
      rw [hgrant, hlevel, clockAt_succ hcall]
      exact ⟨hpays.trans (hfull _), hpays.trans (Tenant.level_le_add hpos hended _)⟩

end Runs

/-- **Neither lax nor harsh.** Whatever is asked of a limiter with a clock that never steps
back, in which a `check` takes at most `δ`, and for every key: in every window of calls the
key is granted at most its capacity and what accrues meanwhile, at the refill rate if nothing
is ever evicted, else at any rate from there on that fills a bucket in `idle_ttl - δ`; a
`check` for a cost that a bucket can hold is decided; and if it is turned away, then some
earlier `check` of the key opens a window in which the key was granted so much that with this
cost it would have had more than its capacity and what accrued. -/
theorem neither_lax_nor_harsh (capacity : ℤ) (refill_rate idle_ttl δ : ℚ) (hcap : 1 ≤ capacity)
    (hrefill : 0 < refill_rate) (calls : List (LimiterCall K))
    (hsorted : (calls.flatMap LimiterCall.readings).Pairwise (· ≤ ·))
    (hlag : ∀ call ∈ calls, call.lag ≤ δ) (k : K) :
    let l : RateLimiter K := new capacity refill_rate idle_ttl
    (∀ rate, refill_rate ≤ rate →
      (∀ call ∈ calls, call.isCheck = false → (capacity : ℚ) ≤ rate * (idle_ttl - δ)) →
      ∀ i j first final, i ≤ j → calls[i]? = some first → calls[j]? = some final →
        ∑ n ∈ Icc i j, (l.grantAt k calls n : ℚ) ≤
          capacity + rate * (final.ended - first.ended)) ∧
    ∀ j cost clock, calls[j]? = some (.check k cost clock) → 1 ≤ cost → cost ≤ capacity →
      ∃ decision, ((l.after calls j).perform (.check k cost clock)).1 = .checked (.ok decision) ∧
        (decision.allowed = false → ∃ i first since, i < j ∧ calls[i]? = some first ∧
          first.isFor k = true ∧ since ∈ first.readings ∧
          capacity + refill_rate * (clock.refilled - since) <
            ∑ n ∈ Ico i j, (l.grantAt k calls n : ℚ) + cost) := by
  intro l
  obtain ⟨start, hstart⟩ := (List.finite_toSet (calls.flatMap LimiterCall.readings)).bddBelow
  have hmeets := LimiterCall.meets_clocked hstart hsorted hlag
  have hbefore : ∀ n, l.Before k δ start calls n := before hcap hrefill hmeets
  refine ⟨fun rate hrate hfills i j first final hij hfirst hfinal => ?_,
    fun j cost clock hcall hlow hhigh => ?_⟩
  · have hpaid := grantAt_paid (k := k) hcap hrefill hrate hfills hmeets
    have hwindow := sum_window_le (fun n => (hpaid n).1) (fun n => (hpaid n).2) hij
    have hleft := (hbefore (j + 1)).kept.level_nonneg (hrefill.le.trans hrate)
    rw [clockAt_succ hfinal] at hleft
    rw [clockAt_succ hfirst, clockAt_succ hfinal] at hwindow
    exact le_of_add_le_of_nonneg_left hwindow hleft
  · obtain ⟨hbuilt, hseen, hrefilled, hlag⟩ := Lts.meets_iff.mp hmeets j _ hcall
    obtain ⟨decision, hdecided, hwhy⟩ := ((hbefore j).kept.explained_check (hbefore j).explained
      hbuilt hseen hrefilled hlag cost).2 hlow (hhigh.trans (hbefore j).capacity.symm.le)
    refine ⟨decision, ?_, fun hdenied => ?_⟩
    · show LimiterReply.checked ((l.after calls j).check clock k cost).1 = _
      rw [(check_tenant (hbefore j).paired clock k cost).1, hdecided]
      rfl
    · obtain ⟨spent, since, horFull, hmore⟩ := hwhy hdenied
      obtain ⟨i, first, hi, hfirst, hfor, hsince, rfl⟩ := spentSince_of_orFull hcall horFull
      rw [(hbefore j).capacity, (hbefore j).refill_rate] at hmore
      refine ⟨i, first, since, hi.lt_of_ne ?_, hfirst, hfor, hsince, hmore⟩
      -- A bucket that this call found full would have been enough.
      rintro rfl
      rw [hcall] at hfirst
      cases hfirst
      have hago : since ≤ clock.refilled := by
        rcases List.mem_cons.mp hsince with rfl | hsince
        · exact hseen.trans hrefilled
        rcases List.mem_cons.mp hsince with rfl | hsince
        · exact hrefilled
        · exact (List.mem_singleton.mp hsince).le
      have haccrued : 0 ≤ refill_rate * (clock.refilled - since) :=
        mul_nonneg hrefill.le (sub_nonneg.mpr hago)
      have hcost : (cost : ℚ) ≤ capacity := by exact_mod_cast hhigh
      rw [Ico_self, sum_empty, zero_add] at hmore
      have hshort : (capacity : ℚ) + refill_rate * (clock.refilled - since) < cost := hmore
      linarith

/-- A bucket of a hundred at ten a second, forgotten after five seconds, is one of a hundred
at twenty a second to a key that knows when to come back. -/
theorem neither_lax_nor_harsh_forgotten :
    let l : RateLimiter String := new 100 10 5
    let calls : List (LimiterCall String) :=
      [.check "tenant" 100 ⟨0, 0, 0⟩, .evict_idle 6, .check "tenant" 100 ⟨6, 6, 6⟩,
        .check "tenant" 50 ⟨7, 7, 7⟩]
    l.grantAt "tenant" calls 2 = 100 ∧ l.grantAt "tenant" calls 3 = 0 ∧
      (∑ n ∈ Icc 0 3, (l.grantAt "tenant" calls n : ℚ) ≤ 100 + 20 * 7) := by
  intro l calls
  have hbound := (neither_lax_nor_harsh 100 10 5 0 (by decide) (by norm_num) calls
    (by decide +kernel) (by decide +kernel) "tenant").1 20 (by norm_num) (by norm_num) 0 3 _ _
    (by decide) rfl rfl
  refine ⟨by decide +kernel, by decide +kernel, hbound.trans ?_⟩
  norm_num [LimiterCall.ended]

end RateLimiter

end Conductor
