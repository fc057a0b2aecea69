/-
The limiter in front of the routes: `api_key` and `rate_limit` of `api/deps.py`.

Every request to the workflows and to the runs first costs its caller a token. The limiter of
the application is made once, when it starts, and nothing evicts from it; so what a caller
could spend is one number (`Tenant.level` at the refill rate), which waiting raises, a request
that passes lowers by one and everything else leaves alone.

A call of the limiter is one step here; the threads of the server do not interleave in it.

A caller that is turned away is told how long to wait. If it waits that long without having
passed meanwhile, it passes, whatever others do.
-/
import Conductor.Api
import Conductor.Admission

set_option autoImplicit false

open Finset

namespace Conductor

open RateLimiter

/-! ## The level of a key -/

namespace Tenant

variable {δ now later : ℚ} {t : Tenant}

/-- The level of a bucket at the moment it is written. -/
theorem level_written {t : Tenant} {bucket : TokenBucket} {now seen rate : ℚ}
    (hnow : bucket._updated_at = now) (hbounded : bucket._tokens ≤ t.capacity) :
    level rate now { t with entry := some (bucket, seen) } = bucket._tokens := by
  show min (t.capacity : ℚ) _ = _
  rw [hnow, sub_self, mul_zero, add_zero, min_eq_right hbounded]

/-- **The level decides.** A `check` passes if it costs no more than the level, and takes its
cost from it; if it does not pass, it is told when the level will be enough. -/
theorem Kept.check_decides (h : t.Kept δ now) {clock : Readings} (hbuilt : now ≤ clock.built)
    (hseen : clock.built ≤ clock.seen) (hrefilled : clock.seen ≤ clock.refilled)
    (hlag : clock.refilled - clock.seen ≤ δ) {cost : ℤ} (hlow : 1 ≤ cost)
    (hhigh : cost ≤ t.capacity) :
    ∃ decision, (t.check clock cost).1 = .ok decision ∧
      (decision.allowed = true ↔ (cost : ℚ) ≤ t.level t.refill_rate clock.refilled) ∧
      (decision.allowed = false → decision.retry_after =
        (cost - t.level t.refill_rate clock.refilled) / t.refill_rate) ∧
      (t.check clock cost).2.level t.refill_rate clock.refilled =
        t.level t.refill_rate clock.refilled - granted cost (t.check clock cost).1 := by
  obtain ⟨b, hbucket, hsound, hcapacity, hsame, -, hupdated, hlevel⟩ :=
    h.bucket_ok (by linarith) hbuilt (hseen.trans hrefilled)
  have hcheck : t.check clock cost = ((b.try_acquire clock.refilled cost).1,
      { t with entry := some ((b.try_acquire clock.refilled cost).2, clock.seen) }) := by
    unfold Tenant.check
    rw [hbucket]
  have hlatest : max b._updated_at clock.refilled = clock.refilled := max_eq_right (by linarith)
  have hheld : (b.refill clock.refilled)._tokens = t.level t.refill_rate clock.refilled := by
    rw [TokenBucket.refill_tokens hsound, hlatest, hcapacity, hsame, hlevel _ h.rate.le]
  have hbounded := level_le_capacity t.refill_rate clock.refilled t
  have hnow : (b.refill clock.refilled)._updated_at = clock.refilled := by
    rw [TokenBucket.refill_updated_at, hlatest]
  rw [hcheck]
  rcases b.try_acquire_cases clock.refilled cost with ⟨hinvalid, -⟩ |
    ⟨-, -, henough, decision, hallowed, hrun⟩ | ⟨-, -, hshort, decision, hdenied, hretry, hrun⟩
  · exact absurd ⟨hlow, hhigh.trans hcapacity.symm.le⟩ hinvalid
  -- It passes, and the bucket is written without the cost.
  · rw [hrun]
    rw [hheld] at henough
    have hcost : (0 : ℚ) ≤ cost := by exact_mod_cast (zero_le_one.trans hlow)
    refine ⟨decision, rfl, iff_of_true hallowed henough, fun hdenied => ?_, ?_⟩
    · rw [hallowed] at hdenied
      cases hdenied
    · have hgrant : granted cost (.ok decision : Except Exn Decision) = cost := if_pos hallowed
      have htokens : ((b.refill clock.refilled).withTokens
          ((b.refill clock.refilled)._tokens - cost))._tokens =
            t.level t.refill_rate clock.refilled - cost := by
        rw [← hheld]
        rfl
      have hroom : ((b.refill clock.refilled).withTokens
          ((b.refill clock.refilled)._tokens - cost))._tokens ≤ t.capacity := by
        rw [htokens]
        linarith
      have hnow' : ((b.refill clock.refilled).withTokens
          ((b.refill clock.refilled)._tokens - cost))._updated_at = clock.refilled := hnow
      rw [hgrant]
      exact (level_written hnow' hroom).trans htokens
  -- It is refused, and the bucket is only brought up to date.
  · rw [hrun]
    rw [hheld] at hshort
    have hgrant : granted cost (.ok decision : Except Exn Decision) = 0 := by
      show (if decision.allowed then cost else 0) = 0
      rw [hdenied, if_neg Bool.false_ne_true]
    refine ⟨decision, rfl, iff_of_false ?_ (not_le.mpr hshort), fun _ => ?_, ?_⟩
    · rw [hdenied]
      exact Bool.false_ne_true
    · rw [hretry, hheld, hsame]
    · rw [hgrant, Int.cast_zero, sub_zero]
      exact (level_written hnow (hheld.trans_le hbounded)).trans hheld

end Tenant

/-! ## The dependency -/

namespace Api

/-- Identify the caller for rate-limiting purposes: `x_api_key or "anonymous"`. -/
def api_key : Option String → String
  | none => "anonymous"
  | some key => if key = "" then "anonymous" else key

/-- The `ProblemDetail` of a caller that has exhausted its bucket. -/
structure Throttled extends Problem where
  retry_after : ℚ
deriving DecidableEq

/-- A request as it comes to the limiter. -/
structure Arrival where
  x_api_key : Option String
  clock : Readings

/-- What becomes of it: it goes on to its handler, is answered with a problem, or ends with
what the limiter raised. -/
abbrev Admission := Except (LimiterError String ⊕ Throttled) Unit

/-- The problem that is raised. `oneDigit` is the `:.1f` of a number. -/
def throttled (oneDigit : ℚ → String) (decision : Decision) : Throttled where
  type := problemType "rate-limited"
  title := "Rate limit exceeded"
  status := 429
  detail := "retry in " ++ oneDigit decision.retry_after ++ "s"
  cycle := none
  retry_after := decision.retry_after

/-- Reject a caller that has exhausted its token bucket. -/
def rate_limit (oneDigit : ℚ → String) (limiter : RateLimiter String) (arrival : Arrival) :
    Admission × RateLimiter String :=
  let key := api_key arrival.x_api_key
  let (decision, limiter) := limiter.check arrival.clock key 1
  match decision with
  | .error err => (.error (.inl err), limiter)
  | .ok decision =>
      if !decision.allowed then (.error (.inr (throttled oneDigit decision)), limiter)
      else (.ok (), limiter)

/-- The call of the limiter that a request comes to. -/
def Arrival.call (arrival : Arrival) : LimiterCall String :=
  .check (api_key arrival.x_api_key) 1 arrival.clock

variable {oneDigit : ℚ → String} {l : RateLimiter String} {arrivals : List Arrival}
  {arrival : Arrival} {n : ℕ}

theorem rate_limit_state (l : RateLimiter String) (arrival : Arrival) :
    (rate_limit oneDigit l arrival).2 = (l.perform arrival.call).2 := by
  show (rate_limit oneDigit l arrival).2 =
    (l.check arrival.clock (api_key arrival.x_api_key) 1).2
  unfold rate_limit
  cases hdecision : (l.check arrival.clock (api_key arrival.x_api_key) 1).1 with
  | error err => simp only [hdecision]
  | ok decision =>
      simp only [hdecision]
      split <;> rfl

/-- The limiter goes on as its calls say. -/
theorem replies_state (l : RateLimiter String) (arrivals : List Arrival) :
    (Lts.replies (rate_limit oneDigit) l arrivals).2 =
      (Lts.replies RateLimiter.perform l (arrivals.map Arrival.call)).2 := by
  induction arrivals generalizing l with
  | nil => rfl
  | cons arrival arrivals ih =>
      show (Lts.replies (rate_limit oneDigit) (rate_limit oneDigit l arrival).2 arrivals).2 = _
      rw [ih, rate_limit_state]
      rfl

theorem answer_at (harrival : arrivals[n]? = some arrival) :
    (Lts.replies (rate_limit oneDigit) l arrivals).1[n]? =
      some (rate_limit oneDigit (l.after (arrivals.map Arrival.call) n) arrival).1 := by
  rw [Lts.getElem?_replies, harrival, Option.map_some, replies_state, RateLimiter.after,
    List.map_take]

/-! ## One request -/

section Request

variable {δ now : ℚ}

/-- What a caller could spend when its request is decided. -/
def levelFor (l : RateLimiter String) (arrival : Arrival) : ℚ :=
  (l.tenant (api_key arrival.x_api_key)).level l._refill_rate arrival.clock.refilled

theorem granted_own (l : RateLimiter String) (arrival : Arrival) :
    arrival.call.granted (api_key arrival.x_api_key) (l.perform arrival.call).1 =
      Tenant.granted 1 (l.check arrival.clock (api_key arrival.x_api_key) 1).1 :=
  if_pos rfl

/-- A request passes if the level of its key is one, and takes one from it; else it is a 429
that tells when the level will be one. -/
theorem rate_limit_decides (oneDigit : ℚ → String) (hpaired : l.Paired)
    (hkept : (l.tenant (api_key arrival.x_api_key)).Kept δ now)
    (hclocked : arrival.call.Clocked δ now) :
    ((rate_limit oneDigit l arrival).1 = .ok () ∧ 1 ≤ levelFor l arrival ∧
      arrival.call.granted (api_key arrival.x_api_key) (l.perform arrival.call).1 = 1) ∨
    (∃ throttled, (rate_limit oneDigit l arrival).1 = .error (.inr throttled) ∧
      throttled.status = 429 ∧ levelFor l arrival < 1 ∧
      throttled.retry_after = (1 - levelFor l arrival) / l._refill_rate ∧
      arrival.call.granted (api_key arrival.x_api_key) (l.perform arrival.call).1 = 0) := by
  obtain ⟨hbuilt, hseen, hrefilled, hlag⟩ := hclocked
  obtain ⟨decision, hdecided, hallowed, hretry, -⟩ :=
    hkept.check_decides hbuilt hseen hrefilled hlag (le_refl 1) hkept.capacity
  have hcheck : (l.check arrival.clock (api_key arrival.x_api_key) 1).1 = .ok decision := by
    rw [(check_tenant hpaired arrival.clock (api_key arrival.x_api_key) 1).1, hdecided]
    rfl
  rw [Int.cast_one] at hallowed hretry
  have hgranted : arrival.call.granted (api_key arrival.x_api_key) (l.perform arrival.call).1 =
      if decision.allowed then 1 else 0 := by
    rw [granted_own, hcheck]
    rfl
  cases hcase : decision.allowed with
  | true =>
      refine .inl ⟨?_, hallowed.mp hcase, by rw [hgranted, hcase, if_pos rfl]⟩
      unfold rate_limit
      simp only [hcheck, hcase, Bool.not_true, Bool.false_eq_true, if_false]
  | false =>
      have hshort : levelFor l arrival < 1 := by
        refine not_le.mp (fun henough => ?_)
        rw [hallowed.mpr henough] at hcase
        cases hcase
      refine .inr ⟨throttled oneDigit decision, ?_, rfl, hshort, hretry hcase,
        by rw [hgranted, hcase, if_neg Bool.false_ne_true]⟩
      unfold rate_limit
      simp only [hcheck, hcase, Bool.not_false, if_true]

end Request

/-! ## Every history -/

section Runs

variable {δ start : ℚ} {k : String}

/-- A request goes on, or it is told to wait. -/
theorem answered {answer : Admission}
    (h : l.Before (api_key arrival.x_api_key) δ start (arrivals.map Arrival.call) n)
    (hrefill : 0 < l._refill_rate) (harrival : arrivals[n]? = some arrival)
    (hclocked : arrival.call.Clocked δ (clockAt start (arrivals.map Arrival.call) n))
    (hanswer : (Lts.replies (rate_limit oneDigit) l arrivals).1[n]? = some answer) :
    answer = .ok () ∨ ∃ throttled, answer = .error (.inr throttled) ∧
      throttled.status = 429 ∧ 0 < throttled.retry_after := by
  rw [answer_at harrival] at hanswer
  cases hanswer
  rcases rate_limit_decides oneDigit h.paired h.kept hclocked with
    ⟨hpasses, -⟩ | ⟨throttled, hrefused, hstatus, hshort, hretry, -⟩
  · exact .inl hpasses
  · refine .inr ⟨throttled, hrefused, hstatus, ?_⟩
    rw [hretry]
    exact div_pos (sub_pos.mpr hshort) (hrefill.trans_eq h.refill_rate.symm)

end Runs

end Api

end Conductor
