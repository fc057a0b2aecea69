/-
`core/retry.py`: the retry policies, and building one from its persisted form.

A policy that its constructor would refuse cannot be built: `FixedDelay` and
`ExponentialBackoff` carry what `__post_init__` checks. The random generator of
`ExponentialBackoff` enters as the function `uniform`, the value that
`rng.uniform(0.0, x)` returns for each `x`; arithmetic is exact.

`build_policy` is modelled on the `dict` the database holds. Where Python would
compare a value of the wrong type with a number it raises `TypeError`, and so
does the model. One assumption is made: `attempts` is the integer that its
annotation asks for. A non-integral `float`, which Python would let through,
raises `TypeError` here too.

Of the floats that the numbers of a policy are, one thing is modelled besides, in a second
version of `next_delay`: `factor ** exponent` raises `OverflowError` where the power is past
the largest of them. The product with `base` does not raise; it is cut off at `max_delay`.
-/
import Mathlib.Algebra.Order.Ring.Rat
import Mathlib.Data.List.Sort
import Mathlib.Tactic.Linarith
import Conductor.Values

set_option autoImplicit false

namespace Conductor

/-- Clamp for any computed delay. -/
def MAX_DELAY_SECONDS : ℚ := 86400

/-- `_validate`; on success it hands back what it checked. -/
def validate (attempts : ℤ) (delay : ℚ) : Except Exn (PLift (1 ≤ attempts ∧ 0 ≤ delay)) :=
  if ha : attempts < 1 then .error (.ValueError "max_attempts must be at least 1")
  else if hd : delay < 0 then .error (.ValueError "delay must be non-negative")
  else .ok ⟨by omega, not_lt.mp hd⟩

/-! ## The policies -/

structure FixedDelay where
  delay : ℚ
  attempts : ℤ
  attempts_pos : 1 ≤ attempts
  delay_nonneg : 0 ≤ delay

/-- `FixedDelay(delay, attempts)`, with `__post_init__`. -/
def FixedDelay.new (delay : ℚ) (attempts : ℤ) : Except Exn FixedDelay := do
  let h ← validate attempts delay
  return ⟨delay, attempts, h.down.1, h.down.2⟩

structure ExponentialBackoff where
  base : ℚ
  factor : ℚ
  attempts : ℤ
  max_delay : ℚ
  jitter : Bool
  attempts_pos : 1 ≤ attempts
  base_nonneg : 0 ≤ base
  factor_ge : 1 ≤ factor
  max_delay_pos : 0 < max_delay

/-- `ExponentialBackoff(...)`, with `__post_init__`. -/
def ExponentialBackoff.new (base factor : ℚ) (attempts : ℤ) (max_delay : ℚ) (jitter : Bool) :
    Except Exn ExponentialBackoff := do
  let h ← validate attempts base
  if hf : factor < 1 then
    .error (.ValueError "factor must be >= 1.0, else backoff shrinks")
  else if hm : max_delay ≤ 0 then
    .error (.ValueError "max_delay must be positive")
  else
    return ⟨base, factor, attempts, max_delay, jitter, h.down.1, h.down.2, not_lt.mp hf,
      not_le.mp hm⟩

/-- `ExponentialBackoff()`. -/
def ExponentialBackoff.default : ExponentialBackoff where
  base := 1
  factor := 2
  attempts := 5
  max_delay := 300
  jitter := true
  attempts_pos := by norm_num
  base_nonneg := by norm_num
  factor_ge := by norm_num
  max_delay_pos := by norm_num

def ExponentialBackoff.compute_delay (p : ExponentialBackoff) (uniform : ℚ → ℚ) (attempt : ℤ) :
    ℚ :=
  let exponent := min (attempt - 1) 64
  let raw := min (p.base * p.factor ^ exponent) p.max_delay
  if p.jitter then uniform raw else raw

inductive RetryPolicy where
  | NoRetry
  | FixedDelay (p : FixedDelay)
  | ExponentialBackoff (p : ExponentialBackoff)

namespace RetryPolicy

/-- Total attempts allowed, including the first. -/
def max_attempts : RetryPolicy → ℤ
  | .NoRetry => 1
  | .FixedDelay p => p.attempts
  | .ExponentialBackoff p => p.attempts

/-- Seconds to wait before attempt number `attempt + 1`. -/
def compute_delay (uniform : ℚ → ℚ) (attempt : ℤ) : RetryPolicy → Except Exn ℚ
  | .NoRetry => .error (.AssertionError "NoRetry never retries")
  | .FixedDelay p => .ok p.delay
  | .ExponentialBackoff p => .ok (p.compute_delay uniform attempt)

def should_retry (p : RetryPolicy) (attempt : ℤ) : Bool := attempt < p.max_attempts

/-- Seconds until the next attempt, or `none` when retries are exhausted. -/
def next_delay (p : RetryPolicy) (uniform : ℚ → ℚ) (attempt : ℤ) : Except Exn (Option ℚ) :=
  if attempt < 1 then
    .error (.ValueError "attempt is 1-based; the first failure is attempt 1")
  else if !p.should_retry attempt then
    .ok none
  else do
    let delay ← p.compute_delay uniform attempt
    return some (min (max 0 delay) MAX_DELAY_SECONDS)

/-- "Always >= 1." -/
theorem one_le_max_attempts (p : RetryPolicy) : 1 ≤ p.max_attempts := by
  cases p with
  | NoRetry => exact le_refl 1
  | FixedDelay p => exact p.attempts_pos
  | ExponentialBackoff p => exact p.attempts_pos

/-- Retries are exhausted exactly from attempt `max_attempts` on, and no call
with a 1-based attempt raises: `NoRetry.compute_delay` is never reached, because
its only attempt is the last. -/
theorem next_delay_spec (p : RetryPolicy) (uniform : ℚ → ℚ) {attempt : ℤ} (h : 1 ≤ attempt) :
    (p.max_attempts ≤ attempt ∧ p.next_delay uniform attempt = .ok none) ∨
      (attempt < p.max_attempts ∧ ∃ d, p.next_delay uniform attempt = .ok (some d)) := by
  have h1 : ¬ attempt < 1 := by omega
  by_cases hr : attempt < p.max_attempts
  · refine Or.inr ⟨hr, ?_⟩
    have hs : p.should_retry attempt = true := by simpa [should_retry] using hr
    cases p with
    | NoRetry => simp only [max_attempts] at hr; omega
    | FixedDelay p => exact ⟨_, by simp [next_delay, h1, hs, compute_delay]; rfl⟩
    | ExponentialBackoff p => exact ⟨_, by simp [next_delay, h1, hs, compute_delay]; rfl⟩
  · refine Or.inl ⟨by omega, ?_⟩
    have hs : p.should_retry attempt = false := by simpa [should_retry] using hr
    simp [next_delay, h1, hs]

end RetryPolicy

/-! ## The power of a float -/

/-- The least magnitude that is not rounded to a float: `sys.float_info.max` and half a step. -/
def FLOAT_OVERFLOW : ℚ := 2 ^ 1024 - 2 ^ 970

/-- What the power of floats raises past them. -/
def outOfRange : Exn := .OverflowError "(34, 'Numerical result out of range')"

/-- `x ** n` on floats, exact as far as it does not overflow. -/
def floatPower (x : ℚ) (n : ℤ) : Except Exn ℚ :=
  if FLOAT_OVERFLOW ≤ x ^ n then .error outOfRange else .ok (x ^ n)

/-- `ExponentialBackoff.compute_delay` on floats. -/
def ExponentialBackoff.float_compute_delay (p : ExponentialBackoff) (uniform : ℚ → ℚ)
    (attempt : ℤ) : Except Exn ℚ := do
  let exponent := min (attempt - 1) 64
  let power ← floatPower p.factor exponent
  let raw := min (p.base * power) p.max_delay
  return if p.jitter then uniform raw else raw

/-- The power that this attempt takes is past the floats. -/
def ExponentialBackoff.overflows (p : ExponentialBackoff) (attempt : ℤ) : Bool :=
  FLOAT_OVERFLOW ≤ p.factor ^ min (attempt - 1) 64

theorem ExponentialBackoff.float_compute_delay_eq (p : ExponentialBackoff) (uniform : ℚ → ℚ)
    (attempt : ℤ) : p.float_compute_delay uniform attempt =
      if p.overflows attempt then .error outOfRange else .ok (p.compute_delay uniform attempt) := by
  unfold float_compute_delay floatPower overflows
  by_cases h : FLOAT_OVERFLOW ≤ p.factor ^ min (attempt - 1) 64
  · simp only [h, if_true, decide_true]
    rfl
  · simp only [h, if_false, decide_false]
    rfl

namespace RetryPolicy

/-- `compute_delay` on floats. -/
def float_compute_delay (uniform : ℚ → ℚ) (attempt : ℤ) : RetryPolicy → Except Exn ℚ
  | .NoRetry => .error (.AssertionError "NoRetry never retries")
  | .FixedDelay p => .ok p.delay
  | .ExponentialBackoff p => p.float_compute_delay uniform attempt

/-- `next_delay` on floats. -/
def float_next_delay (p : RetryPolicy) (uniform : ℚ → ℚ) (attempt : ℤ) :
    Except Exn (Option ℚ) :=
  if attempt < 1 then
    .error (.ValueError "attempt is 1-based; the first failure is attempt 1")
  else if !p.should_retry attempt then
    .ok none
  else do
    let delay ← p.float_compute_delay uniform attempt
    return some (min (max 0 delay) MAX_DELAY_SECONDS)

/-- The policy is asked for a delay that it cannot compute. -/
def overflows (p : RetryPolicy) (attempt : ℤ) : Bool :=
  match p with
  | .ExponentialBackoff p => 1 ≤ attempt && attempt < p.attempts && p.overflows attempt
  | _ => false

/-- The first failure takes no power. -/
theorem overflows_first (p : RetryPolicy) : p.overflows 1 = false := by
  cases p with
  | NoRetry => rfl
  | FixedDelay p => rfl
  | ExponentialBackoff p =>
      have hsmall : ¬ FLOAT_OVERFLOW ≤ 1 := by decide +kernel
      simp [overflows, ExponentialBackoff.overflows, hsmall]

/-- **Floats and exact arithmetic:** they differ where the power overflows, and nowhere else. -/
theorem float_next_delay_eq (p : RetryPolicy) (uniform : ℚ → ℚ) (attempt : ℤ) :
    p.float_next_delay uniform attempt =
      if p.overflows attempt then .error outOfRange else p.next_delay uniform attempt := by
  unfold float_next_delay next_delay
  by_cases hfirst : attempt < 1
  · have hfine : p.overflows attempt = false := by
      cases p with
      | ExponentialBackoff p => simp [overflows, not_le.mpr hfirst]
      | NoRetry => rfl
      | FixedDelay p => rfl
    simp only [hfirst, hfine, if_true, Bool.false_eq_true, if_false]
  · cases p with
    | NoRetry => rfl
    | FixedDelay p => rfl
    | ExponentialBackoff p =>
        by_cases hretry : attempt < p.attempts
        · have hsame : overflows (.ExponentialBackoff p) attempt = p.overflows attempt := by
            simp [overflows, not_lt.mp hfirst, hretry]
          have hagain : should_retry (.ExponentialBackoff p) attempt = true :=
            decide_eq_true hretry
          simp only [hfirst, hagain, hsame, if_false, Bool.not_true, Bool.false_eq_true,
            float_compute_delay, p.float_compute_delay_eq uniform attempt]
          cases p.overflows attempt with
          | true => rfl
          | false => rfl
        · have hfine : overflows (.ExponentialBackoff p) attempt = false := by
            simp [overflows, hretry]
          have hspent : should_retry (.ExponentialBackoff p) attempt = false :=
            decide_eq_false hretry
          simp only [hfirst, hspent, hfine, if_false, Bool.not_false, if_true,
            Bool.false_eq_true]

end RetryPolicy

/-! ## `build_policy` -/

namespace Json

/-- A value in a numeric comparison. -/
def number : Json → Except Exn ℚ
  | .int n => .ok n
  | .float q => .ok q
  | .bool b => .ok (if b then 1 else 0)
  | _ => .error (.TypeError "'<' not supported between instances")

/-- A value where an `int` is expected. A fraction, which Python would carry along until an
`INTEGER` column refuses it, is taken to be refused here. -/
def integer : Json → Except Exn ℤ
  | .int n => .ok n
  | .bool b => .ok (if b then 1 else 0)
  | .float q =>
      if q.den = 1 then .ok q.num else .error (.TypeError "an integer is required")
  | _ => .error (.TypeError "'<' not supported between instances")

/-- `bool(value)`. -/
def truthy : Json → Bool
  | .null => false
  | .bool b => b
  | .int n => n ≠ 0
  | .float q => q ≠ 0
  | .str s => s ≠ ""
  | .list xs => !xs.isEmpty
  | .object fields => !fields.isEmpty

/-- `str(value)`. The text of a `float`, a list or an object is not Python's own;
none of them names a policy. -/
def pyStr : Json → String
  | .null => "None"
  | .bool b => if b then "True" else "False"
  | .int n => toString n
  | .float q => toString q
  | .str s => s
  | .list _ => "[...]"
  | .object _ => "\x7b...\x7d"

end Json

/-- `__dataclass_fields__` of the class a wire name stands for, without `rng`.
The `ClassVar` `wire_name` is among them. `none` when no policy has that name. -/
def policyFields (kind : String) : Option (List String) :=
  if kind = "none" then some ["wire_name"]
  else if kind = "fixed" then some ["wire_name", "delay", "attempts"]
  else if kind = "exponential" then
    some ["wire_name", "base", "factor", "attempts", "max_delay", "jitter"]
  else none

/-- `kwargs["attempts"] = kwargs.pop("max_attempts")`, when it is there: the
renamed option replaces one already called `attempts`. -/
def renameMaxAttempts (kwargs : List (String × Json)) : List (String × Json) :=
  match kwargs.find? (fun item => item.1 = "max_attempts") with
  | none => kwargs
  | some (_, value) =>
      let rest := kwargs.filter (fun item => item.1 ≠ "max_attempts")
      if rest.any (fun item => item.1 = "attempts") then
        rest.map (fun item => if item.1 = "attempts" then ("attempts", value) else item)
      else rest ++ [("attempts", value)]

/-- A keyword argument, or its default. -/
def kwarg {α : Type} (kwargs : List (String × Json)) (name : String)
    (convert : Json → Except Exn α) (default : α) : Except Exn α :=
  match kwargs.find? (fun item => item.1 = name) with
  | none => .ok default
  | some (_, value) => convert value

/-- `policy_cls(**kwargs)`, for keyword arguments among the class's fields. -/
def constructPolicy (kind : String) (kwargs : List (String × Json)) : Except Exn RetryPolicy :=
  if kwargs.any (fun item => item.1 = "wire_name") then
    .error (.TypeError "__init__() got an unexpected keyword argument 'wire_name'")
  else if kind = "none" then .ok .NoRetry
  else if kind = "fixed" then do
    -- `__post_init__` compares one after the other: a value out of bounds is found before
    -- the type of the next one.
    let attempts ← kwarg kwargs "attempts" Json.integer 3
    let _ ← validate attempts 0
    let delay ← kwarg kwargs "delay" Json.number 5
    return .FixedDelay (← FixedDelay.new delay attempts)
  else do
    let attempts ← kwarg kwargs "attempts" Json.integer 5
    let _ ← validate attempts 0
    let base ← kwarg kwargs "base" Json.number 1
    let _ ← validate attempts base
    let factor ← kwarg kwargs "factor" Json.number 2
    let _ ← ExponentialBackoff.new base factor attempts 1 true
    let max_delay ← kwarg kwargs "max_delay" Json.number 300
    let jitter ← kwarg kwargs "jitter" (fun value => .ok value.truthy) true
    return .ExponentialBackoff (← ExponentialBackoff.new base factor attempts max_delay jitter)

/-- Construct a policy from its persisted/wire form. -/
def build_policy (spec : Option Dict) : Except Exn RetryPolicy :=
  let items := (spec.map Dict.items).getD []
  if items.isEmpty then .ok (.ExponentialBackoff ExponentialBackoff.default)
  else
    let type := ((items.find? (fun item => item.1 = "type")).map Prod.snd).getD (.str "exponential")
    let kind := type.pyStr.toLower
    match policyFields kind with
    | none =>
        .error (.ValueError ("unknown retry policy " ++ pyRepr kind ++ "; expected one of "
          ++ pyReprList ["exponential", "fixed", "none"]))
    | some allowed =>
        let kwargs := renameMaxAttempts (items.filter (fun item => item.1 ≠ "type"))
        let unknown := (kwargs.map Prod.fst).filter (· ∉ allowed)
        if unknown.isEmpty then constructPolicy kind kwargs
        else
          .error (.ValueError ("unknown options for " ++ pyRepr kind ++ " policy: "
            ++ pyReprList (unknown.insertionSort (· ≤ ·))))

example : (build_policy none).map RetryPolicy.max_attempts = .ok 5 := rfl

example : (build_policy (some ⟨[("type", .str "none")], by decide⟩)).map RetryPolicy.max_attempts
    = .ok 1 := by decide +kernel

end Conductor
